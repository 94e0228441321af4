import UtilityLayer.Cache.Store

/-!
# What a cache can hold

Whatever a cache gives back was put into it under the same key. Looking up,
dropping and evicting never bring in an entry, and a put brings in its own.
-/

set_option autoImplicit false

namespace UtilityLayer.Cache

namespace Memory

/-- The entry stored under a key, live or not. -/
def held? (m : Memory) (key : Text) : Option Entry := Keyed.get? key m.entries

theorem held?_empty (capacity : Nat) (ttl : Duration) (key : Text) :
    (empty capacity ttl).held? key = none := rfl

theorem held?_of_forget {m : Memory} {dropped key : Text} {e : Entry}
    (h : (m.forget dropped).held? key = some e) : m.held? key = some e := Keyed.get?_of_erase h

theorem get?_of_shed {capacity : Nat} {ks : List Text} {es : List (Text × Entry)} {key : Text}
    {e : Entry} (h : Keyed.get? key (shed capacity ks es).2.2 = some e) :
    Keyed.get? key es = some e := by
  induction ks generalizing es with
  | nil => exact h
  | cons k ks ih =>
    rw [shed] at h
    split at h
    · exact Keyed.get?_of_erase (ih h)
    · exact h

theorem held?_of_put {m : Memory} {new e : Entry} {key : Text}
    (h : (m.put new).held? key = some e) :
    (key = new.key ∧ e = new) ∨ m.held? key = some e := by
  have hs : (m.store new).held? key = some e := get?_of_shed h
  by_cases hk : key = new.key
  · subst hk
    have hn : (m.store new).held? new.key = some new := Keyed.get?_set_self _ _ _
    rw [hn] at hs
    exact .inl ⟨rfl, (Option.some.inj hs).symm⟩
  · rw [← hs]
    exact .inr (Keyed.get?_set_of_ne hk _ _).symm

theorem held?_of_afterGet {m : Memory} {used key : Text} {now : UInt64} {e : Entry}
    (h : (m.afterGet used now).held? key = some e) : m.held? key = some e := by
  rw [afterGet] at h
  split at h
  · exact h
  · exact held?_of_forget h
  · exact h

theorem held?_of_get? {m : Memory} {key : Text} {now : UInt64} {e : Entry}
    (h : m.get? key now = some e) : m.held? key = some e := by
  rw [get?, look] at h
  cases he : Keyed.get? key m.entries with
  | none => simp [he] at h
  | some stored =>
    rw [he] at h
    by_cases hs : stored.isStale m.ttl now = true
    · simp [hs] at h
    · simp only [hs] at h
      rw [← h]
      exact he

theorem get?_put_empty (capacity : Nat) (ttl : Duration) (e : Entry) :
    ((empty capacity ttl).put e).get? e.key e.timestamp = some e := by
  have hfits : ¬ max capacity 1 < 1 := by omega
  simp [put, evict, store, touch, empty, Keyed.set, shed, hfits, get?, look, Keyed.get?,
    Entry.isStale]

end Memory

namespace Store

/-- The entry stored under a key, live or not. -/
def held? : Store → Text → Option Entry
  | memory m, key => m.held? key
  | refusing _, _ => none

theorem held?_of_get? {s : Store} {key : Text} {now : UInt64} {e : Entry}
    (h : s.get? key now = some e) : s.held? key = some e := by
  cases s with
  | memory m => exact Memory.held?_of_get? h
  | refusing detail => simp [get?] at h

theorem held?_of_afterGet {s : Store} {used key : Text} {now : UInt64} {e : Entry}
    (h : (s.afterGet used now).held? key = some e) : s.held? key = some e := by
  cases s with
  | memory m => exact Memory.held?_of_afterGet h
  | refusing detail => exact h

theorem held?_of_put {s : Store} {new e : Entry} {key : Text}
    (h : (s.put new).held? key = some e) :
    (key = new.key ∧ e = new) ∨ s.held? key = some e := by
  cases s with
  | memory m => exact Memory.held?_of_put h
  | refusing detail => exact .inr h

end Store

/-- The parts of a key can be told apart, since all theme hashes are equally long. -/
theorem keyOf_inj {s t : TextSet} {hash hash' : Text} (length : hash.length = hash'.length)
    (h : keyOf s hash = keyOf t hash') : s.joined = t.joined ∧ hash = hash' := by
  obtain ⟨hj, hh⟩ := List.append_inj' h (by simp [length])
  exact ⟨hj, (List.cons.inj hh).2⟩

end UtilityLayer.Cache
