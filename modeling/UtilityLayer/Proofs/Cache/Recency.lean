import Mathlib.Data.List.Nodup
import UtilityLayer.Proofs.Cache.Contents

/-!
# The cache as a list in the order of use

The entries and the queue of a cache are two views of one list: the entries with
the least recently used first. Every use of the cache is a simple operation on
that list, and in every state that uses lead to the queue holds each key of the
table once.
-/

set_option autoImplicit false

namespace UtilityLayer.Cache

/-- Entries in the order of their last use, the least recently used first. -/
abbrev Lru := List Entry

inductive Use where
  | put (entry : Entry)
  | get (key : Text) (now : UInt64)
  deriving DecidableEq

namespace Lru

def without (l : Lru) (key : Text) : Lru := l.filter fun e => e.key ≠ key

/-- Moves or appends the entry to the back, and drops from the front what is over
the capacity. One entry always has a place. -/
def put (capacity : Nat) (l : Lru) (e : Entry) : Lru :=
  (l.without e.key ++ [e]).drop ((l.without e.key ++ [e]).length - max capacity 1)

/-- An entry found alive is moved to the back, and an expired one is removed. -/
def use (capacity : Nat) (ttl : Duration) (l : Lru) : Use → Lru × Option Entry
  | .put e => (l.put capacity e, none)
  | .get key now =>
    match l.find? fun e => e.key = key with
    | none => (l, none)
    | some e =>
      if e.isStale ttl now then (l.without key, none) else (l.without key ++ [e], some e)

end Lru

def Memory.use (m : Memory) : Use → Memory × Option Entry
  | .put e => (m.put e, none)
  | .get key now => (m.afterGet key now, m.get? key now)

/-- The state after some uses, and their answers. -/
def replay {σ : Type} (step : σ → Use → σ × Option Entry) (s : σ) :
    List Use → σ × List (Option Entry)
  | [] => (s, [])
  | u :: us => ((replay step (step s u).1 us).1, (step s u).2 :: (replay step (step s u).1 us).2)

/-- What the use puts under the key. -/
def Use.puts? (key : Text) : Use → Option Entry
  | put e => if e.key = key then some e else none
  | get _ _ => none

/-- The entry that was put last under the key. -/
def lastPut? (key : Text) (uses : List Use) : Option Entry := uses.reverse.findSome? (Use.puts? key)

theorem lastPut?_concat (key : Text) (uses : List Use) (u : Use) :
    lastPut? key (uses ++ [u]) = (u.puts? key).or (lastPut? key uses) := by
  rw [lastPut?, List.reverse_concat, List.findSome?_cons]
  cases u.puts? key <;> rfl

theorem Lru.without_filterMap {found : Text → Option Entry}
    (filed : ∀ k e, found k = some e → e.key = k) (key : Text) (ks : List Text) :
    (ks.filter (· ≠ key)).filterMap found = Lru.without (ks.filterMap found) key := by
  induction ks with
  | nil => rfl
  | cons k ks ih =>
    cases hf : found k with
    | none =>
      rw [List.filterMap_cons_none hf, ← ih]
      by_cases hk : k = key
      · rw [List.filter_cons_of_neg (by simp [hk])]
      · rw [List.filter_cons_of_pos (by simp [hk]), List.filterMap_cons_none hf]
    | some e =>
      have he := filed k e hf
      by_cases hk : k = key
      · have hkey : e.key = key := he.trans hk
        rw [List.filter_cons_of_neg (by simp [hk]), List.filterMap_cons_some hf, Lru.without,
          List.filter_cons_of_neg (by simp [hkey])]
        exact ih
      · have hkey : e.key ≠ key := fun h => hk (he.symm.trans h)
        rw [List.filter_cons_of_pos (by simp [hk]), List.filterMap_cons_some hf,
          List.filterMap_cons_some hf, Lru.without, List.filter_cons_of_pos (by simp [hkey])]
        exact congrArg (e :: ·) ih

namespace Memory

variable {m : Memory} {key : Text} {e : Entry} {now : UInt64}

/-- Every entry is filed under its own key, and the queue holds the keys of the
table, each once. -/
structure Ranked (m : Memory) : Prop where
  filed : ∀ key e, m.held? key = some e → e.key = key
  unique : (Keyed.keys m.entries).Nodup
  once : m.recency.Nodup
  same : ∀ key, key ∈ m.recency ↔ key ∈ Keyed.keys m.entries

theorem toList_eq (m : Memory) : m.toList = m.recency.filterMap m.held? := rfl

theorem held?_forget_of_ne {k : Text} (h : k ≠ key) : (m.forget key).held? k = m.held? k :=
  Keyed.get?_erase_of_ne h _

theorem held?_store_self (m : Memory) (e : Entry) : (m.store e).held? e.key = some e :=
  Keyed.get?_set_self _ _ _

theorem held?_store_of_ne {k : Text} (h : k ≠ e.key) : (m.store e).held? k = m.held? k :=
  Keyed.get?_set_of_ne h _ _

namespace Ranked

theorem empty (capacity : Nat) (ttl : Duration) : (Memory.empty capacity ttl).Ranked where
  filed := by simp [held?_empty]
  unique := List.nodup_nil
  once := List.nodup_nil
  same := fun _ => Iff.rfl

theorem perm (h : m.Ranked) : m.recency.Perm (Keyed.keys m.entries) :=
  (List.perm_ext_iff_of_nodup h.once h.unique).mpr h.same

theorem mem_recency_iff (h : m.Ranked) : key ∈ m.recency ↔ (m.held? key).isSome = true :=
  (h.same key).trans Keyed.mem_keys_iff

theorem mem_toList_iff (h : m.Ranked) : e ∈ m.toList ↔ m.held? e.key = some e := by
  rw [toList_eq, List.mem_filterMap]
  constructor
  · rintro ⟨k, -, hk⟩
    rwa [h.filed k e hk]
  · intro he
    exact ⟨e.key, h.mem_recency_iff.mpr (by simp [he]), he⟩

theorem keys_toList (h : m.Ranked) : m.toList.map Entry.key = m.recency := by
  have held : ∀ k ∈ m.recency, (m.held? k).map Entry.key = some k := by
    intro k hk
    obtain ⟨e, he⟩ := Option.isSome_iff_exists.mp (h.mem_recency_iff.mp hk)
    rw [he, Option.map_some, h.filed k e he]
  rw [toList_eq, List.map_filterMap, List.filterMap_congr held, List.filterMap_some]

theorem length_toList (h : m.Ranked) : m.toList.length = m.size := by
  have lengths := congrArg List.length h.keys_toList
  rw [List.length_map, h.perm.length_eq, Keyed.keys, List.length_map] at lengths
  exact lengths

theorem find?_toList (h : m.Ranked) (key : Text) :
    m.toList.find? (fun e => e.key = key) = m.held? key := by
  cases hf : m.toList.find? fun e => e.key = key with
  | none =>
    cases hh : m.held? key with
    | none => rfl
    | some e =>
      have hk := h.filed key e hh
      have absent := List.find?_eq_none.mp hf e (h.mem_toList_iff.mpr (hk ▸ hh))
      simp [hk] at absent
  | some e =>
    have hk : e.key = key := by simpa using List.find?_some hf
    rw [← hk]
    exact (h.mem_toList_iff.mp (List.mem_of_find?_eq_some hf)).symm

theorem forget (h : m.Ranked) (key : Text) : (m.forget key).Ranked := by
  constructor
  · intro k e he
    exact h.filed k e (held?_of_forget he)
  · exact Keyed.nodup_keys_erase h.unique
  · exact h.once.filter _
  · intro k
    show k ∈ m.recency.filter (· ≠ key) ↔ k ∈ Keyed.keys (Keyed.erase key m.entries)
    rw [Keyed.keys_erase, List.mem_filter, List.mem_filter, h.same k]

theorem toList_forget (h : m.Ranked) (key : Text) :
    (m.forget key).toList = Lru.without m.toList key := by
  rw [toList_eq, toList_eq, ← Lru.without_filterMap h.filed]
  apply List.filterMap_congr
  intro k hk
  exact held?_forget_of_ne (by simpa using (List.mem_filter.mp hk).2)

theorem recency_touch (h : m.Ranked) (key : Text) :
    (m.touch key).recency = m.recency.filter (· ≠ key) ++ [key] := by
  show m.recency.erase key ++ [key] = _
  rw [h.once.erase_eq_filter]
  congr 2
  funext k
  by_cases hk : k = key <;> simp [hk]

theorem nodup_touch (h : m.Ranked) (key : Text) : (m.touch key).recency.Nodup := by
  rw [h.recency_touch, List.nodup_append]
  refine ⟨h.once.filter _, List.nodup_singleton _, ?_⟩
  intro a ha b hb
  rw [List.mem_singleton.mp hb]
  simpa using (List.mem_filter.mp ha).2

theorem mem_touch (h : m.Ranked) {k : Text} :
    k ∈ (m.touch key).recency ↔ k ∈ m.recency ∨ k = key := by
  rw [h.recency_touch]
  by_cases hk : k = key <;> simp [hk]

theorem touch (h : m.Ranked) (he : m.held? key = some e) : (m.touch key).Ranked := by
  refine ⟨h.filed, h.unique, h.nodup_touch key, fun k => h.mem_touch.trans ?_⟩
  show _ ↔ k ∈ Keyed.keys m.entries
  rw [← h.same k]
  constructor
  · rintro (hk | rfl)
    · exact hk
    · exact h.mem_recency_iff.mpr (by simp [he])
  · exact .inl

theorem toList_touch (h : m.Ranked) (he : m.held? key = some e) :
    (m.touch key).toList = Lru.without m.toList key ++ [e] := by
  show (m.touch key).recency.filterMap m.held? = _
  rw [h.recency_touch, List.filterMap_append, Lru.without_filterMap h.filed, ← toList_eq]
  simp [he]

theorem store (h : m.Ranked) (e : Entry) : (m.store e).Ranked := by
  refine ⟨?_, Keyed.nodup_keys_set h.unique, h.nodup_touch e.key, fun k => h.mem_touch.trans ?_⟩
  · intro k e' he
    by_cases hk : k = e.key
    · subst hk
      rw [held?_store_self] at he
      rw [← Option.some.inj he]
    · rw [held?_store_of_ne hk] at he
      exact h.filed k e' he
  · show _ ↔ k ∈ Keyed.keys (Keyed.set e.key e m.entries)
    rw [h.same k, Keyed.keys_set]
    split
    · rename_i hm
      constructor
      · rintro (hk | rfl)
        · exact hk
        · exact hm
      · exact .inl
    · simp

theorem toList_store (h : m.Ranked) (e : Entry) :
    (m.store e).toList = Lru.without m.toList e.key ++ [e] := by
  have others : (m.recency.filter (· ≠ e.key)).filterMap (m.store e).held? =
      (m.recency.filter (· ≠ e.key)).filterMap m.held? := by
    apply List.filterMap_congr
    intro k hk
    exact held?_store_of_ne (by simpa using (List.mem_filter.mp hk).2)
  show (m.touch e.key).recency.filterMap (m.store e).held? = _
  rw [h.recency_touch, List.filterMap_append, others, Lru.without_filterMap h.filed, ← toList_eq]
  simp [held?_store_self]

end Ranked

theorem evict_of_fits (fits : m.size ≤ m.capacity) : m.evicted = [] ∧ m.evict = m := by
  have none : shed m.capacity m.recency m.entries = ([], m.recency, m.entries) := by
    cases m.recency with
    | nil => rfl
    | cons k ks =>
      have few : ¬ m.capacity < m.entries.length := Nat.not_lt.mpr fits
      rw [shed, if_neg few]
  constructor
  · rw [evicted, none]
  · rw [evict, none]

theorem Ranked.evict_of_over (h : m.Ranked) (crowded : m.capacity < m.size) :
    ∃ k e, m.recency = k :: (m.forget k).recency ∧ m.toList = e :: (m.forget k).toList ∧
      m.evicted = k :: (m.forget k).evicted ∧ m.evict = (m.forget k).evict := by
  cases hr : m.recency with
  | nil =>
    have none : m.size = 0 := by rw [← h.length_toList, toList_eq, hr]; rfl
    omega
  | cons k ks =>
    have fresh : ∀ j ∈ ks, j ≠ k := by
      rintro j hj rfl
      exact (List.nodup_cons.mp (hr ▸ h.once)).1 hj
    have rest : (m.forget k).recency = ks := by
      show m.recency.filter (· ≠ k) = ks
      rw [hr, List.filter_cons_of_neg (by simp), List.filter_eq_self]
      simpa using fresh
    obtain ⟨e, he⟩ := Option.isSome_iff_exists.mp
      (h.mem_recency_iff.mp (hr ▸ List.mem_cons_self : k ∈ m.recency))
    have more : m.capacity < m.entries.length := crowded
    refine ⟨k, e, by rw [rest], ?_, ?_, ?_⟩
    · rw [toList_eq, hr, List.filterMap_cons_some he, toList_eq, rest]
      congr 1
      apply List.filterMap_congr
      intro j hj
      exact (held?_forget_of_ne (fresh j hj)).symm
    · rw [evicted, hr, shed, if_pos more, evicted, rest]
      rfl
    · rw [Memory.evict, hr, shed, if_pos more, Memory.evict, rest]
      rfl

structure Evicted (m m' : Memory) (keys : List Text) : Prop where
  ranked : m'.Ranked
  bounds : m'.capacity = m.capacity ∧ m'.ttl = m.ttl
  toList : m'.toList = m.toList.drop (m.size - m.capacity)
  keys : keys = m.recency.take (m.size - m.capacity)

theorem Ranked.evict (h : m.Ranked) : Evicted m m.evict m.evicted := by
  induction hn : m.size generalizing m with
  | zero =>
    obtain ⟨none, same⟩ := evict_of_fits (m := m) (by omega)
    rw [none, same]
    exact ⟨h, ⟨rfl, rfl⟩, by simp [hn], by simp [hn]⟩
  | succ n ih =>
    by_cases crowded : m.capacity < m.size
    · obtain ⟨k, e, recency, list, gone, same⟩ := h.evict_of_over crowded
      have size : (m.forget k).size = n := by
        rw [← (h.forget k).length_toList]
        have lengths := h.length_toList
        rw [list, List.length_cons] at lengths
        omega
      obtain ⟨ranked, bounds, toList, keys⟩ := ih (h.forget k) size
      have steps : m.size - m.capacity = (m.forget k).size - (m.forget k).capacity + 1 := by
        show m.size - m.capacity = (m.forget k).size - m.capacity + 1
        omega
      rw [gone, same]
      refine ⟨ranked, bounds, ?_, ?_⟩
      · rw [toList, steps, list, List.drop_succ_cons]
      · rw [keys, steps, recency, List.take_succ_cons]
    · obtain ⟨none, same⟩ := evict_of_fits (m := m) (by omega)
      rw [none, same]
      have fits : m.size - m.capacity = 0 := by omega
      exact ⟨h, ⟨rfl, rfl⟩, by rw [fits, List.drop_zero], by rw [fits, List.take_zero]⟩

/-- A cache within its capacity that is the list `l`. -/
structure Represents (capacity : Nat) (ttl : Duration) (m : Memory) (l : Lru) : Prop where
  ranked : m.Ranked
  bounds : m.capacity = max capacity 1 ∧ m.ttl = ttl
  fits : m.size ≤ m.capacity
  toList : m.toList = l

variable {capacity : Nat} {ttl : Duration} {l : Lru}

theorem Ranked.store_kept (h : m.Ranked) (roomy : 0 < m.capacity) (e : Entry) :
    (m.store e).size - m.capacity ≤ (Lru.without m.toList e.key).length := by
  have size : (m.store e).size = (Lru.without m.toList e.key).length + 1 := by
    rw [← (h.store e).length_toList, h.toList_store, List.length_append, List.length_singleton]
  omega

theorem Ranked.not_mem_evicted (h : m.Ranked) (roomy : 0 < m.capacity) (e : Entry) :
    e.key ∉ (m.store e).evicted := by
  have kept : (m.store e).size - m.capacity ≤ (m.recency.filter (· ≠ e.key)).length := by
    have length : (Lru.without m.toList e.key).length = (m.recency.filter (· ≠ e.key)).length := by
      rw [← h.keys_toList, List.filter_map, List.length_map]
      rfl
    exact length ▸ h.store_kept roomy e
  rw [(h.store e).evict.keys]
  show e.key ∉ (m.touch e.key).recency.take ((m.store e).size - m.capacity)
  rw [h.recency_touch, List.take_append_of_le_length kept]
  intro hm
  have others := (List.mem_filter.mp (List.mem_of_mem_take hm)).2
  simp at others

theorem Ranked.held?_put (h : m.Ranked) (roomy : 0 < m.capacity) (e : Entry) :
    (m.put e).held? e.key = some e := by
  have evict := (h.store e).evict
  have last : e ∈ (Lru.without m.toList e.key ++ [e]).drop ((m.store e).size - m.capacity) := by
    rw [List.drop_append_of_le_length (h.store_kept roomy e)]
    simp
  rw [put, ← evict.ranked.mem_toList_iff, evict.toList, h.toList_store]
  exact last

theorem Represents.put (h : Represents capacity ttl m l) (e : Entry) :
    Represents capacity ttl (m.put e) (l.put capacity e) := by
  have evict := (h.ranked.store e).evict
  have size := (h.ranked.store e).length_toList
  have list := h.ranked.toList_store e
  rw [h.toList] at list
  refine ⟨evict.ranked, ?_, ?_, ?_⟩
  · exact ⟨evict.bounds.1.trans h.bounds.1, evict.bounds.2.trans h.bounds.2⟩
  · show (m.store e).evict.size ≤ (m.store e).evict.capacity
    rw [← evict.ranked.length_toList, evict.toList, List.length_drop, size, evict.bounds.1]
    omega
  · show (m.store e).evict.toList = _
    rw [evict.toList, ← size, list, Lru.put, ← h.bounds.1]
    rfl

theorem Represents.empty (capacity : Nat) (ttl : Duration) :
    Represents capacity ttl (Memory.empty capacity ttl) [] where
  ranked := Ranked.empty capacity ttl
  bounds := ⟨rfl, rfl⟩
  fits := Nat.zero_le _
  toList := rfl

theorem Represents.forget (h : Represents capacity ttl m l) (key : Text) :
    Represents capacity ttl (m.forget key) (l.without key) where
  ranked := h.ranked.forget key
  bounds := h.bounds
  fits := Nat.le_trans (List.length_filter_le _ _) h.fits
  toList := by rw [h.ranked.toList_forget, h.toList]

theorem Represents.touch (h : Represents capacity ttl m l) (he : m.held? key = some e) :
    Represents capacity ttl (m.touch key) (l.without key ++ [e]) where
  ranked := h.ranked.touch he
  bounds := h.bounds
  fits := h.fits
  toList := by rw [h.ranked.toList_touch he, h.toList]

/-- A use does the same to the cache and to the list, and is answered alike. -/
theorem Represents.use (h : Represents capacity ttl m l) (u : Use) :
    Represents capacity ttl (m.use u).1 (l.use capacity ttl u).1 ∧
      (m.use u).2 = (l.use capacity ttl u).2 := by
  cases u with
  | put e => exact ⟨h.put e, rfl⟩
  | get key now =>
    have found := h.ranked.find?_toList key
    rw [h.toList] at found
    simp only [Memory.use, Lru.use, found, afterGet, get?, look, h.bounds.2]
    cases he : m.held? key with
    | none =>
      have hn : Keyed.get? key m.entries = none := he
      simp only [hn]
      exact ⟨h, trivial⟩
    | some e =>
      have hs : Keyed.get? key m.entries = some e := he
      simp only [hs]
      cases e.isStale ttl now with
      | true => exact ⟨h.forget key, rfl⟩
      | false => exact ⟨h.touch he, rfl⟩

theorem Represents.replay (h : Represents capacity ttl m l) (uses : List Use) :
    Represents capacity ttl (replay Memory.use m uses).1
        (Cache.replay (Lru.use capacity ttl) l uses).1 ∧
      (Cache.replay Memory.use m uses).2 = (Cache.replay (Lru.use capacity ttl) l uses).2 := by
  induction uses generalizing m l with
  | nil => exact ⟨h, rfl⟩
  | cons u us ih =>
    obtain ⟨next, answer⟩ := h.use u
    obtain ⟨rest, answers⟩ := ih next
    exact ⟨rest, congrArg₂ List.cons answer answers⟩

/-- A cache that holds under each key what was put last, or nothing. -/
structure Current (capacity : Nat) (ttl : Duration) (m : Memory) (past : List Use) : Prop where
  shown : ∃ l, Represents capacity ttl m l
  latest : ∀ key e, m.held? key = some e → lastPut? key past = some e

theorem Current.empty (capacity : Nat) (ttl : Duration) :
    Current capacity ttl (Memory.empty capacity ttl) [] where
  shown := ⟨[], Represents.empty capacity ttl⟩
  latest := by simp [held?_empty]

theorem Current.use {past : List Use} (h : Current capacity ttl m past) (u : Use) :
    Current capacity ttl (m.use u).1 (past ++ [u]) := by
  obtain ⟨l, shown⟩ := h.shown
  refine ⟨⟨_, (shown.use u).1⟩, fun key e he => ?_⟩
  rw [lastPut?_concat]
  cases u with
  | put new =>
    by_cases hk : new.key = key
    · subst hk
      have roomy : 0 < m.capacity := by
        rw [shown.bounds.1]
        omega
      have latest : some new = some e := (shown.ranked.held?_put roomy new).symm.trans he
      simpa [Use.puts?] using latest
    · rcases held?_of_put he with ⟨rfl, -⟩ | hm
      · exact absurd rfl hk
      · simpa [Use.puts?, hk] using h.latest key e hm
  | get used now => exact h.latest key e (held?_of_afterGet he)

theorem Current.replay {past : List Use} (h : Current capacity ttl m past) (uses : List Use) :
    Current capacity ttl (replay Memory.use m uses).1 (past ++ uses) := by
  induction uses generalizing m past with
  | nil => rwa [List.append_nil]
  | cons u us ih =>
    have rest := ih (h.use u)
    rwa [List.append_assoc] at rest

/-- The cache is the list of its entries in the order of use. Whatever the uses,
their answers are those of the list. The queue holds each key of the table once,
there are no more entries than the capacity allows, each is the one put last under
its key, and an entry that is put is not evicted for it. -/
theorem replay_refines_lru (capacity : Nat) (ttl : Duration) (uses : List Use) :
    let m := (replay Memory.use (Memory.empty capacity ttl) uses).1
    m.toList = (replay (Lru.use capacity ttl) [] uses).1 ∧
      (replay Memory.use (Memory.empty capacity ttl) uses).2 =
        (replay (Lru.use capacity ttl) [] uses).2 ∧
      (m.toList.map Entry.key).Nodup ∧
      m.recency.Nodup ∧ m.recency.Perm (Keyed.keys m.entries) ∧
      m.size ≤ max capacity 1 ∧
      (∀ key e, m.held? key = some e → lastPut? key uses = some e) ∧
      ∀ e, e.key ∉ (m.store e).evicted ∧ (m.put e).held? e.key = some e := by
  intro m
  obtain ⟨represents, answers⟩ := (Represents.empty capacity ttl).replay uses
  have ranked : m.Ranked := represents.ranked
  have bound : m.capacity = max capacity 1 := represents.bounds.1
  have roomy : 0 < m.capacity := by omega
  have distinct : (m.toList.map Entry.key).Nodup := ranked.keys_toList ▸ ranked.once
  have fits : m.size ≤ max capacity 1 := bound ▸ represents.fits
  have current : Current capacity ttl m uses := (Current.empty capacity ttl).replay uses
  exact ⟨represents.toList, answers, distinct, ranked.once, ranked.perm, fits, current.latest,
    fun e => ⟨ranked.not_mem_evicted roomy e, ranked.held?_put roomy e⟩⟩

end Memory

end UtilityLayer.Cache
