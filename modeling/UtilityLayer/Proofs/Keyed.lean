import UtilityLayer.Keyed

/-!
# Lookup in ordered tables

What a lookup finds is an entry of the table, and an entry is found when keys
are not repeated. Of the values that are set in turn the last one is found.
-/

set_option autoImplicit false

namespace UtilityLayer.Keyed

variable {β : Type}

theorem mem_of_get? {key : Text} {value : β} {es : List (Text × β)}
    (h : get? key es = some value) : (key, value) ∈ es := by
  induction es with
  | nil => cases h
  | cons e es ih =>
    rw [get?] at h
    split at h
    · rename_i hk
      obtain rfl := Option.some.inj h
      rw [← hk]
      exact List.mem_cons_self
    · exact List.mem_cons_of_mem _ (ih h)

theorem get?_eq_none_iff {key : Text} {es : List (Text × β)} : get? key es = none ↔ key ∉ keys es := by
  rw [mem_keys_iff, Option.not_isSome_iff_eq_none]

theorem get?_of_mem {key : Text} {value : β} {es : List (Text × β)} (distinct : (keys es).Nodup)
    (h : (key, value) ∈ es) : get? key es = some value := by
  induction es with
  | nil => cases h
  | cons e es ih =>
    simp only [keys, List.map_cons, List.nodup_cons] at distinct
    rcases List.mem_cons.mp h with rfl | h
    · exact if_pos rfl
    · have other : e.1 ≠ key := by
        intro same
        exact distinct.1 (same ▸ List.mem_map_of_mem h)
      rw [get?, if_neg other]
      exact ih distinct.2 h

theorem find?_eq_map_get? (key : Text) (es : List (Text × β)) :
    es.find? (fun e => e.1 = key) = (get? key es).map fun value => (key, value) := by
  induction es with
  | nil => rfl
  | cons e es ih =>
    by_cases h : e.1 = key
    · subst h
      simp [get?]
    · simp [get?, h, ih]

theorem mem_set {key : Text} {value : β} {es : List (Text × β)} {e : Text × β}
    (h : e ∈ set key value es) : e = (key, value) ∨ e ∈ es := by
  induction es with
  | nil => exact .inl (List.mem_singleton.mp h)
  | cons d es ih =>
    rw [set] at h
    split at h
    · rcases List.mem_cons.mp h with h | h
      · exact .inl h
      · exact .inr (List.mem_cons_of_mem _ h)
    · rcases List.mem_cons.mp h with h | h
      · exact .inr (by rw [h]; exact List.mem_cons_self)
      · exact (ih h).imp id (List.mem_cons_of_mem _)

theorem get?_foldl_set {gs : List (Text × β)} (distinct : (keys gs).Nodup) (key : Text)
    (es : List (Text × β)) :
    get? key (gs.foldl (fun es g => set g.1 g.2 es) es) = (get? key gs).or (get? key es) := by
  induction gs generalizing es with
  | nil => rfl
  | cons g gs ih =>
    simp only [keys, List.map_cons, List.nodup_cons] at distinct
    rw [List.foldl_cons, ih distinct.2]
    by_cases h : g.1 = key
    · subst h
      rw [get?_eq_none_iff.mpr distinct.1, get?_set_self]
      simp [get?]
    · rw [get?_set_of_ne (Ne.symm h)]
      simp [get?, h]

end UtilityLayer.Keyed
