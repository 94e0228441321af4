import UtilityLayer.Text.Basic

/-!
# Ordered tables

A table is a list of keys with their values in the order in which the keys
were first set. Setting a key again replaces its value in place.
-/

set_option autoImplicit false

namespace UtilityLayer.Keyed

variable {β : Type}

def get? (key : Text) : List (Text × β) → Option β
  | [] => none
  | (k, v) :: es => if k = key then some v else get? key es

def set (key : Text) (value : β) : List (Text × β) → List (Text × β)
  | [] => [(key, value)]
  | (k, v) :: es => if k = key then (key, value) :: es else (k, v) :: set key value es

def erase (key : Text) (es : List (Text × β)) : List (Text × β) :=
  es.filter fun e => e.1 ≠ key

def keys (es : List (Text × β)) : List Text := es.map Prod.fst

theorem get?_set_self (key : Text) (value : β) (es : List (Text × β)) :
    get? key (set key value es) = some value := by
  induction es with
  | nil => simp [set, get?]
  | cons e es ih => by_cases h : e.1 = key <;> simp [set, get?, h, ih]

theorem get?_set_of_ne {key other : Text} (h : other ≠ key) (value : β)
    (es : List (Text × β)) : get? other (set key value es) = get? other es := by
  induction es with
  | nil => simp [set, get?, Ne.symm h]
  | cons e es ih =>
    by_cases hk : e.1 = key
    · simp [set, get?, hk, Ne.symm h]
    · simp [set, get?, hk, ih]

theorem mem_keys_iff {key : Text} {es : List (Text × β)} :
    key ∈ keys es ↔ (get? key es).isSome = true := by
  induction es with
  | nil => simp [keys, get?]
  | cons e es ih =>
    by_cases h : e.1 = key
    · simp [keys, get?, h]
    · simpa [keys, get?, h, Ne.symm h] using ih

theorem keys_set (key : Text) (value : β) (es : List (Text × β)) :
    keys (set key value es) = if key ∈ keys es then keys es else keys es ++ [key] := by
  induction es with
  | nil => simp [set, keys]
  | cons e es ih =>
    by_cases h : e.1 = key
    · simp [set, keys, h]
    · simp only [keys] at ih
      by_cases hm : key ∈ es.map Prod.fst <;>
        simp only [set, h, if_false, keys, List.map_cons, ih, List.mem_cons, Ne.symm h, false_or,
          hm, if_true, List.cons_append]

theorem nodup_keys_set {key : Text} {value : β} {es : List (Text × β)}
    (h : (keys es).Nodup) : (keys (set key value es)).Nodup := by
  rw [keys_set]
  split
  · exact h
  · rename_i hk
    refine List.nodup_append.2 ⟨h, by simp, ?_⟩
    intro a ha b hb
    simp only [List.mem_singleton] at hb
    exact fun he => hk (hb ▸ he ▸ ha)

theorem keys_erase (key : Text) (es : List (Text × β)) :
    keys (erase key es) = (keys es).filter (· ≠ key) := by
  rw [keys, keys, erase, List.filter_map]
  rfl

theorem nodup_keys_erase {key : Text} {es : List (Text × β)} (h : (keys es).Nodup) :
    (keys (erase key es)).Nodup :=
  h.sublist ((List.filter_sublist (l := es)).map Prod.fst)

theorem get?_erase_self (key : Text) (es : List (Text × β)) : get? key (erase key es) = none := by
  induction es with
  | nil => rfl
  | cons e es ih => by_cases h : e.1 = key <;> simp_all [erase, get?]

theorem get?_erase_of_ne {key other : Text} (h : other ≠ key) (es : List (Text × β)) :
    get? other (erase key es) = get? other es := by
  induction es with
  | nil => rfl
  | cons e es ih =>
    by_cases hk : e.1 = key
    · have : e.1 ≠ other := fun he => h (he.symm.trans hk)
      simp_all [erase, get?]
    · simp_all [erase, get?]

theorem get?_of_erase {dropped key : Text} {es : List (Text × β)} {value : β}
    (h : get? key (erase dropped es) = some value) : get? key es = some value := by
  by_cases hk : key = dropped
  · subst hk
    rw [get?_erase_self] at h
    cases h
  · rwa [get?_erase_of_ne hk] at h

end UtilityLayer.Keyed
