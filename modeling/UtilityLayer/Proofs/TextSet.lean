import Mathlib.Data.List.Sort
import UtilityLayer.TextSet

/-!
# Sets and their joined lists

The joined list of a set does not tell all sets apart, since a member may hold
a comma. It tells a set from every larger one, but for the set of the empty
text alone, which is joined like the set without members.
-/

set_option autoImplicit false

namespace UtilityLayer.TextSet

theorem mem_iff {s : TextSet} {u : Text} : u ∈ s ↔ u ∈ s.toList := Iff.rfl

instance : LE TextSet := ⟨fun s t => ∀ u ∈ s, u ∈ t⟩

theorem le_trans {s t u : TextSet} (h : s ≤ t) (k : t ≤ u) : s ≤ u := fun x hx => k x (h x hx)

theorem le_union_left (s t : TextSet) : s ≤ s.union t := fun _ hu => mem_union.mpr (.inl hu)

theorem union_le_union (s : TextSet) {t u : TextSet} (h : t ≤ u) : s.union t ≤ s.union u := by
  intro x hx
  rcases mem_union.mp hx with hs | ht
  · exact mem_union.mpr (.inl hs)
  · exact mem_union.mpr (.inr (h x ht))

theorem sublist_of_le {s t : TextSet} (h : s ≤ t) : s.toList.Sublist t.toList := by
  exact List.sublist_of_subperm_of_pairwise (List.subperm_of_subset s.sorted.nodup h)
    s.sorted t.sorted

theorem eq_of_mem_iff {s t : TextSet} (h : ∀ u, u ∈ s ↔ u ∈ t) : s = t := by
  have lists : s.toList = t.toList :=
    (sublist_of_le fun u hu => (h u).mp hu).antisymm (sublist_of_le fun u hu => (h u).mpr hu)
  cases s
  cases t
  cases lists
  rfl

def weight : List Text → Nat
  | [] => 0
  | t :: ts => t.length + 1 + weight ts

theorem length_join (t : Text) (ts : List Text) :
    (Text.join [','] (t :: ts)).length + 1 = weight (t :: ts) := by
  induction ts generalizing t with
  | nil => simp [Text.join, weight, List.intercalate]
  | cons u ts ih =>
    have hu := ih u
    simp only [Text.join, weight, List.intercalate, List.intersperse, List.flatten_cons,
      List.length_append, List.length_singleton] at hu ⊢
    omega

theorem weight_le_of_sublist {ts us : List Text} (h : ts.Sublist us) : weight ts ≤ weight us := by
  induction h with
  | slnil => exact Nat.le_refl _
  | cons u h ih =>
    simp only [weight] at ih ⊢
    omega
  | cons_cons u h ih =>
    simp only [weight] at ih ⊢
    omega

theorem eq_of_weight_eq {ts us : List Text} (h : ts.Sublist us) (hw : weight ts = weight us) :
    ts = us := by
  induction h with
  | slnil => rfl
  | cons u h ih =>
    have hle := weight_le_of_sublist h
    simp only [weight] at hw hle
    omega
  | cons_cons u h ih =>
    simp only [weight] at hw ih
    rw [ih (by omega)]

/-- A set and a larger one with the same joined list are equal, or empty but for
the empty text. -/
theorem eq_of_joined {s t : TextSet} (h : s ≤ t) (hj : s.joined = t.joined) :
    s = t ∨ (s.toList = [] ∧ t.toList = [[]]) := by
  have hs := sublist_of_le h
  rw [joined, joined] at hj
  cases hsl : s.toList with
  | nil =>
    cases htl : t.toList with
    | nil =>
      left
      cases s
      cases t
      simp_all
    | cons u us =>
      right
      have hw := length_join u us
      rw [hsl, htl] at hj
      rw [← hj] at hw
      simp only [Text.join, List.intercalate, List.intersperse, List.flatten_nil, List.length_nil,
        weight] at hw
      cases us with
      | nil =>
        have hu : u.length = 0 := by
          simp only [weight] at hw
          omega
        rw [List.length_eq_zero_iff.mp hu]
        exact ⟨rfl, rfl⟩
      | cons v us =>
        simp only [weight] at hw
        omega
  | cons u us =>
    left
    cases htl : t.toList with
    | nil =>
      rw [hsl, htl] at hs
      exact absurd hs.length_le (by simp)
    | cons v vs =>
      have hu := length_join u us
      have hv := length_join v vs
      rw [hsl, htl] at hj hs
      rw [hj] at hu
      have hl := eq_of_weight_eq hs (hu.symm.trans hv)
      cases s
      cases t
      simp_all

end UtilityLayer.TextSet
