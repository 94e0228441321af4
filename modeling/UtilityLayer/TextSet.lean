import UtilityLayer.Text.Basic

/-!
# Sets of texts

A set of texts is the list of its members in code point order, each once. Two
sets with the same members are the same list.
-/

set_option autoImplicit false

namespace UtilityLayer

structure TextSet where
  toList : List Text
  sorted : toList.Pairwise (· < ·)
  deriving DecidableEq

namespace TextSet

instance : Membership Text TextSet := ⟨fun s t => t ∈ s.toList⟩

instance (t : Text) (s : TextSet) : Decidable (t ∈ s) := inferInstanceAs (Decidable (t ∈ s.toList))

def empty : TextSet := ⟨[], .nil⟩

def insertSorted (t : Text) : List Text → List Text
  | [] => [t]
  | u :: us => if t < u then t :: u :: us else if t = u then u :: us else u :: insertSorted t us

theorem mem_insertSorted {t u : Text} {us : List Text} :
    u ∈ insertSorted t us ↔ u = t ∨ u ∈ us := by
  induction us with
  | nil => simp [insertSorted]
  | cons v us ih =>
    rw [insertSorted]
    split
    · simp
    · split
      · rename_i h
        simp [h]
      · simp [ih]
        grind

theorem insertSorted_sorted (t : Text) {us : List Text} (h : us.Pairwise (· < ·)) :
    (insertSorted t us).Pairwise (· < ·) := by
  induction us with
  | nil => simp [insertSorted]
  | cons v us ih =>
    obtain ⟨hv, hus⟩ := List.pairwise_cons.1 h
    rw [insertSorted]
    split
    · rename_i ht
      refine List.pairwise_cons.2 ⟨fun u hu => ?_, h⟩
      rcases List.mem_cons.1 hu with rfl | hu
      · exact ht
      · exact List.lt_trans ht (hv u hu)
    · split
      · exact h
      · rename_i hlt hne
        refine List.pairwise_cons.2 ⟨fun u hu => ?_, ih hus⟩
        rcases mem_insertSorted.1 hu with rfl | hu
        · exact (List.le_iff_lt_or_eq.1 (List.not_lt.1 hlt)).resolve_right (Ne.symm hne)
        · exact hv u hu

def insert (s : TextSet) (t : Text) : TextSet :=
  ⟨insertSorted t s.toList, insertSorted_sorted t s.sorted⟩

theorem mem_insert {s : TextSet} {t u : Text} : u ∈ s.insert t ↔ u = t ∨ u ∈ s :=
  mem_insertSorted

def ofList (ts : List Text) : TextSet := ts.foldl insert empty

def union (s t : TextSet) : TextSet := t.toList.foldl insert s

def size (s : TextSet) : Nat := s.toList.length

def contains (s : TextSet) (t : Text) : Bool := s.toList.contains t

def joined (s : TextSet) : Text := Text.join [','] s.toList

theorem mem_foldl_insert {ts : List Text} {s : TextSet} {u : Text} :
    u ∈ ts.foldl insert s ↔ u ∈ s ∨ u ∈ ts := by
  induction ts generalizing s with
  | nil => simp
  | cons t ts ih =>
    rw [List.foldl_cons, ih, mem_insert, List.mem_cons]
    grind

theorem mem_ofList {ts : List Text} {u : Text} : u ∈ ofList ts ↔ u ∈ ts := by
  rw [ofList, mem_foldl_insert]
  exact ⟨fun h => h.elim (fun h => absurd h List.not_mem_nil) id, .inr⟩

theorem mem_union {s t : TextSet} {u : Text} : u ∈ s.union t ↔ u ∈ s ∨ u ∈ t :=
  mem_foldl_insert

end TextSet

end UtilityLayer
