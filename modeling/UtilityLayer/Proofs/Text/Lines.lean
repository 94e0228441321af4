import UtilityLayer.Proofs.Text.Join
import UtilityLayer.Text.Blank

/-!
# Lines

A text is one line when no character of it ends a line. What is put together
from such texts is such a text, and so is every text with normalized blanks.
-/

set_option autoImplicit false

namespace UtilityLayer.Text

def isBreak (c : Char) : Bool := c == '\n' || c == '\r'

def OneLine (t : Text) : Prop := ∀ c ∈ t, isBreak c = false

instance (t : Text) : Decidable (OneLine t) := List.decidableBAll (fun c => isBreak c = false) t

def lineCount (t : Text) : Nat := (pieces (· == '\n') t).length

variable {s t : Text}

theorem oneLine_of {p : Char → Bool} (none : p '\n' = false ∧ p '\r' = false)
    (h : ∀ c ∈ t, p c = true) : OneLine t := by
  intro c hc
  rw [Bool.eq_false_iff]
  intro ends
  have held := h c hc
  simp only [isBreak, Bool.or_eq_true, beq_iff_eq] at ends
  rcases ends with rfl | rfl
  · rw [none.1] at held
    cases held
  · rw [none.2] at held
    cases held

theorem OneLine.of_subset (h : OneLine t) (sub : ∀ c ∈ s, c ∈ t) : OneLine s :=
  fun c hc => h c (sub c hc)

theorem oneLine_append : OneLine (s ++ t) ↔ OneLine s ∧ OneLine t := List.forall_mem_append

theorem oneLine_cons {c : Char} : OneLine (c :: t) ↔ isBreak c = false ∧ OneLine t :=
  List.forall_mem_cons

theorem oneLine_flatMap {f : Char → Text} (h : OneLine t)
    (each : ∀ c, isBreak c = false → OneLine (f c)) : OneLine (t.flatMap f) := by
  intro d hd
  obtain ⟨c, hc, hd⟩ := List.mem_flatMap.mp hd
  exact each c (h c hc) d hd

theorem oneLine_fill {mark : Char} (hs : OneLine s) (ht : OneLine t) : OneLine (fill mark s t) := by
  apply oneLine_flatMap ht
  intro c hc
  split
  · exact hs
  · exact oneLine_cons.mpr ⟨hc, List.forall_mem_nil _⟩

theorem isBlank_of_mem_pieces {w : Text} (h : w ∈ pieces isBlank t) {c : Char} (hc : c ∈ w) :
    isBlank c = false := by
  induction t generalizing w with
  | nil =>
    obtain rfl := List.mem_singleton.mp h
    cases hc
  | cons d t ih =>
    rw [pieces] at h
    split at h
    · rcases List.mem_cons.mp h with rfl | h
      · cases hc
      · exact ih h hc
    · rename_i blank
      obtain ⟨p, ps, hp⟩ := List.exists_cons_of_ne_nil (pieces_ne_nil isBlank t)
      rw [hp] at h ih
      rcases List.mem_cons.mp h with rfl | h
      · rcases List.mem_cons.mp hc with rfl | hc
        · exact Bool.eq_false_iff.mpr blank
        · exact ih List.mem_cons_self hc
      · exact ih (List.mem_cons_of_mem p h) hc

theorem oneLine_normalize (t : Text) : OneLine (normalize t) := by
  have word {w : Text} (hw : w ∈ words t) : OneLine w := by
    refine oneLine_of (p := fun c => !isBlank c) (by decide) fun c hc => ?_
    rw [isBlank_of_mem_pieces (List.mem_filter.mp hw).1 hc]
    rfl
  rw [normalize]
  rcases List.eq_nil_or_concat (words t) with none | ⟨ws, last, hw⟩
  · rw [none]
    exact List.forall_mem_nil _
  · rw [hw] at word ⊢
    rw [List.concat_eq_append, join_concat, oneLine_append]
    refine ⟨?_, word (by simp)⟩
    intro c hc
    obtain ⟨w, hw', hc⟩ := List.mem_flatMap.mp hc
    rcases List.mem_append.mp hc with hc | hc
    · exact word (by simp [hw']) c hc
    · obtain rfl := List.mem_singleton.mp hc
      rfl

theorem lineCount_eq (t : Text) : lineCount t = t.count '\n' + 1 := by
  rw [lineCount]
  induction t with
  | nil => rfl
  | cons c t ih =>
    rw [pieces, List.count_cons]
    split
    · rw [List.length_cons, ih]
    · obtain ⟨p, ps, hp⟩ := List.exists_cons_of_ne_nil (pieces_ne_nil (· == '\n') t)
      rw [hp] at ih ⊢
      exact ih

theorem OneLine.count (h : OneLine t) : t.count '\n' = 0 := by
  rw [List.count_eq_zero]
  intro hm
  cases h _ hm

end UtilityLayer.Text
