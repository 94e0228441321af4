import UtilityLayer.Text.Basic

/-!
# Occurrences of a text

An occurrence does not reach over a character that the text sought does not
have.
-/

set_option autoImplicit false

namespace UtilityLayer.Text

variable {needle a b t : Text}

theorem ne_append_of_startsWith {lead : Text} (h : startsWith lead t = false) (rest : Text) :
    t ≠ lead ++ rest := by
  rintro rfl
  rw [startsWith, after?_append] at h
  cases h

theorem startsWith_append (apart : ∀ c ∈ b.head?, c ∉ needle) (a : Text) :
    startsWith needle (a ++ b) = startsWith needle a := by
  simp only [startsWith]
  induction needle generalizing a with
  | nil => rfl
  | cons n ns ih =>
    cases a with
    | nil =>
      cases b with
      | nil => rfl
      | cons c b =>
        have foreign := apart c rfl
        have ne : n ≠ c := fun h => foreign (h ▸ List.mem_cons_self)
        rw [List.nil_append, after?, after?, if_neg ne]
    | cons d a =>
      rw [List.cons_append, after?, after?]
      split
      · exact ih (fun c hc hn => apart c hc (List.mem_cons_of_mem n hn)) a
      · rfl

theorem holds_append (apart : ∀ c ∈ b.head?, c ∉ needle) (a : Text) :
    holds needle (a ++ b) = (holds needle a || holds needle b) := by
  induction a with
  | nil =>
    cases needle with
    | nil => cases b <;> rfl
    | cons n ns => rfl
  | cons c a ih =>
    rw [List.cons_append, holds, holds, ← List.cons_append, startsWith_append apart, ih,
      Bool.or_assoc]

theorem holds_of_not_mem {c : Char} (mem : c ∈ needle) (missing : c ∉ t) :
    holds needle t = false := by
  induction t with
  | nil =>
    cases needle with
    | nil => cases mem
    | cons n ns => rfl
  | cons d t ih =>
    rw [holds, ih (fun h => missing (List.mem_cons_of_mem d h)), Bool.or_false, startsWith,
      Option.isSome_eq_false_iff, Option.isNone_iff_eq_none]
    cases h : after? needle (d :: t) with
    | none => rfl
    | some rest =>
      rw [after?_eq_some_iff.mp h, List.mem_append, not_or] at missing
      exact absurd mem missing.1

end UtilityLayer.Text
