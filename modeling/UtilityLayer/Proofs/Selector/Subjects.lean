import UtilityLayer.Proofs.Selector.Names

/-!
# Where subject classes come from

The subject classes of a selector are class names of its tree, each listed once,
and there are none only if the tree has no class outside `:not()`. They are
grouped only if the subject has a group of several branches, or a group with
such a group in the subject of one of its branches.
-/

set_option autoImplicit false

namespace UtilityLayer.Selector

open Text

theorem nodup_addNew {out : List Text} (h : out.Nodup) (name : Text) :
    (addNew out name).Nodup := by
  rw [addNew]
  split
  · exact h
  · rename_i absent
    rw [List.contains_iff_mem] at absent
    exact List.nodup_append.mpr ⟨h, by simp, by
      rintro a ha b hb rfl
      exact absent (List.mem_singleton.mp hb ▸ ha)⟩

theorem nodup_foldl_addNew {out : List Text} (h : out.Nodup) (names : List Text) :
    (names.foldl addNew out).Nodup := by
  induction names generalizing out with
  | nil => exact h
  | cons name names ih => exact ih (nodup_addNew h name)

section Growth

variable {out : List Text}

theorem nodup_addSubjectsOfBranches (h : out.Nodup) (xs : List Complex) :
    (addSubjectsOfBranches out xs).classes.Nodup := by
  induction xs generalizing out with
  | nil => exact h
  | cons x xs ih =>
    rw [addSubjectsOfBranches]
    exact ih (nodup_foldl_addNew h _)

theorem Simple.nodup_addSubjects (h : out.Nodup) (s : Simple) :
    (s.addSubjects out).classes.Nodup := by
  cases s with
  | className name => exact nodup_addNew h name
  | functional name branches =>
    rw [addSubjects]
    split
    · exact nodup_addSubjectsOfBranches h branches
    · exact h
  | _ => exact h

theorem nodup_addSubjectsOfCompound (h : out.Nodup) (c : Compound) :
    (addSubjectsOfCompound out c).classes.Nodup := by
  induction c generalizing out with
  | nil => exact h
  | cons s c ih =>
    rw [addSubjectsOfCompound]
    exact ih (s.nodup_addSubjects h)

variable {n : Text}

theorem mem_addSubjectsOfBranches (h : n ∈ out) (xs : List Complex) :
    n ∈ (addSubjectsOfBranches out xs).classes := by
  induction xs generalizing out with
  | nil => exact h
  | cons x xs ih =>
    rw [addSubjectsOfBranches]
    exact ih (mem_foldl_addNew.mpr (.inl h))

theorem Simple.mem_addSubjects (h : n ∈ out) (s : Simple) : n ∈ (s.addSubjects out).classes := by
  cases s with
  | className name => exact mem_addNew.mpr (.inl h)
  | functional name branches =>
    rw [addSubjects]
    split
    · exact mem_addSubjectsOfBranches h branches
    · exact h
  | _ => exact h

theorem mem_addSubjectsOfCompound (h : n ∈ out) (c : Compound) :
    n ∈ (addSubjectsOfCompound out c).classes := by
  induction c generalizing out with
  | nil => exact h
  | cons s c ih =>
    rw [addSubjectsOfCompound]
    exact ih (s.mem_addSubjects h)

theorem className_mem_addSubjectsOfCompound {c : Compound} (h : .className n ∈ c) :
    n ∈ (addSubjectsOfCompound out c).classes := by
  induction c generalizing out with
  | nil => cases h
  | cons s c ih =>
    rw [addSubjectsOfCompound]
    rcases List.mem_cons.mp h with rfl | h
    · exact mem_addSubjectsOfCompound (mem_addNew.mpr (.inr rfl)) c
    · exact ih h

end Growth

/-- A `:where()` or `:is()` of several branches, or one around the subject of a
branch that has such a group. -/
inductive Simple.Gathers : Simple → Prop
  | several {name : Text} {branches : List Complex} (group : isMatchGroup name = true)
      (several : 2 ≤ branches.length) : Gathers (.functional name branches)
  | inside {name : Text} {branches : List Complex} {x : Complex} {s : Simple}
      (group : isMatchGroup name = true) (branch : x ∈ branches) (subject : s ∈ x.subject)
      (inner : s.Gathers) : Gathers (.functional name branches)

theorem Subjects.grouped_orElse {own : Subjects} {first : Option Text}
    (h : (own.orElse first).grouped = true) :
    own.classes ≠ [] ∧ own.grouped = true ∧ own.orElse first = own := by
  rw [orElse] at h ⊢
  split at h
  · cases h
  · rename_i some
    exact ⟨some, h, if_neg some⟩

mutual

theorem Simple.gathers_of_grouped {s : Simple} {out : List Text}
    (h : (s.addSubjects out).grouped = true) : s.Gathers := by
  match s with
  | .functional name branches =>
    rw [Simple.addSubjects] at h
    split at h
    · rename_i group
      rcases Bool.or_eq_true_iff.mp h with inner | own
      · obtain ⟨x, hx, s, hs, gathers⟩ := exists_gathers_of_branches inner
        exact .inside group hx hs gathers
      · exact .several group (of_decide_eq_true (Bool.and_eq_true_iff.mp own).1)
    · cases h
  | .className _ | .element _ | .ident _ | .universal | .parent | .pseudoClass _
  | .pseudoElement _ | .functionalText _ _ | .attribute _ _ => cases h

theorem exists_gathers_of_compound {c : List Simple} {out : List Text}
    (h : (addSubjectsOfCompound out c).grouped = true) : ∃ s ∈ c, s.Gathers := by
  match c with
  | [] => cases h
  | s :: ss =>
    rw [addSubjectsOfCompound] at h
    rcases Bool.or_eq_true_iff.mp h with first | later
    · exact ⟨s, List.mem_cons_self, Simple.gathers_of_grouped first⟩
    · obtain ⟨s', hs, gathers⟩ := exists_gathers_of_compound later
      exact ⟨s', List.mem_cons_of_mem s hs, gathers⟩

theorem Complex.exists_gathers {x : Complex} (h : x.ownSubjects.grouped = true) :
    ∃ s ∈ x.subject, s.Gathers := by
  match x with
  | .last c => exact exists_gathers_of_compound h
  | .link c k rest => exact Complex.exists_gathers (x := rest) h

theorem exists_gathers_of_branches {xs : List Complex} {out : List Text}
    (h : (addSubjectsOfBranches out xs).grouped = true) :
    ∃ x ∈ xs, ∃ s ∈ x.subject, s.Gathers := by
  match xs with
  | [] => cases h
  | x :: xs =>
    rw [addSubjectsOfBranches] at h
    rcases Bool.or_eq_true_iff.mp h with first | later
    · exact ⟨x, List.mem_cons_self, Complex.exists_gathers (Subjects.grouped_orElse first).2.1⟩
    · obtain ⟨y, hy, gathers⟩ := exists_gathers_of_branches later
      exact ⟨y, List.mem_cons_of_mem x hy, gathers⟩

end

namespace Complex

variable (x : Complex)

theorem nodup_subjects : x.subjects.classes.Nodup := by
  rw [subjects, Subjects.orElse]
  split
  · cases x.leadClass with
    | none => exact List.nodup_nil
    | some first => exact by simp
  · rw [ownSubjects_eq]
    exact nodup_addSubjectsOfCompound List.nodup_nil x.subject

theorem subjects_eq_nil_iff : x.subjects.classes = [] ↔ x.affirmed = [] := by
  constructor
  · intro none
    rw [subjects, Subjects.orElse] at none
    split at none
    · rw [← List.head?_eq_none_iff, ← leadClass_eq]
      exact Option.toList_eq_nil_iff.mp none
    · rename_i some
      exact absurd none some
  · intro none
    rw [List.eq_nil_iff_forall_not_mem]
    intro n hn
    have found := subjects_affirmed hn
    rw [none] at found
    cases found

theorem className_mem_subjects {n : Text} (h : .className n ∈ x.subject) :
    n ∈ x.subjects.classes := by
  have own : n ∈ x.ownSubjects.classes := by
    rw [ownSubjects_eq]
    exact className_mem_addSubjectsOfCompound h
  rw [subjects, Subjects.orElse, if_neg (List.ne_nil_of_mem own)]
  exact own

/-- The subject classes are distinct class names outside `:not()`, those of the
subject itself among them, and there are some if the tree has any. They are
grouped only if they come from a subject with a group of several branches. -/
theorem subjects_in_tree :
    x.subjects.classes.Nodup ∧ (∀ n ∈ x.subjects.classes, n ∈ x.affirmed) ∧
      (∀ n, .className n ∈ x.subject → n ∈ x.subjects.classes) ∧
      (x.subjects.classes = [] ↔ x.affirmed = []) ∧
      (x.subjects.grouped = true → x.subjects.classes ≠ [] ∧ ∃ s ∈ x.subject, s.Gathers) := by
  refine ⟨x.nodup_subjects, fun n => subjects_affirmed, fun n => x.className_mem_subjects,
    x.subjects_eq_nil_iff, ?_⟩
  intro grouped
  obtain ⟨some, own, same⟩ := Subjects.grouped_orElse grouped
  have classes : x.subjects.classes = x.ownSubjects.classes := congrArg Subjects.classes same
  rw [classes]
  exact ⟨some, exists_gathers own⟩

end Complex

end UtilityLayer.Selector
