import UtilityLayer.Selector.Reader
import UtilityLayer.Selector.Subject

/-!
# The class names in a selector

Every class that a selector styles is one that it names outside `:not()`, and
the class that stands in for a subject without one is the first of these.
-/

set_option autoImplicit false

namespace UtilityLayer.Selector

open Text Css

mutual

def Simple.names : Simple → List Text
  | .className name => [name]
  | .functional _ branches => namesOfBranches branches
  | _ => []

def namesOfCompound : List Simple → List Text
  | [] => []
  | s :: ss => s.names ++ namesOfCompound ss

def Complex.names : Complex → List Text
  | .last c => namesOfCompound c
  | .link c _ rest => namesOfCompound c ++ rest.names

def namesOfBranches : List Complex → List Text
  | [] => []
  | x :: xs => x.names ++ namesOfBranches xs

end

theorem mem_addNew {out : List Text} {name n : Text} :
    n ∈ addNew out name ↔ n ∈ out ∨ n = name := by
  rw [addNew]
  split
  · rename_i h
    rw [List.contains_iff_mem] at h
    constructor
    · exact .inl
    · rintro (hn | rfl)
      · exact hn
      · exact h
  · simp

theorem mem_foldl_addNew {names out : List Text} {n : Text} :
    n ∈ names.foldl addNew out ↔ n ∈ out ∨ n ∈ names := by
  induction names generalizing out with
  | nil => simp
  | cons name names ih => rw [List.foldl_cons, ih, mem_addNew, List.mem_cons, or_assoc]

theorem Subjects.mem_orElse {own : Subjects} {first : Option Text} {n : Text}
    (h : n ∈ (own.orElse first).classes) : n ∈ own.classes ∨ first = some n := by
  rw [orElse] at h
  split at h
  · exact .inr (Option.mem_toList.mp h)
  · exact .inl h

mutual

/-- The class names of a selector outside `:not()`. -/
def Simple.affirmed : Simple → List Text
  | .className name => [name]
  | .functional name branches =>
    if name = "not".toList then [] else affirmedOfBranches branches
  | _ => []

def affirmedOfCompound : List Simple → List Text
  | [] => []
  | s :: ss => s.affirmed ++ affirmedOfCompound ss

def Complex.affirmed : Complex → List Text
  | .last c => affirmedOfCompound c
  | .link c _ rest => affirmedOfCompound c ++ rest.affirmed

def affirmedOfBranches : List Complex → List Text
  | [] => []
  | x :: xs => x.affirmed ++ affirmedOfBranches xs

end

mutual

theorem Simple.mem_names {s : Simple} {n : Text} (h : n ∈ s.affirmed) : n ∈ s.names := by
  match s with
  | .className name => exact h
  | .functional name branches =>
    rw [Simple.affirmed] at h
    split at h
    · cases h
    · exact mem_namesOfBranches h
  | .element _ | .ident _ | .universal | .parent | .pseudoClass _ | .pseudoElement _
  | .functionalText _ _ | .attribute _ _ => cases h

theorem mem_namesOfCompound {c : List Simple} {n : Text} (h : n ∈ affirmedOfCompound c) :
    n ∈ namesOfCompound c := by
  match c with
  | [] => cases h
  | s :: ss =>
    exact List.mem_append.mpr
      ((List.mem_append.mp h).imp Simple.mem_names mem_namesOfCompound)

theorem Complex.mem_names {x : Complex} {n : Text} (h : n ∈ x.affirmed) : n ∈ x.names := by
  match x with
  | .last c => exact mem_namesOfCompound h
  | .link c k rest =>
    exact List.mem_append.mpr ((List.mem_append.mp h).imp mem_namesOfCompound Complex.mem_names)

theorem mem_namesOfBranches {xs : List Complex} {n : Text} (h : n ∈ affirmedOfBranches xs) :
    n ∈ namesOfBranches xs := by
  match xs with
  | [] => cases h
  | x :: xs =>
    exact List.mem_append.mpr ((List.mem_append.mp h).imp Complex.mem_names mem_namesOfBranches)

end

mutual

theorem Simple.leadClass_eq (s : Simple) : s.leadClass = s.affirmed.head? := by
  match s with
  | .className name => rfl
  | .functional name branches =>
    rw [Simple.leadClass, Simple.affirmed]
    split
    · rfl
    · exact leadClassOfBranches_eq branches
  | .element _ | .ident _ | .universal | .parent | .pseudoClass _ | .pseudoElement _
  | .functionalText _ _ | .attribute _ _ => rfl

theorem leadClassOfCompound_eq (c : List Simple) :
    leadClassOfCompound c = (affirmedOfCompound c).head? := by
  match c with
  | [] => rfl
  | s :: ss =>
    rw [leadClassOfCompound, affirmedOfCompound, List.head?_append, Simple.leadClass_eq s,
      leadClassOfCompound_eq ss]

theorem Complex.leadClass_eq (x : Complex) : x.leadClass = x.affirmed.head? := by
  match x with
  | .last c => exact leadClassOfCompound_eq c
  | .link c k rest =>
    rw [Complex.leadClass, Complex.affirmed, List.head?_append, leadClassOfCompound_eq c,
      Complex.leadClass_eq rest]

theorem leadClassOfBranches_eq (xs : List Complex) :
    leadClassOfBranches xs = (affirmedOfBranches xs).head? := by
  match xs with
  | [] => rfl
  | x :: xs =>
    rw [leadClassOfBranches, affirmedOfBranches, List.head?_append, Complex.leadClass_eq x,
      leadClassOfBranches_eq xs]

end

theorem ne_not_of_isMatchGroup {name : Text} (h : isMatchGroup name = true) :
    name ≠ "not".toList := by
  rintro rfl
  exact absurd h (by decide)

theorem affirmed_matchGroup {name : Text} (h : isMatchGroup name = true)
    (branches : List Complex) :
    (Simple.functional name branches).affirmed = affirmedOfBranches branches := by
  rw [Simple.affirmed, if_neg (ne_not_of_isMatchGroup h)]

mutual

theorem Simple.addSubjects_subset {s : Simple} {out : List Text} {n : Text}
    (h : n ∈ (s.addSubjects out).classes) : n ∈ out ∨ n ∈ s.affirmed := by
  match s with
  | .className name =>
    rcases mem_addNew.mp h with h | rfl
    · exact .inl h
    · exact .inr (List.mem_singleton.mpr rfl)
  | .functional name branches =>
    rw [Simple.addSubjects] at h
    split at h
    · rename_i group
      rw [affirmed_matchGroup group]
      exact addSubjectsOfBranches_subset h
    · exact .inl h
  | .element _ | .ident _ | .universal | .parent | .pseudoClass _ | .pseudoElement _
  | .functionalText _ _ | .attribute _ _ => exact .inl h

theorem addSubjectsOfCompound_subset {c : List Simple} {out : List Text} {n : Text}
    (h : n ∈ (addSubjectsOfCompound out c).classes) : n ∈ out ∨ n ∈ affirmedOfCompound c := by
  match c with
  | [] => exact .inl h
  | s :: ss =>
    rw [addSubjectsOfCompound] at h
    rw [affirmedOfCompound, List.mem_append]
    rcases addSubjectsOfCompound_subset h with h | h
    · rcases Simple.addSubjects_subset h with h | h
      · exact .inl h
      · exact .inr (.inl h)
    · exact .inr (.inr h)

theorem Complex.ownSubjects_subset {x : Complex} {n : Text} (h : n ∈ x.ownSubjects.classes) :
    n ∈ x.affirmed := by
  match x with
  | .last c =>
    rcases addSubjectsOfCompound_subset h with h | h
    · cases h
    · exact h
  | .link c k rest =>
    rw [Complex.ownSubjects] at h
    rw [Complex.affirmed, List.mem_append]
    exact .inr (Complex.ownSubjects_subset h)

theorem addSubjectsOfBranches_subset {xs : List Complex} {out : List Text} {n : Text}
    (h : n ∈ (addSubjectsOfBranches out xs).classes) : n ∈ out ∨ n ∈ affirmedOfBranches xs := by
  match xs with
  | [] => exact .inl h
  | x :: xs =>
    rw [addSubjectsOfBranches] at h
    rw [affirmedOfBranches, List.mem_append]
    rcases addSubjectsOfBranches_subset h with h | h
    · rcases mem_foldl_addNew.mp h with h | h
      · exact .inl h
      · rcases Subjects.mem_orElse h with h | h
        · exact .inr (.inl (Complex.ownSubjects_subset h))
        · rw [Complex.leadClass_eq] at h
          exact .inr (.inl (List.mem_of_mem_head? h))
    · exact .inr (.inr h)

end

theorem Complex.subjects_affirmed {x : Complex} {n : Text} (h : n ∈ x.subjects.classes) :
    n ∈ x.affirmed := by
  rcases Subjects.mem_orElse h with h | h
  · exact ownSubjects_subset h
  · rw [leadClass_eq] at h
    exact List.mem_of_mem_head? h

theorem Complex.subjects_subset {x : Complex} {n : Text} (h : n ∈ x.subjects.classes) :
    n ∈ x.names := mem_names (subjects_affirmed h)

end UtilityLayer.Selector
