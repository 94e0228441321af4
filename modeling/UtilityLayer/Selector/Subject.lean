import UtilityLayer.Selector.Basic

/-!
# The classes a selector styles

The subject classes are those of the rightmost compound, looking through
`:where()` and `:is()`. They are grouped when a group of several branches
brought one of them in. A selector whose subject names no class is filed under
the first class found anywhere in it outside `:not()`.
-/

set_option autoImplicit false

namespace UtilityLayer.Selector

def isMatchGroup (name : Text) : Bool := name == "where".toList || name == "is".toList

mutual

def Simple.leadClass : Simple → Option Text
  | .className name => some name
  | .functional name branches =>
    if name = "not".toList then none else leadClassOfBranches branches
  | _ => none

def leadClassOfCompound : List Simple → Option Text
  | [] => none
  | s :: ss => s.leadClass.or (leadClassOfCompound ss)

def Complex.leadClass : Complex → Option Text
  | .last c => leadClassOfCompound c
  | .link c _ rest => (leadClassOfCompound c).or rest.leadClass

def leadClassOfBranches : List Complex → Option Text
  | [] => none
  | x :: xs => x.leadClass.or (leadClassOfBranches xs)

end

def addNew (out : List Text) (name : Text) : List Text :=
  if out.contains name then out else out ++ [name]

structure Subjects where
  classes : List Text
  grouped : Bool
  deriving DecidableEq, Repr

/-- The subject's own classes, or else the first class of the whole selector. -/
def Subjects.orElse (own : Subjects) (first : Option Text) : Subjects :=
  if own.classes = [] then ⟨first.toList, false⟩ else own

mutual

def Simple.addSubjects (out : List Text) : Simple → Subjects
  | .className name => ⟨addNew out name, false⟩
  | .functional name branches =>
    if isMatchGroup name then
      let r := addSubjectsOfBranches out branches
      ⟨r.classes, r.grouped || (1 < branches.length && out.length < r.classes.length)⟩
    else ⟨out, false⟩
  | _ => ⟨out, false⟩

def addSubjectsOfCompound (out : List Text) : List Simple → Subjects
  | [] => ⟨out, false⟩
  | s :: ss =>
    let a := s.addSubjects out
    let b := addSubjectsOfCompound a.classes ss
    ⟨b.classes, a.grouped || b.grouped⟩

def Complex.ownSubjects : Complex → Subjects
  | .last c => addSubjectsOfCompound [] c
  | .link _ _ rest => rest.ownSubjects

def addSubjectsOfBranches (out : List Text) : List Complex → Subjects
  | [] => ⟨out, false⟩
  | x :: xs =>
    let a := x.ownSubjects.orElse x.leadClass
    let b := addSubjectsOfBranches (a.classes.foldl addNew out) xs
    ⟨b.classes, a.grouped || b.grouped⟩

end

def Complex.subjects (x : Complex) : Subjects := x.ownSubjects.orElse x.leadClass

theorem Complex.ownSubjects_eq (x : Complex) :
    x.ownSubjects = addSubjectsOfCompound [] x.subject := by
  match x with
  | .last c => simp [ownSubjects, subject]
  | .link c k rest => simp [ownSubjects, subject, ownSubjects_eq rest]

end UtilityLayer.Selector
