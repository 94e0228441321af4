import UtilityLayer.Css.Statement

/-!
# Statement trees

A stylesheet read down to the bodies of the blocks that a caller opens. An
opened block whose body is no stylesheet is kept as broken, with the reason.
The leaves of a tree are its statements in document order without the opened
blocks around them.
-/

set_option autoImplicit false

namespace UtilityLayer.Css

inductive Node where
  | bare (text : Text)
  | block (head body : Text)
  | group (head : Text) (inner : List Node)
  | broken (head : Text) (error : SheetError)
  deriving Repr

def readTree (opens : Text → Bool) (t : Text) : Except SheetError (List Node) :=
  match _h : readSheet t with
  | .error e => .error e
  | .ok ss => .ok <| ss.attach.map fun
    | ⟨.bare text, _⟩ => .bare text
    | ⟨.block head body, _⟩ =>
      if opens head then
        match readTree opens body with
        | .error e => .broken head e
        | .ok inner => .group head inner
      else .block head body
termination_by t.length
decreasing_by exact readSheet_body_length ‹readSheet t = _› ‹_›

def nodeOf (opens : Text → Bool) : Statement → Node
  | .bare text => .bare text
  | .block head body =>
    if opens head then
      match readTree opens body with
      | .error e => .broken head e
      | .ok inner => .group head inner
    else .block head body

theorem readTree_eq (opens : Text → Bool) (t : Text) :
    readTree opens t = (readSheet t).map fun ss => ss.map (nodeOf opens) := by
  rw [readTree]
  split
  · rename_i e h
    simp [h, Except.map]
  · rename_i ss h
    simp only [h, Except.map, Except.ok.injEq]
    rw [← List.attach_map_subtype_val ss, List.map_map, List.attach_map_subtype_val]
    apply List.map_congr_left
    rintro ⟨s, hs⟩ -
    cases s <;> rfl

mutual

def Node.leaves : Node → List Node
  | .bare text => [.bare text]
  | .block head body => [.block head body]
  | .group _ inner => leavesOf inner
  | .broken head error => [.broken head error]

def leavesOf : List Node → List Node
  | [] => []
  | n :: ns => n.leaves ++ leavesOf ns

end

theorem leavesOf_append (a b : List Node) : leavesOf (a ++ b) = leavesOf a ++ leavesOf b := by
  induction a with
  | nil => rfl
  | cons n a ih => simp [leavesOf, ih]

def Node.error? : Node → Option SheetError
  | .broken _ e => some e
  | _ => none

/-- The reason of the first broken leaf. -/
def firstError (leaves : List Node) : Option SheetError := leaves.findSome? Node.error?

/-- The leaves before the first broken one. -/
def beforeError (leaves : List Node) : List Node := leaves.takeWhile fun n => n.error?.isNone

theorem beforeError_of_firstError_none {leaves : List Node} (h : firstError leaves = none) :
    beforeError leaves = leaves := by
  rw [firstError, List.findSome?_eq_none_iff] at h
  induction leaves with
  | nil => rfl
  | cons n ns ih =>
    rw [beforeError, List.takeWhile_cons, h n (by simp)]
    exact congrArg (n :: ·) (ih fun m hm => h m (by simp [hm]))

end UtilityLayer.Css
