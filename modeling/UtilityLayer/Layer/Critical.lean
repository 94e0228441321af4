import UtilityLayer.TextSet
import UtilityLayer.Css.Scan
import UtilityLayer.Css.Split
import UtilityLayer.Css.Tree
import UtilityLayer.Selector.Mention
import UtilityLayer.Selector.Reader
import UtilityLayer.Selector.Subject
import UtilityLayer.Token

/-!
# Handing over the critical stylesheet

The base classes of a layer are the subject classes of its rules without their
variants. A critical stylesheet is filtered as a tree: a style rule goes when it
mentions a class whose base is covered, a grouping block when nothing is left
in it, and everything else stays. A text with a block that cannot be read stays
as it is.
-/

set_option autoImplicit false

namespace UtilityLayer.Layer

open Text Css Selector

def isGrouping (head : Text) : Bool :=
  startsWith "@media" head || startsWith "@supports" head || startsWith "@layer" head

def branchSubjects (branch : Text) : List Text :=
  match parseList (trim branch) with
  | some (x :: _) => x.subjects.classes
  | _ => mentions branch

def headSubjects (head : Text) : List Text := (splitOuter ',' head).flatMap branchSubjects

def styledBy : Node → List Text
  | .block head _ => if startsWith "@" head then [] else headSubjects head
  | _ => []

def coverage? (css : Text) : Except SheetError TextSet :=
  (readTree isGrouping (withoutComments css)).map fun ns =>
    .ofList (((leavesOf ns).flatMap styledBy).map Token.baseClassOf)

def coverage (css : Text) : TextSet :=
  match coverage? css with
  | .ok classes => classes
  | .error _ => .empty

def isCovered (covered : TextSet) (head : Text) : Bool :=
  !startsWith "@" head && (mentions head).any fun c => covered.contains (Token.baseClassOf c)

def printBlock (head inner : Text) : Text := head ++ " \x7b" ++ inner ++ "\x7d"

def lines (parts : List Text) : Text := join ['\n'] parts

mutual

def keptOf (covered : TextSet) : Node → List Text
  | .bare text => [text ++ [';']]
  | .block head body => if isCovered covered head then [] else [printBlock head body]
  | .group head inner =>
    let kept := lines (keptOfAll covered inner)
    if kept = [] then [] else [printBlock head (' ' :: kept ++ [' '])]
  | .broken _ _ => []

def keptOfAll (covered : TextSet) : List Node → List Text
  | [] => []
  | n :: ns => keptOf covered n ++ keptOfAll covered ns

end

/-- The tree of a critical stylesheet, readable at every level. -/
def criticalTree (critical : Text) : Except SheetError (List Node) :=
  match readTree isGrouping (withoutComments critical) with
  | .error e => .error e
  | .ok ns =>
    match firstError (leavesOf ns) with
    | some e => .error e
    | none => .ok ns

def pruneCritical (covered : TextSet) (critical : Text) : Text :=
  match criticalTree critical with
  | .error _ => critical
  | .ok ns => lines (keptOfAll covered ns)

end UtilityLayer.Layer
