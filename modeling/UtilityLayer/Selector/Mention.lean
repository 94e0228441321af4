import UtilityLayer.Css.Name

/-!
# The classes a selector text mentions

A flat scan that needs no grammar: every dot outside strings, and not escaped,
starts a class name if an escaped name follows. Escapes are looked at outside
strings only.
-/

set_option autoImplicit false

namespace UtilityLayer.Selector

open Css

inductive MentionScan where
  | outside
  | afterEscape
  | inString (quote : Char)
  deriving DecidableEq, Repr

def MentionScan.step : MentionScan → Char → MentionScan
  | .afterEscape, _ => .outside
  | .inString q, c => if c = q then .outside else .inString q
  | .outside, c =>
    if c = '\\' then .afterEscape else if isQuote c then .inString c else .outside

def mentionsFrom : MentionScan → Text → List Text
  | _, [] => []
  | s, c :: t =>
    if s = .outside ∧ c = '.' then
      match escapedName? t with
      | some (name, _) => name :: mentionsFrom (s.step c) t
      | none => mentionsFrom (s.step c) t
    else mentionsFrom (s.step c) t

def mentions (t : Text) : List Text := mentionsFrom .outside t

end UtilityLayer.Selector
