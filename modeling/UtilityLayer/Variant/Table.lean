import UtilityLayer.Theme.Family
import UtilityLayer.Theme.Variables
import UtilityLayer.Variant.Basic

/-!
# The variant table

Fixed names come first: pseudo-classes, contexts and media. Then a breakpoint
stands for its minimum width, `max-` before one for everything narrower, and
`group-` or `peer-` before a pseudo-class for the state of a parent or a
sibling. A theme's breakpoint variables replace or extend the default ones.
-/

set_option autoImplicit false

namespace UtilityLayer.Variant

open Text Theme

def pseudoNames : List (Text × Text) :=
  [("hover", ":hover"), ("focus", ":focus"), ("focus-visible", ":focus-visible"),
   ("focus-within", ":focus-within"), ("active", ":active"), ("visited", ":visited"),
   ("disabled", ":disabled"), ("enabled", ":enabled"), ("checked", ":checked"),
   ("required", ":required"), ("invalid", ":invalid"), ("first", ":first-child"),
   ("last", ":last-child"), ("odd", ":nth-child(odd)"), ("even", ":nth-child(even)"),
   ("empty", ":empty"), ("open", "[open]"), ("placeholder", "::placeholder"),
   ("before", "::before"), ("after", "::after"), ("selection", "::selection"),
   ("marker", "::marker")]

def contextNames : List (Text × Text) :=
  [("dark", ".dark &"), ("rtl", "[dir=\"rtl\"] &"), ("ltr", "[dir=\"ltr\"] &"), ("*", "& > *"),
   ("**", "& *"), ("not-first", "&:not(:first-child)"), ("not-last", "&:not(:last-child)")]

def mediaNames : List (Text × Text) :=
  [("print", "@media print"), ("motion-safe", "@media (prefers-reduced-motion: no-preference)"),
   ("motion-reduce", "@media (prefers-reduced-motion: reduce)"),
   ("portrait", "@media (orientation: portrait)"),
   ("landscape", "@media (orientation: landscape)"),
   ("contrast-more", "@media (prefers-contrast: more)")]

def fixedNames : List (Text × Text) := pseudoNames ++ contextNames ++ mediaNames

def screenWidths : List (Text × Text) :=
  [("sm", "640px"), ("md", "768px"), ("lg", "1024px"), ("xl", "1280px"), ("2xl", "1536px")]

structure Table where
  breakpoints : List (Text × Text)
  deriving DecidableEq, Repr

/-- A pseudo-class, not a pseudo-element, by its variant name. -/
def state? (name : Text) : Option Text :=
  (Keyed.get? name pseudoNames).filter fun s => !startsWith "::" s

namespace Table

def default : Table := ⟨screenWidths⟩

def setBreakpoint (table : Table) (name width : Text) : Table :=
  ⟨Keyed.set name width table.breakpoints⟩

def breakpoint? (table : Table) (name : Text) : Option Text := Keyed.get? name table.breakpoints

def addVariable (table : Table) (v : Text × Text) : Table :=
  match familyOf? v.1 with
  | some (.breakpoint, name) => table.setBreakpoint name v.2
  | _ => table

def ofVariables (vars : Variables) : Table := vars.entries.foldl addVariable default

def fixed? (name : Text) : Option Text := Keyed.get? name fixedNames

def minWidth? (table : Table) (name : Text) : Option Text :=
  (table.breakpoint? name).map fun w => "@media (min-width: " ++ w ++ ")"

def maxWidth? (table : Table) (name : Text) : Option Text :=
  ((after? "max-" name).bind table.breakpoint?).map fun w => "@media (width < " ++ w ++ ")"

def groupState? (name : Text) : Option Text :=
  ((after? "group-" name).bind state?).map fun s => ".group" ++ s ++ " &"

def peerState? (name : Text) : Option Text :=
  ((after? "peer-" name).bind state?).map fun s => ".peer" ++ s ++ " ~ &"

def selector? (table : Table) (name : Text) : Option Text :=
  (fixed? name).orElse fun _ => (table.minWidth? name).orElse fun _ =>
    (table.maxWidth? name).orElse fun _ => (groupState? name).orElse fun _ => peerState? name

def resolve? (table : Table) (name : Text) : Option Variant := (table.selector? name).map named

theorem breakpoint?_setBreakpoint_self (table : Table) (name width : Text) :
    (table.setBreakpoint name width).breakpoint? name = some width := Keyed.get?_set_self _ _ _

theorem breakpoint?_setBreakpoint_of_ne (table : Table) {name other : Text} (h : other ≠ name)
    (width : Text) : (table.setBreakpoint name width).breakpoint? other = table.breakpoint? other :=
  Keyed.get?_set_of_ne h _ _

end Table

end UtilityLayer.Variant
