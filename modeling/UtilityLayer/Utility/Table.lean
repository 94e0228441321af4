import UtilityLayer.Keyed
import UtilityLayer.Theme.Variables
import UtilityLayer.Utility.Basic
import UtilityLayer.Utility.Generator

/-!
# Generated utilities

All classes that the variables of a theme generate; where two variables
generate one class, the later one owns it. A base class is looked up as it
stands, or else as a color class with an opacity in percent after a slash.
-/

set_option autoImplicit false

namespace UtilityLayer.Utility

open Text Theme

structure Source where
  family : Family
  suffix : Text
  name : Text
  deriving DecidableEq, Repr

structure Generated where
  utility : Utility
  source : Source
  deriving DecidableEq, Repr

structure Table where
  entries : List (Text × Generated)
  colors : Colors

def reference (name : Text) : Text := "var(" ++ name ++ ")"

def generatedBy (colors : Colors) (name : Text) : List (Text × Generated) :=
  match familyOf? name with
  | none => []
  | some (family, suffix) =>
    (generate family suffix (reference name) colors).map fun (className, body) =>
      (className, ⟨{ className, body }, ⟨family, suffix, name⟩⟩)

/-- A percentage: digits only, at most a hundred. -/
def percent? (t : Text) : Option Nat :=
  if t ≠ [] ∧ t.all Char.isDigit then
    if ofDecimal t ≤ 100 then some (ofDecimal t) else none
  else none

def translucent (name : Text) (percent : Nat) : Text :=
  "color-mix(in srgb, " ++ reference name ++ " " ++ decimal percent ++ "%, transparent)"

namespace Table

def build (vars : Variables) (colors : Colors) : Table where
  entries := (vars.entries.flatMap fun v => generatedBy colors v.1).foldl
    (fun es g => Keyed.set g.1 g.2 es) []
  colors := colors

def find? (table : Table) (className : Text) : Option Generated := Keyed.get? className table.entries

def get? (table : Table) (className : Text) : Option Utility :=
  (table.find? className).map Generated.utility

def size (table : Table) : Nat := table.entries.length

def faded? (table : Table) (baseClass : Text) : Option Utility := do
  let (className, alpha) ← cutLast? '/' baseClass
  let percent ← percent? alpha
  let g ← table.find? className
  if g.source.family = .color then
    let mixed := translucent g.source.name percent
    let (_, body) ← (generate g.source.family g.source.suffix mixed table.colors).find?
      fun p => p.1 = className
    some { className := baseClass, body }
  else none

def resolve? (table : Table) (baseClass : Text) : Option Utility :=
  (table.get? baseClass).orElse fun _ => table.faded? baseClass

end Table

end UtilityLayer.Utility
