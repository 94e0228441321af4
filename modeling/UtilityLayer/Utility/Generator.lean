import UtilityLayer.Theme.Family

/-!
# Generators

What classes a theme variable stands for, by its family: the class names and
their bodies over a given value. A color fans out into the chosen targets, a
spacing into paddings, margins and gaps, every other family into one class.
Breakpoints generate nothing.
-/

set_option autoImplicit false

namespace UtilityLayer.Utility

open Theme

inductive ColorTarget where
  | background
  | text
  | border
  | outline
  | fill
  | stroke
  | decoration
  | ring
  | accent
  | caret
  deriving DecidableEq, Repr

namespace ColorTarget

def all : List ColorTarget :=
  [.background, .text, .border, .outline, .fill, .stroke, .decoration, .ring, .accent, .caret]

def stem : ColorTarget → Text
  | background => "bg"
  | text => "text"
  | border => "border"
  | outline => "outline"
  | fill => "fill"
  | stroke => "stroke"
  | decoration => "decoration"
  | ring => "ring"
  | accent => "accent"
  | caret => "caret"

def property : ColorTarget → Text
  | background => "background-color"
  | text => "color"
  | border => "border-color"
  | outline => "outline-color"
  | fill => "fill"
  | stroke => "stroke"
  | decoration => "text-decoration-color"
  | ring => "--ring-color"
  | accent => "accent-color"
  | caret => "caret-color"

end ColorTarget

structure Colors where
  has : ColorTarget → Bool

namespace Colors

def all : Colors := ⟨fun _ => true⟩

def ofList (targets : List ColorTarget) : Colors := ⟨fun t => targets.contains t⟩

def toList (colors : Colors) : List ColorTarget := ColorTarget.all.filter colors.has

end Colors

def spacings : List (Text × Text) :=
  [("p", "padding"), ("px", "padding-inline"), ("py", "padding-block"), ("pt", "padding-top"),
   ("pr", "padding-right"), ("pb", "padding-bottom"), ("pl", "padding-left"), ("m", "margin"),
   ("mx", "margin-inline"), ("my", "margin-block"), ("mt", "margin-top"), ("mr", "margin-right"),
   ("mb", "margin-bottom"), ("ml", "margin-left"), ("gap", "gap"), ("gap-x", "column-gap"),
   ("gap-y", "row-gap")]

def targets (colors : Colors) : Family → List (Text × Text)
  | .color => colors.toList.map fun t => (t.stem, t.property)
  | .fontFamily => [("font", "font-family")]
  | .fontWeight => [("font", "font-weight")]
  | .fontSize => [("text", "font-size")]
  | .spacing => spacings
  | .radius => [("rounded", "border-radius")]
  | .shadow => [("shadow", "box-shadow")]
  | .leading => [("leading", "line-height")]
  | .tracking => [("tracking", "letter-spacing")]
  | .opacity => [("opacity", "opacity")]
  | .zIndex => [("z", "z-index")]
  | .breakpoint => []

def generates (f : Family) : Bool := f ≠ .breakpoint

def declaration (property value : Text) : Text := property ++ ": " ++ value ++ ";"

/-- The classes of a variable with the given suffix, and their bodies over `value`. -/
def generate (f : Family) (suffix value : Text) (colors : Colors) : List (Text × Text) :=
  (targets colors f).map fun (stem, property) =>
    (stem ++ '-' :: suffix, declaration property value)

end UtilityLayer.Utility
