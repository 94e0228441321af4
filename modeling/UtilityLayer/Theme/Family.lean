import UtilityLayer.Text.Basic

/-!
# Families of theme variables

A custom property belongs to a theme by its name alone: a family's lead
followed by a suffix, or a semantic color name with an optional tail. The suffix
names the utilities of the variable. A lead wins over the leads after it.
-/

set_option autoImplicit false

namespace UtilityLayer.Theme

open Text

inductive Family where
  | color
  | fontFamily
  | fontWeight
  | fontSize
  | spacing
  | radius
  | shadow
  | leading
  | tracking
  | opacity
  | zIndex
  | breakpoint
  deriving DecidableEq, Repr

def familyLeads : List (Text × Family) :=
  [("color-", .color), ("font-weight-", .fontWeight), ("font-", .fontFamily),
   ("text-", .fontSize), ("spacing-", .spacing), ("radius-", .radius), ("shadow-", .shadow),
   ("leading-", .leading), ("tracking-", .tracking), ("opacity-", .opacity),
   ("breakpoint-", .breakpoint), ("z-", .zIndex)]

def colorWords : List Text :=
  ["primary", "secondary", "accent", "neutral", "base", "info", "success", "warning", "error",
   "surface", "background", "foreground", "muted", "border", "ring"]

/-- Not empty, ASCII letters, digits, `-`, `_` and `.` only, and no `-` at the end. -/
def isSuffix (t : Text) : Bool := !t.isEmpty && !endsWith ['-'] t && t.all isPlainNameChar

def familySuffix? (name : Text) (lead : Text × Family) : Option (Family × Text) :=
  ((after? lead.1 name).filter isSuffix).map fun suffix => (lead.2, suffix)

/-- The family of a name without its leading dashes, and its suffix. -/
def familyOfBare? (name : Text) : Option (Family × Text) :=
  match familyLeads.findSome? (familySuffix? name) with
  | some r => some r
  | none =>
    if colorWords.contains (name.takeWhile (· ≠ '-')) && isSuffix name then some (.color, name)
    else none

def familyOf? (name : Text) : Option (Family × Text) := familyOfBare? ((after? "--" name).getD name)

/-- A suffix always has the shape that names a utility. -/
theorem familyOf?_isSuffix {name suffix : Text} {f : Family}
    (h : familyOf? name = some (f, suffix)) : isSuffix suffix = true := by
  rw [familyOf?, familyOfBare?] at h
  split at h
  · rename_i r hr
    obtain ⟨lead, -, hl⟩ := List.exists_of_findSome?_eq_some hr
    rw [h] at hl
    simp only [familySuffix?, Option.map_eq_some_iff, Option.filter_eq_some_iff, Prod.mk.injEq] at hl
    obtain ⟨s, ⟨-, hs⟩, -, rfl⟩ := hl
    exact hs
  · split at h
    · rename_i hs
      simp only [Option.some.injEq, Prod.mk.injEq] at h
      exact h.2 ▸ (Bool.and_eq_true_iff.1 hs).2
    · simp at h

end UtilityLayer.Theme
