import UtilityLayer.Css.Scan
import UtilityLayer.Text.Alphanumeric
import UtilityLayer.Text.Blank
import UtilityLayer.Theme.Family
import UtilityLayer.Theme.Variables

/-!
# Custom properties of a stylesheet

A custom property is read wherever a declaration may start: at the beginning
and after a brace or a semicolon, blanks skipped. Its value runs to the first
semicolon or closing brace outside strings and brackets. Of all properties the
theme keeps those whose name belongs to a family.
-/

set_option autoImplicit false

namespace UtilityLayer.Theme

open Text Css

/-- A value and the text from its end on, reading inside `depth` open brackets
and perhaps a string. A backslash is a character like any other. -/
def splitValue : Nat → Option Char → Text → Text × Text
  | _, _, [] => ([], [])
  | depth, some q, c :: t =>
    let (v, r) := splitValue depth (if c = q then none else some q) t
    (c :: v, r)
  | depth, none, c :: t =>
    if (c = ';' ∨ c = '}') ∧ depth = 0 then ([], c :: t)
    else
      let (v, r) := splitValue
        (if c = '(' ∨ c = '[' then depth + 1 else if c = ')' ∨ c = ']' then depth - 1 else depth)
        (if isQuote c then some c else none) t
      (c :: v, r)

theorem splitValue_append (depth : Nat) (quote : Option Char) (t : Text) :
    (splitValue depth quote t).1 ++ (splitValue depth quote t).2 = t := by
  induction t generalizing depth quote with
  | nil => cases quote <;> rfl
  | cons c t ih =>
    cases quote with
    | some q => simp [splitValue, ih]
    | none =>
      rw [splitValue]
      split
      · rfl
      · simp [ih]

theorem splitValue_length_le (depth : Nat) (quote : Option Char) (t : Text) :
    (splitValue depth quote t).2.length ≤ t.length := by
  have := congrArg List.length (splitValue_append depth quote t)
  simp at this
  omega

def isPropertyChar (c : Char) : Bool := isNameChar c || c == '.'

/-- A custom property with its trimmed value, and the text after the value. -/
def readProperty (t : Text) : Option ((Text × Text) × Text) :=
  match after? "--" t with
  | none => none
  | some u =>
    match u.takeWhile isPropertyChar, skipGap (u.dropWhile isPropertyChar) with
    | c :: name, ':' :: v =>
      let (value, rest) := splitValue 0 none v
      some (("--" ++ c :: name, trim value), rest)
    | _, _ => none

theorem readProperty_length {t rest : Text} {d : Text × Text}
    (h : readProperty t = some (d, rest)) : rest.length < t.length := by
  rw [readProperty] at h
  split at h
  · simp at h
  · rename_i u hu
    split at h
    · rename_i c name v hn hv
      simp only [Option.some.injEq, Prod.mk.injEq] at h
      obtain ⟨-, rfl⟩ := h
      have h₁ := after?_length hu
      have h₂ := congrArg List.length hv
      have h₃ := skipGap_length_le (u.dropWhile isPropertyChar)
      have h₄ := (List.dropWhile_suffix isPropertyChar (l := u)).length_le
      have h₅ := splitValue_length_le 0 none v
      simp only [List.length_cons] at h₂
      omega
    · simp at h

/-- The custom properties in document order. `starts` tells that a declaration
may start here. -/
def declarationsFrom (starts : Bool) : Text → List (Text × Text)
  | [] => []
  | c :: t =>
    match _h : if starts then readProperty (c :: t) else none with
    | some (d, rest) => d :: declarationsFrom false rest
    | none =>
      declarationsFrom (c == '{' || c == ';' || c == '}' || (isBlank c && starts)) t
termination_by t => t.length
decreasing_by
  · split at _h
    · exact readProperty_length _h
    · simp at _h
  · simp

def declarations (t : Text) : List (Text × Text) := declarationsFrom true t

def Variables.ofSheet (t : Text) : Variables :=
  .ofList ((declarations (withoutComments t)).filter fun d => (familyOf? d.1).isSome)

end UtilityLayer.Theme
