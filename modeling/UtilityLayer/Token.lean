import UtilityLayer.Variant.Table

/-!
# Tokens

A token is a chain of segments joined by colons outside brackets and
parentheses. The last segment is the base class, important when `!` stands
before it; the segments before it are variants. A segment in square brackets is
a selector of its own, with `_` for a space. Segments without a meaning are
kept apart.
-/

set_option autoImplicit false

namespace UtilityLayer

open Text

namespace Token

def segmentsFrom : Nat → Text → List Text
  | _, [] => [[]]
  | depth, c :: t =>
    if c = ':' ∧ depth = 0 then [] :: segmentsFrom 0 t
    else
      let depth := if c = '[' ∨ c = '(' then depth + 1
        else if c = ']' ∨ c = ')' then depth - 1 else depth
      match segmentsFrom depth t with
      | [] => [[c]]
      | s :: ss => (c :: s) :: ss

def segments (t : Text) : List Text := segmentsFrom 0 t

theorem segmentsFrom_ne_nil (depth : Nat) (t : Text) : segmentsFrom depth t ≠ [] := by
  cases t with
  | nil => simp [segmentsFrom]
  | cons c t =>
    rw [segmentsFrom]
    split
    · simp
    · dsimp only
      split <;> simp

/-- `_` stands for a space and `\_` for itself; a backslash stays before any
other character. -/
def decode : Text → Text
  | [] => []
  | ['\\'] => ['\\']
  | '\\' :: c :: t => if c = '_' then '_' :: decode t else '\\' :: c :: decode t
  | c :: t => (if c = '_' then ' ' else c) :: decode t

def breaksOut (c : Char) : Bool := c == '{' || c == '}' || c == ';'

/-- The selector of a bracketed segment, unless it is blank or could end the rule. -/
def decode? (inner : Text) : Option Text :=
  if isBlankText inner || inner.any breaksOut then none else some (decode inner)

def bracketed? (segment : Text) : Option Text := (after? "[" segment).bind (before? "]")

def variantOf? (table : Variant.Table) (segment : Text) : Option Variant :=
  if segment = [] then none
  else match bracketed? segment with
    | some inner => (decode? inner).map Variant.ofArbitrary
    | none => table.resolve? segment

def base (t : Text) : Text := (segments t).getLast (segmentsFrom_ne_nil 0 t)

def variantSegments (t : Text) : List Text := (segments t).dropLast

end Token

structure Token where
  raw : Text
  baseClass : Text
  variants : List Variant
  important : Bool
  ignored : List Text
  deriving DecidableEq, Repr

namespace Token

/-- Whether a base is important, and its base class. -/
def readBase (base : Text) : Bool × Text :=
  match after? "!" base with
  | some rest => (true, rest)
  | none => (false, base)

def parse (table : Variant.Table) (raw : Text) : Token where
  raw := raw
  baseClass := (readBase (base raw)).2
  variants := (variantSegments raw).filterMap (variantOf? table)
  important := (readBase (base raw)).1
  ignored := (variantSegments raw).filter fun s => (variantOf? table s).isNone

def isUndecorated (t : Token) : Bool := t.variants.isEmpty && !t.important

def isUnderstood (t : Token) : Bool := t.ignored.isEmpty

/-- The base class of a class name, for which no variant needs a meaning. -/
def baseClassOf (name : Text) : Text :=
  let last := (segments name).getLast?.getD name
  (after? "!" last).getD last

end Token

end UtilityLayer
