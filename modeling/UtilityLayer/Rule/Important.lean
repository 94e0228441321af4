import UtilityLayer.Css.Scan
import UtilityLayer.Text.Blank

/-!
# Important declarations

A body is cut into segments at the semicolons and braces outside strings and
parentheses. A segment with a colon that is not the head of a block is a
declaration: it gets ` !important` unless it has one, and a semicolon unless
one follows.
-/

set_option autoImplicit false

namespace UtilityLayer.Rule

open Text Css

def endsSegment (c : Char) : Bool := c == ';' || c == '}' || c == '{'

/-- The text up to the next end of a segment, and the rest from that end on,
reading inside `depth` parentheses and perhaps a string. -/
def splitSegment : Nat → Option Char → Text → Text × Text
  | _, _, [] => ([], [])
  | depth, some q, c :: t =>
    let (a, b) := splitSegment depth (if c = q then none else some q) t
    (c :: a, b)
  | depth, none, c :: t =>
    if endsSegment c ∧ depth = 0 then ([], c :: t)
    else
      let (a, b) := splitSegment
        (if c = '(' then depth + 1 else if c = ')' then depth - 1 else depth)
        (if isQuote c then some c else none) t
      (c :: a, b)

theorem splitSegment_append (depth : Nat) (quote : Option Char) (t : Text) :
    (splitSegment depth quote t).1 ++ (splitSegment depth quote t).2 = t := by
  induction t generalizing depth quote with
  | nil => cases quote <;> rfl
  | cons c t ih =>
    cases quote with
    | some q => simp [splitSegment, ih]
    | none =>
      rw [splitSegment]
      split
      · rfl
      · simp [ih]

theorem splitSegment_length_le (depth : Nat) (quote : Option Char) (t : Text) :
    (splitSegment depth quote t).2.length ≤ t.length := by
  have := congrArg List.length (splitSegment_append depth quote t)
  simp at this
  omega

def importantMark : Text := " !important"

/-- A segment that ends without a block; `followed` tells that a semicolon
comes next. -/
def markSegment (segment : Text) (followed : Bool) : Text :=
  let kept := trimEnd segment
  if kept = [] ∨ ':' ∉ kept then segment
  else
    kept ++ (if holds "!important" kept then [] else importantMark) ++
      (if followed then [] else [';']) ++ blankTail segment

def markImportant (body : Text) : Text :=
  match _h : splitSegment 0 none body with
  | (segment, []) => markSegment segment false
  | (segment, c :: rest) =>
    (if c = '{' then segment else markSegment segment (c == ';')) ++ c :: markImportant rest
termination_by body.length
decreasing_by
  have := splitSegment_length_le 0 none body
  rw [_h] at this
  simp at this
  omega

end UtilityLayer.Rule
