import UtilityLayer.Css.Scan

/-!
# Splitting at the top level

A text is cut at every free separator that stands outside round and square
brackets. A closing bracket without its opening one changes nothing. Quotes,
brackets and backslashes never separate.
-/

set_option autoImplicit false

namespace UtilityLayer.Css

def isOpening (c : Char) : Bool := c == '(' || c == '['

def isClosing (c : Char) : Bool := c == ')' || c == ']'

structure Level where
  scan : Scan := {}
  depth : Nat := 0
  deriving DecidableEq, Repr

namespace Level

def top : Level := {}

def step (l : Level) (c : Char) : Level where
  scan := l.scan.step c
  depth :=
    if l.scan.free c && isOpening c then l.depth + 1
    else if l.scan.free c && isClosing c then l.depth - 1
    else l.depth

def run (l : Level) (t : Text) : Level := t.foldl step l

theorem run_append (l : Level) (a b : Text) : run l (a ++ b) = run (run l a) b :=
  List.foldl_append

def cuts (separator : Char) (l : Level) (c : Char) : Bool :=
  l.scan.free c && !isOpening c && !isClosing c && c == separator && l.depth == 0

theorem step_of_cuts {separator : Char} {l : Level} {c : Char} (h : l.cuts separator c = true) :
    l.step c = top := by
  obtain ⟨s, d⟩ := l
  simp only [cuts, Bool.and_eq_true, Bool.not_eq_true', beq_iff_eq] at h
  obtain ⟨⟨⟨⟨hf, ho⟩, hc⟩, -⟩, hd⟩ := h
  simp [step, top, hf, ho, hc, hd, Scan.step_of_free hf, Scan.outside]

end Level

def splitFrom (separator : Char) : Level → Text → List Text
  | _, [] => [[]]
  | l, c :: t =>
    if l.cuts separator c then [] :: splitFrom separator (l.step c) t
    else match splitFrom separator (l.step c) t with
      | [] => [[c]]
      | p :: ps => (c :: p) :: ps

def splitOuter (separator : Char) (t : Text) : List Text := splitFrom separator .top t

theorem splitFrom_ne_nil (separator : Char) (l : Level) (t : Text) :
    splitFrom separator l t ≠ [] := by
  cases t with
  | nil => simp [splitFrom]
  | cons c t =>
    rw [splitFrom]
    split
    · simp
    · split <;> simp

end UtilityLayer.Css
