import UtilityLayer.Text.Basic

/-!
# Strings and escapes inside a stylesheet

Where a reader stands between two characters: outside strings or inside one,
and whether the next character is escaped. A backslash escapes the character
after it both inside and outside strings. A character is free when it is read
as itself: not escaped, outside strings, and neither a quote nor a backslash. A
comment runs from a slash and a star outside strings to the next star and slash,
or to the end of the text; there a backslash escapes inside strings only.
-/

set_option autoImplicit false

namespace UtilityLayer.Css

def isQuote (c : Char) : Bool := c == '"' || c == '\''

structure Scan where
  escaped : Bool := false
  quote : Option Char := none
  deriving DecidableEq, Repr

namespace Scan

def outside : Scan := {}

def free (s : Scan) (c : Char) : Bool :=
  !s.escaped && s.quote.isNone && c != '\\' && !isQuote c

def step (s : Scan) (c : Char) : Scan :=
  if s.escaped then { s with escaped := false }
  else if c = '\\' then { s with escaped := true }
  else match s.quote with
    | some q => if c = q then outside else s
    | none => if isQuote c then { s with quote := some c } else s

def run (s : Scan) (t : Text) : Scan := t.foldl step s

theorem run_append (s : Scan) (a b : Text) : run s (a ++ b) = run (run s a) b := List.foldl_append

theorem eq_outside_of_free {s : Scan} {c : Char} (h : s.free c = true) : s = outside := by
  obtain ⟨e, q⟩ := s
  simp [free] at h
  simp [outside, h.1.1.1, h.1.1.2]

theorem step_of_free {s : Scan} {c : Char} (h : s.free c = true) : s.step c = outside := by
  obtain rfl := eq_outside_of_free h
  simp [free, outside] at h
  simp [step, outside, h.1, h.2]

theorem free_outside {c : Char} (h : c ≠ '\\') (hq : isQuote c = false) :
    outside.free c = true := by
  simp [free, outside, h, hq]

end Scan

/-- The text before the first free character that satisfies `stop`, and the
rest from that character on. -/
def splitFree (stop : Char → Bool) : Scan → Text → Text × Text
  | _, [] => ([], [])
  | s, c :: t =>
    if s.free c && stop c then ([], c :: t)
    else
      let (a, b) := splitFree stop (s.step c) t
      (c :: a, b)

theorem splitFree_append (stop : Char → Bool) (s : Scan) (t : Text) :
    (splitFree stop s t).1 ++ (splitFree stop s t).2 = t := by
  induction t generalizing s with
  | nil => rfl
  | cons c t ih =>
    by_cases h : (s.free c && stop c) = true
    · simp [splitFree, h]
    · simp [splitFree, h, ih]

/-- The body of a block whose opening brace has been read, and the text after
its closing brace. `depth` counts the blocks opened inside it and still open. -/
def blockBody : Nat → Scan → Text → Option (Text × Text)
  | _, _, [] => none
  | depth, s, c :: t =>
    let inner (d : Nat) := (blockBody d (s.step c) t).map fun (b, r) => (c :: b, r)
    if s.free c && c == '{' then inner (depth + 1)
    else if s.free c && c == '}' then
      if depth = 0 then some ([], t) else inner (depth - 1)
    else inner depth

theorem blockBody_append {depth : Nat} {s : Scan} {t body rest : Text}
    (h : blockBody depth s t = some (body, rest)) : t = body ++ '}' :: rest := by
  induction t generalizing depth s body with
  | nil => simp [blockBody] at h
  | cons c t ih =>
    have step {d : Nat} (h : ((blockBody d (s.step c) t).map
        fun (b, r) => (c :: b, r)) = some (body, rest)) : c :: t = body ++ '}' :: rest := by
      simp only [Option.map_eq_some_iff, Prod.exists, Prod.mk.injEq] at h
      obtain ⟨b, r, hb, rfl, rfl⟩ := h
      rw [ih hb, List.cons_append]
    rw [blockBody] at h
    split at h
    · exact step h
    · split at h
      · rename_i hc
        split at h
        · simp only [Option.some.injEq, Prod.mk.injEq] at h
          obtain ⟨rfl, rfl⟩ := h
          simp only [Bool.and_eq_true, beq_iff_eq] at hc
          simp [hc.2]
        · exact step h
      · exact step h

inductive CommentScan where
  | outside
  | inString (quote : Char)
  | afterEscape (quote : Char)
  | inComment
  deriving DecidableEq, Repr

def stripFrom : CommentScan → Text → Text
  | _, [] => []
  | .inString q, c :: t =>
    c :: stripFrom (if c = '\\' then .afterEscape q else if c = q then .outside else .inString q) t
  | .afterEscape q, c :: t => c :: stripFrom (.inString q) t
  | .outside, '/' :: '*' :: t => stripFrom .inComment t
  | .outside, c :: t => c :: stripFrom (if isQuote c then .inString c else .outside) t
  | .inComment, '*' :: '/' :: t => stripFrom .outside t
  | .inComment, _ :: t => stripFrom .inComment t

def withoutComments (t : Text) : Text := stripFrom .outside t

end UtilityLayer.Css
