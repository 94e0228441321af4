import UtilityLayer.Css.Scan
import UtilityLayer.Text.Alphanumeric

/-!
# Names and class names

A plain name is a run of letters, numbers, `-` and `_`. An escaped name may
also hold any character outside ASCII, a backslash before any character, or a
backslash before one to six hexadecimal digits and one optional space. `escape`
writes a class name so that an escaped name reads it back.
-/

set_option autoImplicit false

namespace UtilityLayer.Css

open Text

def name? (t : Text) : Option (Text × Text) :=
  match t.takeWhile isNameChar with
  | [] => none
  | c :: n => some (c :: n, t.dropWhile isNameChar)

theorem name?_append {t n rest : Text} (h : name? t = some (n, rest)) :
    t = n ++ rest ∧ n ≠ [] := by
  rw [name?] at h
  split at h
  · simp at h
  · rename_i c m hm
    simp only [Option.some.injEq, Prod.mk.injEq] at h
    obtain ⟨rfl, rfl⟩ := h
    exact ⟨by rw [← hm, List.takeWhile_append_dropWhile], by simp⟩

theorem name?_length {t n rest : Text} (h : name? t = some (n, rest)) :
    rest.length < t.length := by
  obtain ⟨rfl, hn⟩ := name?_append h
  have := List.length_pos_iff.2 hn
  simp
  omega

/-- At most `n` hexadecimal digits, and the text after them. -/
def hexRun : Nat → Text → Text × Text
  | n + 1, c :: t =>
    if isHexDigit c then
      let (h, r) := hexRun n t
      (c :: h, r)
    else ([], c :: t)
  | _, t => ([], t)

theorem hexRun_append (n : Nat) (t : Text) : (hexRun n t).1 ++ (hexRun n t).2 = t := by
  induction n generalizing t with
  | zero => cases t <;> rfl
  | succ n ih =>
    cases t with
    | nil => rfl
    | cons c t => by_cases h : isHexDigit c = true <;> simp [hexRun, h, ih]

theorem hexRun_length_le (n : Nat) (t : Text) : (hexRun n t).2.length ≤ t.length := by
  have := congrArg List.length (hexRun_append n t)
  simp at this
  omega

/-- The character of a code point; the replacement character stands for a
number that is none. -/
def charOfCode (n : Nat) : Char := if n.isValidChar then Char.ofNat n else '\uFFFD'

def skipSpace : Text → Text
  | ' ' :: t => t
  | t => t

theorem skipSpace_length_le (t : Text) : (skipSpace t).length ≤ t.length := by
  unfold skipSpace
  split <;> simp

def isEscapedNameChar (c : Char) : Bool := isNameChar c || 128 ≤ c.toNat

/-- An escaped name, decoded, and the text after it. A backslash that ends the
text belongs to no name. -/
def readEscaped : Text → Text × Text
  | [] => ([], [])
  | c :: t =>
    if c = '\\' then
      match _h : hexRun 6 t with
      | ([], _) =>
        match t with
        | [] => ([], [c])
        | d :: u =>
          let (n, rest) := readEscaped u
          (d :: n, rest)
      | (h :: hs, r) =>
        let (n, rest) := readEscaped (skipSpace r)
        (charOfCode (ofHexadecimal (h :: hs)) :: n, rest)
    else if isEscapedNameChar c then
      let (n, rest) := readEscaped t
      (c :: n, rest)
    else ([], c :: t)
termination_by t => t.length
decreasing_by
  · simp only [List.length_cons]
    omega
  · have h₁ := hexRun_length_le 6 t
    have h₂ := skipSpace_length_le r
    rw [‹hexRun 6 t = _›] at h₁
    simp only [List.length_cons] at h₁ ⊢
    omega
  · exact Nat.lt_succ_self _

def escapedName? (t : Text) : Option (Text × Text) :=
  match readEscaped t with
  | ([], _) => none
  | (c :: n, rest) => some (c :: n, rest)

theorem readEscaped_length (t : Text) :
    (readEscaped t).2.length + (readEscaped t).1.length ≤ t.length := by
  fun_induction readEscaped t with
  | case1 => simp
  | case2 => simp
  | case3 _ _ _ _ _ _ hu ih =>
    rw [hu] at ih
    simp at ih ⊢
    omega
  | case4 t _ _ r hr _ _ hu ih =>
    have h₁ := hexRun_length_le 6 t
    have h₂ := skipSpace_length_le r
    rw [hr] at h₁
    rw [hu] at ih
    simp at h₁ ih ⊢
    omega
  | case5 _ _ _ _ _ _ hu ih =>
    rw [hu] at ih
    simp at ih ⊢
    omega
  | case6 => simp

theorem escapedName?_eq_some_iff {t n rest : Text} :
    escapedName? t = some (n, rest) ↔ n ≠ [] ∧ readEscaped t = (n, rest) := by
  rw [escapedName?]
  split
  · rename_i hr
    rw [hr]
    constructor
    · intro h
      cases h
    · rintro ⟨nonempty, h⟩
      exact absurd (Prod.mk.inj h).1.symm nonempty
  · rename_i hr
    rw [hr, Option.some.injEq]
    constructor
    · intro h
      obtain ⟨rfl, rfl⟩ := Prod.mk.inj h
      exact ⟨List.cons_ne_nil _ _, rfl⟩
    · exact And.right

theorem escapedName?_length {t n rest : Text} (h : escapedName? t = some (n, rest)) :
    rest.length < t.length := by
  obtain ⟨nonempty, hr⟩ := escapedName?_eq_some_iff.mp h
  have bound := readEscaped_length t
  rw [hr] at bound
  have read := List.length_pos_iff.mpr nonempty
  simp only at bound
  omega

def escapeChar (c : Char) : Text := if c.isAlphanum || c == '-' then [c] else ['\\', c]

/-- A leading digit is written by its number, every other character that is no
ASCII letter, digit or `-` after a backslash. -/
def escape : Text → Text
  | [] => []
  | c :: t =>
    (if c.isDigit then '\\' :: hexadecimal c.toNat ++ [' '] else escapeChar c) ++
      t.flatMap escapeChar

def classSelector (name : Text) : Text := '.' :: escape name

end UtilityLayer.Css
