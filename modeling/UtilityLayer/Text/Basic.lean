/-!
# Texts

A text is a list of characters, so that every reader below is a recursion on
it. The size in bytes is a function of the list, and a literal stands for its
characters. Numbers are written most significant digit first, and decimal digits
read back as their number.
-/

set_option autoImplicit false

namespace UtilityLayer

abbrev Text := List Char

instance : Coe String Text := ⟨String.toList⟩

namespace Text

/-- What follows `lead`, when the text starts with it. -/
def after? : Text → Text → Option Text
  | [], t => some t
  | _ :: _, [] => none
  | c :: lead, d :: t => if c = d then after? lead t else none

theorem after?_eq_some_iff {lead t rest : Text} :
    after? lead t = some rest ↔ t = lead ++ rest := by
  induction lead generalizing t with
  | nil => simp [after?]
  | cons c lead ih =>
    cases t with
    | nil => simp [after?]
    | cons d t => by_cases h : c = d <;> simp [after?, h, ih, eq_comm]

theorem after?_append (lead rest : Text) : after? lead (lead ++ rest) = some rest :=
  after?_eq_some_iff.2 rfl

theorem after?_length {lead t rest : Text} (h : after? lead t = some rest) :
    t.length = lead.length + rest.length := by
  rw [after?_eq_some_iff.1 h, List.length_append]

def startsWith (lead t : Text) : Bool := (after? lead t).isSome

def endsWith (tail t : Text) : Bool := (after? tail.reverse t.reverse).isSome

def before? (tail t : Text) : Option Text := (after? tail.reverse t.reverse).map List.reverse

def holds (needle : Text) : Text → Bool
  | [] => needle.isEmpty
  | c :: t => startsWith needle (c :: t) || holds needle t

def cut? (mark : Char) : Text → Option (Text × Text)
  | [] => none
  | c :: t => if c = mark then some ([], t) else (cut? mark t).map fun (a, b) => (c :: a, b)

theorem cut?_eq_some {mark : Char} {t a b : Text} (h : cut? mark t = some (a, b)) :
    t = a ++ mark :: b ∧ mark ∉ a := by
  induction t generalizing a with
  | nil => simp [cut?] at h
  | cons c t ih =>
    by_cases hc : c = mark
    · simp [cut?, hc] at h
      obtain ⟨rfl, rfl⟩ := h
      simp [hc]
    · simp only [cut?, hc, if_false, Option.map_eq_some_iff, Prod.exists, Prod.mk.injEq] at h
      obtain ⟨a', b', hab, rfl, rfl⟩ := h
      obtain ⟨rfl, hm⟩ := ih hab
      simp [hm, Ne.symm hc]

theorem cut?_append {mark : Char} {a : Text} (h : mark ∉ a) (b : Text) :
    cut? mark (a ++ mark :: b) = some (a, b) := by
  induction a with
  | nil => simp [cut?]
  | cons c a ih =>
    simp only [List.mem_cons, not_or] at h
    simp [cut?, Ne.symm h.1, ih h.2]

def cutLast? (mark : Char) (t : Text) : Option (Text × Text) :=
  (cut? mark t.reverse).map fun (a, b) => (b.reverse, a.reverse)

/-- The pieces between the characters that satisfy `p`, empty ones included. -/
def pieces (p : Char → Bool) : Text → List Text
  | [] => [[]]
  | c :: t =>
    if p c then [] :: pieces p t
    else match pieces p t with
      | [] => [[c]]
      | w :: ws => (c :: w) :: ws

theorem pieces_ne_nil (p : Char → Bool) (t : Text) : pieces p t ≠ [] := by
  cases t with
  | nil => simp [pieces]
  | cons c t =>
    rw [pieces]
    split
    · simp
    · split <;> simp

def join (between : Text) (parts : List Text) : Text := List.intercalate between parts

def fill (mark : Char) (new t : Text) : Text := t.flatMap fun c => if c = mark then new else [c]

theorem fill_of_not_mem {mark : Char} {new t : Text} (h : mark ∉ t) : fill mark new t = t := by
  induction t with
  | nil => rfl
  | cons c t ih =>
    simp only [List.mem_cons, not_or] at h
    simp [fill, Ne.symm h.1]
    exact ih h.2

def byteSize : Text → Nat
  | [] => 0
  | c :: t => c.utf8Size + byteSize t

/-- ASCII letters, digits, `-`, `_` and `.`. -/
def isPlainNameChar (c : Char) : Bool := c.isAlphanum || c == '-' || c == '_' || c == '.'

def decimal (n : Nat) : Text := Nat.toDigits 10 n

def ofDecimal (t : Text) : Nat := Nat.ofDigitChars 10 t 0

theorem ofDecimal_decimal (n : Nat) : ofDecimal (decimal n) = n :=
  Nat.ofDigitChars_toDigits (by decide) (by decide)

theorem isDigit_of_mem_decimal {n : Nat} {c : Char} (h : c ∈ decimal n) : c.isDigit = true :=
  Nat.isDigit_of_mem_toDigits (by decide) (by decide) h

def hexadecimal (n : Nat) : Text := Nat.toDigits 16 n

def isHexDigit (c : Char) : Bool :=
  c.isDigit || ('a' ≤ c && c ≤ 'f') || ('A' ≤ c && c ≤ 'F')

def hexValue (c : Char) : Nat :=
  if c.isDigit then c.toNat - 48 else if c ≤ 'F' then c.toNat - 55 else c.toNat - 87

def ofHexadecimal (t : Text) : Nat := t.foldl (fun n c => 16 * n + hexValue c) 0

end Text

end UtilityLayer
