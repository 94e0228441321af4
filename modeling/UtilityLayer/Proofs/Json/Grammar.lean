import UtilityLayer.Json.Reader
import UtilityLayer.Proofs.Text.Blank

/-!
# The grammar of JSON

The texts of a value, without a reader: blanks may stand around every value and
every mark between values, and a number or a string is written as the value
keeps it. The reader finds the value of each such text, whatever its depth. A
number ends only where no further character can belong to it, so what follows a
value is part of each statement.
-/

set_option autoImplicit false

namespace UtilityLayer.Json

open Text

inductive StringText : Text → Prop
  | nil : StringText []
  | char {c : Char} {t : Text} (visible : 32 ≤ c.toNat) (unquoted : c ≠ '"') (bare : c ≠ '\\')
      (rest : StringText t) : StringText (c :: t)
  | short {c : Char} {t : Text} (letter : (unescape? c).isSome = true) (rest : StringText t) :
      StringText ('\\' :: c :: t)
  | unit {a b c d : Char} {t : Text} (hex : [a, b, c, d].all isHexDigit = true)
      (rest : StringText t) : StringText ('\\' :: 'u' :: a :: b :: c :: d :: t)

def Digits (t : Text) : Prop := t ≠ [] ∧ t.all Char.isDigit = true

inductive Natural : Text → Prop
  | zero : Natural ['0']
  | digits {c : Char} {t : Text} (nonzero : c ≠ '0') (digits : Digits (c :: t)) : Natural (c :: t)

inductive Fraction : Text → Prop
  | absent : Fraction []
  | present {t : Text} (digits : Digits t) : Fraction ('.' :: t)

inductive Exponent : Text → Prop
  | absent : Exponent []
  | unsigned {e : Char} {t : Text} (mark : e = 'e' ∨ e = 'E') (digits : Digits t) :
      Exponent (e :: t)
  | signed {e s : Char} {t : Text} (mark : e = 'e' ∨ e = 'E') (sign : isSign s = true)
      (digits : Digits t) : Exponent (e :: s :: t)

inductive Unsigned : Text → Prop
  | parts {n f e : Text} (whole : Natural n) (fraction : Fraction f) (exponent : Exponent e) :
      Unsigned (n ++ f ++ e)

inductive Scalar : Text → Json → Prop
  | null : Scalar "null" .null
  | yes : Scalar "true" (.bool true)
  | no : Scalar "false" (.bool false)
  | positive {t : Text} (digits : Unsigned t) : Scalar t (.number t)
  | negative {t : Text} (digits : Unsigned t) : Scalar ('-' :: t) (.number ('-' :: t))
  | string {t : Text} (inside : StringText t) : Scalar (quoted t) (.string t)

mutual

inductive Spells : Text → Json → Prop
  | scalar {t : Text} {j : Json} (scalar : Scalar t j) : Spells t j
  | noItems {gap : Text} (blank : gap.all isGap = true) : Spells ('[' :: (gap ++ [']'])) (.array [])
  | items {t : Text} {js : List Json} (inner : SpellsItems t js) :
      Spells ('[' :: (t ++ [']'])) (.array js)
  | noMembers {gap : Text} (blank : gap.all isGap = true) :
      Spells ('{' :: (gap ++ ['}'])) (.object [])
  | members {t : Text} {ms : List (Text × Json)} (inner : SpellsMembers t ms) :
      Spells ('{' :: (t ++ ['}'])) (.object ms)

/-- A value between blanks. -/
inductive Padded : Text → Json → Prop
  | mk {a t z : Text} {j : Json} (before : a.all isGap = true) (value : Spells t j)
      (after : z.all isGap = true) : Padded (a ++ (t ++ z)) j

inductive SpellsItems : Text → List Json → Prop
  | last {t : Text} {j : Json} (value : Padded t j) : SpellsItems t [j]
  | cons {t u : Text} {j : Json} {js : List Json} (value : Padded t j) (rest : SpellsItems u js) :
      SpellsItems (t ++ ',' :: u) (j :: js)

inductive SpellsMembers : Text → List (Text × Json) → Prop
  | last {a k b t : Text} {j : Json} (before : a.all isGap = true) (key : StringText k)
      (after : b.all isGap = true) (value : Padded t j) :
      SpellsMembers (a ++ (quoted k ++ (b ++ ':' :: t))) [(k, j)]
  | cons {a k b t u : Text} {j : Json} {ms : List (Text × Json)} (before : a.all isGap = true)
      (key : StringText k) (after : b.all isGap = true) (value : Padded t j)
      (rest : SpellsMembers u ms) :
      SpellsMembers (a ++ (quoted k ++ (b ++ ':' :: (t ++ ',' :: u)))) ((k, j) :: ms)

end

section Scalars

variable {s t r n f e : Text} {c : Char} {j : Json}

theorem StringText.read (h : StringText s) (r : Text) :
    stringBody? (s ++ '"' :: r) = some (s, r) := by
  induction h with
  | nil => rfl
  | @char c t visible unquoted bare rest ih =>
    have low : ¬ c.toNat < 32 := by omega
    rw [List.cons_append, stringBody?, if_neg low, ih]
    · rfl
    · exact unquoted
    · intro a b d e t h
      exact absurd h bare
    · intro d t h
      exact absurd h bare
  | @short c t letter rest ih =>
    have other : c ≠ 'u' := by
      rintro rfl
      cases letter
    rw [List.cons_append, List.cons_append, stringBody?, if_pos letter, ih]
    · rfl
    · intro a b d e t h
      exact absurd h other
  | unit hex rest ih =>
    simp only [List.cons_append]
    rw [stringBody?, if_pos hex, ih]
    rfl

def Breaks (r : Text) : Prop :=
  ∀ c, r.head? = some c → c.isDigit = false ∧ c ≠ '.' ∧ c ≠ 'e' ∧ c ≠ 'E'

theorem digits?_append (h : Digits t) (stop : ∀ c, r.head? = some c → c.isDigit = false) :
    digits? (t ++ r) = some (t, r) := by
  obtain ⟨nonempty, digits⟩ := h
  have digits' : ∀ c ∈ t, c.isDigit = true := List.all_eq_true.mp digits
  have parts : r.takeWhile Char.isDigit = [] ∧ r.dropWhile Char.isDigit = r := by
    cases r with
    | nil => exact ⟨rfl, rfl⟩
    | cons c r => simp [stop c rfl]
  rw [digits?, List.takeWhile_append_of_pos digits', List.dropWhile_append_of_pos digits', parts.1,
    parts.2, List.append_nil]
  cases t with
  | nil => exact absurd rfl nonempty
  | cons c t => rfl

theorem natural?_append (h : Natural n) (stop : ∀ c, r.head? = some c → c.isDigit = false) :
    natural? (n ++ r) = some (n, r) := by
  cases h with
  | zero =>
    cases r with
    | nil => rfl
    | cons c r => simp [natural?, stop c rfl]
  | @digits c t nonzero digits =>
    rw [List.cons_append, natural?, ← List.cons_append, digits?_append digits stop]
    intro t h
    exact nonzero (List.cons.inj h).1

theorem fraction?_append (h : Fraction f) (stop : ∀ c, r.head? = some c → c.isDigit = false)
    (point : r.head? ≠ some '.') : fraction? (f ++ r) = some (f, r) := by
  cases h with
  | absent =>
    cases r with
    | nil => rfl
    | cons c r =>
      rw [List.nil_append, fraction?]
      intro t h
      exact point (congrArg List.head? h)
  | present digits => rw [List.cons_append, fraction?, digits?_append digits stop]; rfl

theorem exponent?_append (h : Exponent e) (breaks : Breaks r) :
    exponent? (e ++ r) = some (e, r) := by
  have stop : ∀ c, r.head? = some c → c.isDigit = false := fun c hc => (breaks c hc).1
  cases h with
  | absent =>
    cases r with
    | nil => rfl
    | cons c r =>
      obtain ⟨-, -, small, large⟩ := breaks c rfl
      simp [exponent?, small, large]
  | @unsigned e t mark digits =>
    obtain ⟨d, ds, rfl⟩ := List.exists_cons_of_ne_nil digits.1
    have digit : d.isDigit = true := List.all_eq_true.mp digits.2 d (by simp)
    have plain : isSign d = false := by
      rw [Bool.eq_false_iff]
      intro sign
      simp only [isSign, Bool.or_eq_true, beq_iff_eq] at sign
      rcases sign with rfl | rfl <;> cases digit
    have read := digits?_append digits stop
    rw [List.cons_append] at read
    simp [exponent?, mark, plain, read]
  | @signed e s t mark sign digits =>
    simp [exponent?, mark, sign, digits?_append digits stop]

theorem unsigned?_append (h : Unsigned t) (breaks : Breaks r) :
    unsigned? (t ++ r) = some (t, r) := by
  obtain @⟨n, f, e, whole, fraction, exponent⟩ := h
  have late : ∀ c, (e ++ r).head? = some c → c.isDigit = false ∧ c ≠ '.' := by
    cases exponent with
    | absent => exact fun c hc => ⟨(breaks c hc).1, (breaks c hc).2.1⟩
    | unsigned mark digits =>
      rintro c ⟨⟩
      rcases mark with rfl | rfl <;> decide
    | signed mark sign digits =>
      rintro c ⟨⟩
      rcases mark with rfl | rfl <;> decide
  have early : ∀ c, (f ++ (e ++ r)).head? = some c → c.isDigit = false := by
    cases fraction with
    | absent => exact fun c hc => (late c hc).1
    | present digits =>
      rintro c ⟨⟩
      decide
  have point : (e ++ r).head? ≠ some '.' := fun h => (late '.' h).2 rfl
  rw [List.append_assoc, List.append_assoc, unsigned?, natural?_append whole early]
  simp [fraction?_append fraction (fun c hc => (late c hc).1) point,
    exponent?_append exponent breaks]

theorem Unsigned.head (h : Unsigned t) : ∃ c u, t = c :: u ∧ c.isDigit = true := by
  obtain ⟨whole, fraction, exponent⟩ := h
  cases whole with
  | zero => exact ⟨'0', _, rfl, rfl⟩
  | digits nonzero digits => exact ⟨_, _, rfl, List.all_eq_true.mp digits.2 _ (by simp)⟩

theorem ne_of_isDigit {c d : Char} (h : c.isDigit = true) (other : d.isDigit = false) : c ≠ d := by
  rintro rfl
  rw [h] at other
  cases other

theorem Scalar.read (h : Scalar t j) (breaks : Breaks r) : scalar? (t ++ r) = some (j, r) := by
  cases h with
  | null => rfl
  | yes => rfl
  | no => rfl
  | positive digits =>
    have read := unsigned?_append digits breaks
    obtain ⟨c, u, rfl, digit⟩ := digits.head
    rw [List.cons_append] at read ⊢
    have other {d : Char} (hd : d.isDigit = false) : c ≠ d := ne_of_isDigit digit hd
    simp [scalar?, number?, other, read]
  | @negative t digits =>
    have read := unsigned?_append digits breaks
    rw [List.cons_append]
    simp [scalar?, number?, read]
  | @string t inside =>
    have whole : quoted t ++ r = '"' :: (t ++ '"' :: r) := by simp [quoted]
    rw [whole, scalar?, inside.read]
    rfl

theorem Scalar.head (h : Scalar t j) :
    ∃ c u, t = c :: u ∧ isGap c = false ∧ c ≠ '[' ∧ c ≠ '{' ∧ c ≠ ']' := by
  cases h with
  | null => exact ⟨'n', _, rfl, by decide⟩
  | yes => exact ⟨'t', _, rfl, by decide⟩
  | no => exact ⟨'f', _, rfl, by decide⟩
  | positive digits =>
    obtain ⟨c, u, rfl, digit⟩ := digits.head
    have other {d : Char} (hd : d.isDigit = false) : c ≠ d := ne_of_isDigit digit hd
    exact ⟨c, u, rfl, by simp [isGap, other], other rfl, other rfl, other rfl⟩
  | negative digits => exact ⟨'-', _, rfl, by decide⟩
  | string inside => exact ⟨'"', _, rfl, by decide⟩

end Scalars

section Values

variable {t u z : Text} {c : Char} {j : Json} {js : List Json} {ms : List (Text × Json)}

theorem Spells.head (h : Spells t j) : ∃ c u, t = c :: u ∧ isGap c = false ∧ c ≠ ']' := by
  cases h with
  | scalar scalar =>
    obtain ⟨c, u, whole, plain, -, -, closing⟩ := scalar.head
    exact ⟨c, u, whole, plain, closing⟩
  | noItems blank => exact ⟨'[', _, rfl, by decide⟩
  | items inner => exact ⟨'[', _, rfl, by decide⟩
  | noMembers blank => exact ⟨'{', _, rfl, by decide⟩
  | members inner => exact ⟨'{', _, rfl, by decide⟩

theorem skipGap_plain {gap : Text} (blank : gap.all isGap = true) (h : isGap c = false) (u : Text) :
    skipGap (gap ++ c :: u) = c :: u :=
  skipGap_eq_cons_iff.mpr ⟨h, gap, blank, rfl⟩

theorem breaks_cons (h : isGap c = true ∨ c = ',' ∨ c = ']' ∨ c = '}') (u : Text) :
    Breaks (c :: u) := by
  rintro d ⟨⟩
  simp only [isGap, Bool.or_eq_true, beq_iff_eq] at h
  rcases h with (((rfl | rfl) | rfl) | rfl) | rfl | rfl | rfl <;> decide

theorem breaks_gap (after : z.all isGap = true) (h : Breaks u) : Breaks (z ++ u) := by
  cases z with
  | nil => exact h
  | cons c z => exact breaks_cons (.inl (List.all_eq_true.mp after c (by simp))) _

theorem Padded.head (h : Padded t j) (r : Text) :
    ∃ c u, skipGap (t ++ r) = c :: u ∧ c ≠ ']' := by
  obtain @⟨a, t, z, j, before, value, after⟩ := h
  obtain ⟨c, u, rfl, plain, closing⟩ := value.head
  refine ⟨c, u ++ z ++ r, ?_, closing⟩
  rw [List.append_assoc]
  exact skipGap_plain before plain _

theorem SpellsItems.head (h : SpellsItems t js) (r : Text) :
    ∃ c u, skipGap (t ++ r) = c :: u ∧ c ≠ ']' := by
  cases h with
  | last value => exact value.head r
  | cons value rest =>
    rw [List.append_assoc]
    exact value.head _

theorem SpellsMembers.head (h : SpellsMembers t ms) (r : Text) :
    ∃ u, skipGap (t ++ r) = '"' :: u := by
  cases h with
  | last before key after value =>
    rw [List.append_assoc]
    exact ⟨_, skipGap_plain before rfl _⟩
  | cons before key after value rest =>
    rw [List.append_assoc]
    exact ⟨_, skipGap_plain before rfl _⟩

theorem items?_skipGap (n : Nat) (t : Text) : items? n (skipGap t) = items? n t := by
  have again (m : Nat) : value? m (skipGap t) = value? m t := by
    cases m with
    | zero => rfl
    | succ m => rw [value?, value?, skipGap, skipGap, List.dropWhile_idempotent]
  cases n with
  | zero => rfl
  | succ n => rw [items?, items?, again]

theorem members?_skipGap (n : Nat) (t : Text) : members? n (skipGap t) = members? n t := by
  cases n with
  | zero => rfl
  | succ n => rw [members?, members?, skipGap, skipGap, List.dropWhile_idempotent]

/-- With `n` calls to spend, all texts that are short enough are read. -/
structure Reads (n : Nat) : Prop where
  value : ∀ {a t r : Text} {j : Json}, a.all isGap = true → Spells t j → 2 * t.length ≤ n →
    Breaks r → value? n (a ++ (t ++ r)) = some (j, r)
  items : ∀ {t : Text} {js : List Json}, SpellsItems t js → 2 * t.length + 1 ≤ n →
    ∀ r, items? n (t ++ ']' :: r) = some (js, r)
  members : ∀ {t : Text} {ms : List (Text × Json)}, SpellsMembers t ms → 2 * t.length + 1 ≤ n →
    ∀ r, members? n (t ++ '}' :: r) = some (ms, r)

namespace Reads

variable {n : Nat}

theorem zero : Reads 0 where
  value := by
    intro a t r j _ spelled short
    obtain ⟨c, u, rfl, -⟩ := spelled.head
    simp at short
  items := by
    intro t js _ short
    omega
  members := by
    intro t ms _ short
    omega

theorem padded (h : Reads n) (spelled : Padded t j) (short : 2 * t.length ≤ n) {r : Text}
    (breaks : Breaks r) :
    ∃ z : Text, z.all isGap = true ∧ value? n (t ++ r) = some (j, z ++ r) := by
  obtain @⟨a, u, z, j, before, value, after⟩ := spelled
  have fits : 2 * u.length ≤ n := by
    simp only [List.length_append] at short
    omega
  refine ⟨z, after, ?_⟩
  rw [List.append_assoc, List.append_assoc]
  exact h.value before value fits (breaks_gap after breaks)

theorem value_succ (h : Reads n) {a r : Text} (before : a.all isGap = true) (spelled : Spells t j)
    (short : 2 * t.length ≤ n + 1) (breaks : Breaks r) :
    value? (n + 1) (a ++ (t ++ r)) = some (j, r) := by
  cases spelled with
  | scalar scalar =>
    have read := scalar.read breaks
    obtain ⟨c, u, rfl, plain, bracket, brace, -⟩ := scalar.head
    rw [List.cons_append] at read ⊢
    rw [value?, skipGap_plain before plain]
    split
    · rename_i hc
      exact absurd (List.cons.inj hc).1 bracket
    · rename_i hc
      exact absurd (List.cons.inj hc).1 brace
    · exact read
  | @noItems gap blank =>
    have inner : gap ++ [']'] ++ r = gap ++ ']' :: r := by simp
    rw [List.cons_append, value?, skipGap_plain before rfl, inner]
    simp only [skipGap_plain blank (show isGap ']' = false from rfl)]
  | @items u js inner =>
    have fits : 2 * u.length + 1 ≤ n := by
      simp only [List.length_cons, List.length_append, List.length_nil] at short
      omega
    have whole : u ++ [']'] ++ r = u ++ ']' :: r := by simp
    obtain ⟨c, v, lead, closing⟩ := inner.head (']' :: r)
    have read := h.items inner fits r
    rw [← items?_skipGap, lead] at read
    rw [List.cons_append, value?, skipGap_plain before rfl, whole]
    simp only [lead]
    split
    · rename_i hc
      exact absurd (List.cons.inj hc).1 closing
    · rw [read]
      rfl
  | @noMembers gap blank =>
    have inner : gap ++ ['}'] ++ r = gap ++ '}' :: r := by simp
    rw [List.cons_append, value?, skipGap_plain before rfl, inner]
    simp only [skipGap_plain blank (show isGap '}' = false from rfl)]
  | @members u ms inner =>
    have fits : 2 * u.length + 1 ≤ n := by
      simp only [List.length_cons, List.length_append, List.length_nil] at short
      omega
    have whole : u ++ ['}'] ++ r = u ++ '}' :: r := by simp
    obtain ⟨v, lead⟩ := inner.head ('}' :: r)
    have read := h.members inner fits r
    rw [← members?_skipGap, lead] at read
    rw [List.cons_append, value?, skipGap_plain before rfl, whole]
    simp only [lead]
    split
    · rename_i hc
      exact absurd (List.cons.inj hc).1 (by decide)
    · rw [read]
      rfl

theorem items_succ (h : Reads n) (spelled : SpellsItems t js) (short : 2 * t.length + 1 ≤ n + 1)
    (r : Text) : items? (n + 1) (t ++ ']' :: r) = some (js, r) := by
  cases spelled with
  | last value =>
    obtain ⟨z, after, read⟩ := h.padded value (by omega) (breaks_cons (c := ']') (by simp) r)
    rw [items?, read]
    simp only [skipGap_plain after (show isGap ']' = false from rfl)]
  | @cons t u j js value rest =>
    simp only [List.length_append, List.length_cons] at short
    obtain ⟨z, after, read⟩ :=
      h.padded value (by omega) (breaks_cons (c := ',') (by simp) (u ++ ']' :: r))
    have later := h.items rest (by omega) r
    rw [List.append_assoc, List.cons_append, items?, read]
    simp only [skipGap_plain after (show isGap ',' = false from rfl), later]
    rfl

theorem members_succ (h : Reads n) (spelled : SpellsMembers t ms)
    (short : 2 * t.length + 1 ≤ n + 1) (r : Text) :
    members? (n + 1) (t ++ '}' :: r) = some (ms, r) := by
  cases spelled with
  | @last a k b t j before key between value =>
    simp only [List.length_append, List.length_cons] at short
    obtain ⟨z, after, read⟩ := h.padded value (by omega) (breaks_cons (c := '}') (by simp) r)
    have whole : a ++ (quoted k ++ (b ++ ':' :: t)) ++ '}' :: r =
        a ++ '"' :: (k ++ '"' :: (b ++ ':' :: (t ++ '}' :: r))) := by simp [quoted]
    rw [whole, members?, skipGap_plain before rfl]
    simp only [key.read, skipGap_plain between (show isGap ':' = false from rfl), read,
      skipGap_plain after (show isGap '}' = false from rfl)]
  | @cons a k b t u j ms before key between value rest =>
    simp only [List.length_append, List.length_cons] at short
    obtain ⟨z, after, read⟩ :=
      h.padded value (by omega) (breaks_cons (c := ',') (by simp) (u ++ '}' :: r))
    have later := h.members rest (by omega) r
    have whole : a ++ (quoted k ++ (b ++ ':' :: (t ++ ',' :: u))) ++ '}' :: r =
        a ++ '"' :: (k ++ '"' :: (b ++ ':' :: (t ++ ',' :: (u ++ '}' :: r)))) := by simp [quoted]
    rw [whole, members?, skipGap_plain before rfl]
    simp only [key.read, skipGap_plain between (show isGap ':' = false from rfl), read,
      skipGap_plain after (show isGap ',' = false from rfl), later]
    rfl

theorem all (n : Nat) : Reads n := by
  induction n with
  | zero => exact zero
  | succ n ih => exact ⟨ih.value_succ, ih.items_succ, ih.members_succ⟩

end Reads

/-- The reader finds the value of every text that spells one. -/
theorem parse?_of_padded (h : Padded t j) : parse? t = some j := by
  have breaks : Breaks [] := by
    rintro c ⟨⟩
  obtain ⟨z, after, read⟩ := (Reads.all (2 * t.length + 2)).padded h (by omega) breaks
  have blank : skipGap (z ++ []) = [] := skipGap_append after []
  rw [List.append_nil] at read
  rw [Json.parse?, read]
  exact if_pos blank

end Values

section Printing

theorem Spells.padded {t : Text} {j : Json} (h : Spells t j) : Padded t j := by
  have bare : Padded ([] ++ (t ++ [])) j := .mk rfl h rfl
  rwa [List.nil_append, List.append_nil] at bare

theorem spells_printMembers {m : Text × Json} {ms : List (Text × Json)}
    (h : ∀ n ∈ m :: ms, StringText n.1 ∧ Spells (print n.2) n.2) :
    SpellsMembers (printMembers (m :: ms)) (m :: ms) := by
  induction ms generalizing m with
  | nil =>
    obtain ⟨key, value⟩ := h m (by simp)
    exact .last (a := []) (b := []) rfl key rfl value.padded
  | cons next ms ih =>
    obtain ⟨key, value⟩ := h m (by simp)
    have rest := ih fun n hn => h n (List.mem_cons_of_mem m hn)
    have whole := SpellsMembers.cons (a := []) (b := []) rfl key rfl value.padded rest
    simpa [printMembers] using whole

end Printing

end UtilityLayer.Json
