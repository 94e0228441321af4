import UtilityLayer.Proofs.Css.Name
import UtilityLayer.Proofs.Css.Reading

/-!
# Escaped names in place

An escaped class name is read back before any text that a name does not go on
with, and no character of it ends the head of a rule. What is unread after it
tells how long the name was, so two names never have one escape.
-/

set_option autoImplicit false

namespace UtilityLayer.Css

open Text

/-- Whether a name would go on with the character. -/
def goesOn (c : Char) : Bool := c == '\\' || isEscapedNameChar c

theorem goesOn_eq_false_iff {c : Char} :
    goesOn c = false ↔ c.toNat < 128 ∧ c.isAlphanum = false ∧ c ∉ ['-', '_', '\\'] := by
  by_cases low : c.toNat < 128
  · have ascii := isAlphanumeric_of_ascii low
    have high : ¬ 128 ≤ c.toNat := by omega
    simp [goesOn, isEscapedNameChar, isNameChar, ascii, low, high]
    tauto
  · have high : 128 ≤ c.toNat := by omega
    simp [goesOn, isEscapedNameChar, low, high]

/-- No name stands at the beginning of the text: it is a lone backslash, or a
name does not go on with its first character. -/
def Nameless (t : Text) : Prop := t = ['\\'] ∨ ∀ c ∈ t.head?, goesOn c = false

instance (t : Text) : Decidable (Nameless t) :=
  decidable_of_iff (t = ['\\'] ∨ t.head?.any goesOn = false) (by cases t <;> simp [Nameless])

theorem readEscaped_of_nameless {t : Text} (h : Nameless t) : readEscaped t = ([], t) := by
  rcases h with rfl | ends
  · simp [readEscaped, hexRun]
  · cases t with
    | nil => rw [readEscaped]
    | cons c t =>
      have stop : c ≠ '\\' ∧ isEscapedNameChar c = false := by simpa [goesOn] using ends c rfl
      exact readEscaped_of_stop stop.1 stop.2 t

theorem nameless_of_readEscaped {t : Text} (h : (readEscaped t).1 = []) : Nameless t := by
  cases t with
  | nil => exact .inr (by simp)
  | cons c t =>
    by_cases hb : c = '\\'
    · subst hb
      cases t with
      | nil => exact .inl rfl
      | cons d t =>
        rw [readEscaped, if_pos rfl] at h
        split at h <;> simp at h
    · by_cases hc : isEscapedNameChar c = true
      · simp [readEscaped_of_nameChar hb hc] at h
      · exact .inr (by simpa [goesOn, hb] using hc)

theorem hexRun_before {n : Nat} {t y : Text}
    (h : (hexRun n t).2 ≠ [] ∨ ∀ c ∈ y.head?, isHexDigit c = false) :
    hexRun n (t ++ y) = ((hexRun n t).1, (hexRun n t).2 ++ y) := by
  induction n generalizing t with
  | zero =>
    have none (u : Text) : hexRun 0 u = ([], u) := by cases u <;> rfl
    rw [none, none]
  | succ n ih =>
    cases t with
    | nil =>
      cases y with
      | nil => rfl
      | cons d y =>
        have stop : isHexDigit d = false := by simpa [hexRun] using h
        rw [List.nil_append, hexRun, if_neg (by simp [stop])]
        rfl
    | cons c t =>
      rw [hexRun] at h
      rw [List.cons_append, hexRun, hexRun]
      split
      · rename_i hc
        rw [if_pos hc] at h
        rw [ih h]
      · rfl

theorem readEscaped_of_hexRun {t r hs : Text} {h : Char} (hr : hexRun 6 t = (h :: hs, r)) :
    readEscaped ('\\' :: t) = (charOfCode (ofHexadecimal (h :: hs)) :: (readEscaped (skipSpace r)).1,
      (readEscaped (skipSpace r)).2) := by
  rw [readEscaped, if_pos rfl]
  split
  · rename_i none
    rw [hr] at none
    cases none
  · rename_i run
    rw [hr] at run
    obtain ⟨digits, rfl⟩ := Prod.mk.inj run
    rw [digits]

/-- Behind a name that ends with the text it may be read on, perhaps after the space
that ends an escape. -/
theorem readEscaped_append {u y : Text} (stop : ∀ c ∈ y.head?, isHexDigit c = false)
    (whole : (readEscaped u).2 ≠ ['\\']) :
    ∃ e, (readEscaped (u ++ y)).1 = (readEscaped u).1 ++ e ∧
      (((readEscaped u).2 ≠ [] ∧ e = []) ∨
        e = (readEscaped y).1 ∨ e = (readEscaped (skipSpace y)).1) := by
  fun_induction readEscaped u with
  | case1 => exact ⟨(readEscaped y).1, rfl, .inr (.inl rfl)⟩
  | case2 => exact absurd rfl whole
  | case3 a d u hn n rest hu ih =>
    have other : isHexDigit d = false := by
      rw [Bool.eq_false_iff]
      intro hd
      rw [hexRun, if_pos hd] at hn
      cases hn
    rw [hu] at ih
    obtain ⟨e, read, cases⟩ := ih whole
    refine ⟨e, ?_, cases⟩
    rw [List.cons_append, List.cons_append, readEscaped_of_escape other, read]
    rfl
  | case4 t h hs r hr n rest hu ih =>
    rw [hu] at ih
    have run : hexRun 6 (t ++ y) = (h :: hs, r ++ y) := by rw [hexRun_before (.inr stop), hr]
    rw [List.cons_append, readEscaped_of_hexRun run]
    cases r with
    | nil =>
      have none : readEscaped (skipSpace []) = ([], []) := readEscaped_of_nameless (.inr (by simp [skipSpace]))
      rw [none] at hu
      obtain ⟨rfl, rfl⟩ := Prod.mk.inj hu
      exact ⟨(readEscaped (skipSpace y)).1, rfl, .inr (.inr rfl)⟩
    | cons c r =>
      have later : skipSpace (c :: r ++ y) = skipSpace (c :: r) ++ y := by
        by_cases hc : c = ' '
        · rw [hc]
          rfl
        · simp [skipSpace, hc]
      obtain ⟨e, read, cases⟩ := ih whole
      rw [later]
      exact ⟨e, congrArg (_ :: ·) read, cases⟩
  | case5 c t hb hc n rest hu ih =>
    rw [hu] at ih
    obtain ⟨e, read, cases⟩ := ih whole
    refine ⟨e, ?_, cases⟩
    rw [List.cons_append, readEscaped_of_nameChar hb hc, read]
    rfl
  | case6 c t hb hc =>
    have stopped : isEscapedNameChar c = false := by simpa using hc
    refine ⟨[], ?_, .inl ⟨by simp, rfl⟩⟩
    rw [List.cons_append, readEscaped_of_stop hb stopped]
    rfl

theorem escapedName?_escape_append {name : Text} (nonempty : name ≠ []) (t : Text) :
    escapedName? (escape name ++ t) = some (name ++ (readEscaped t).1, (readEscaped t).2) :=
  escapedName?_eq_some_iff.mpr ⟨List.append_ne_nil_of_left_ne_nil nonempty _, readEscaped_escape name t⟩

theorem escapedName?_escape_iff {name : Text} (nonempty : name ≠ []) (t : Text) :
    escapedName? (escape name ++ t) = some (name, t) ↔ Nameless t := by
  rw [escapedName?_escape_append nonempty]
  constructor
  · intro h
    have names := congrArg Prod.fst (Option.some.inj h)
    exact nameless_of_readEscaped (by simpa using names)
  · intro h
    rw [readEscaped_of_nameless h, List.append_nil]

theorem readEscaped_eq_of_escape (name : Text) : readEscaped (escape name) = (name, []) := by
  have read := readEscaped_escape name []
  have none : readEscaped [] = ([], []) := by rw [readEscaped]
  simpa [none] using read

theorem escapeChar_of_blank {c : Char} (h : isBlank c = true) : escapeChar c = ['\\', c] := by
  rw [escapeChar, if_neg]
  intro plain
  rw [isBlank_of_isNameChar (isNameChar_of_plain plain)] at h
  cases h

theorem getLast?_escapeChar (c : Char) : (escapeChar c).getLast? = some c := by
  rw [escapeChar]
  split <;> rfl

theorem escape_concat {name : Text} {c : Char} (h : name ≠ [] ∨ c.isDigit = false) :
    escape (name ++ [c]) = escape name ++ escapeChar c := by
  cases name with
  | nil =>
    have other : c.isDigit = false := by simpa using h
    simp [escape, other]
  | cons d name => simp [escape, List.append_assoc]

theorem escapedName?_trimEnd_digit {c : Char} (h : c.isDigit = true) :
    escapedName? (trimEnd (escape [c])) = some ([c], []) := by
  have digits : ∀ n : Fin 10, trimEnd ('\\' :: hexadecimal (48 + n) ++ [' ']) =
      '\\' :: hexadecimal (48 + n) := by
    decide
  have trimmed : trimEnd (escape [c]) = '\\' :: hexadecimal c.toNat ++ [] := by
    obtain ⟨n, hn⟩ := exists_of_isDigit h
    rw [escape, if_pos h, List.flatMap_nil, List.append_nil, List.append_nil, hn, digits]
  have ends : ∀ d ∈ ([] : Text).head?, isHexDigit d = false := by simp
  have none : readEscaped (skipSpace []) = ([], []) := readEscaped_of_nameless (.inr (by simp [skipSpace]))
  rw [trimmed, escapedName?, readEscaped_code h ends, none]

theorem escapedName?_trimEnd_of_solid {name : Text} {c : Char} (solid : isBlank c = false) :
    escapedName? (trimEnd (escape (name ++ [c]))) = some (name ++ [c], []) := by
  by_cases digit : name = [] ∧ c.isDigit = true
  · rw [digit.1]
    exact escapedName?_trimEnd_digit digit.2
  · have split : name ≠ [] ∨ c.isDigit = false := by
      simpa only [not_and_or, Bool.not_eq_true] using digit
    have last : ∀ d ∈ (escape (name ++ [c])).getLast?, isBlank d = false := by
      rw [escape_concat split, List.getLast?_append, getLast?_escapeChar]
      simp [solid]
    rw [trimEnd_of_last last, escapedName?_escape (by simp)]

theorem escapedName?_trimEnd_of_blank {name : Text} {c : Char} (blank : isBlank c = true) :
    escapedName? (trimEnd (escape (name ++ [c]))) ≠ some (name ++ [c], []) := by
  have other : c.isDigit = false := by
    rw [Bool.eq_false_iff]
    intro digit
    have plain : (c.isAlphanum || c == '-') = true := by simp [Char.isAlphanum, digit]
    rw [isBlank_of_isNameChar (isNameChar_of_plain plain)] at blank
    cases blank
  have bare : isBlank '\\' = false := by decide
  have kept : trimEnd (escape (name ++ [c])) = escape name ++ ['\\'] := by
    rw [escape_concat (.inr other), escapeChar_of_blank blank, trimEnd_append_cons bare]
    simp [trimEnd, blank]
  intro h
  have read : readEscaped (escape name ++ ['\\']) = (name, ['\\']) := by
    rw [readEscaped_escape, readEscaped_of_nameless (.inl rfl), List.append_nil]
  rw [kept, escapedName?, read] at h
  cases name <;> simp at h

/-- Trimming leaves a name readable unless it takes away a blank of the name. -/
theorem escapedName?_trimEnd_iff {name : Text} (nonempty : name ≠ []) :
    escapedName? (trimEnd (escape name)) = some (name, []) ↔
      ∀ c ∈ name.getLast?, isBlank c = false := by
  induction name using List.reverseRecOn with
  | nil => exact absurd rfl nonempty
  | append_singleton name c _ =>
    rw [List.getLast?_concat]
    by_cases blank : isBlank c = true
    · simp [blank, escapedName?_trimEnd_of_blank blank]
    · have solid : isBlank c = false := by simpa using blank
      simp [solid, escapedName?_trimEnd_of_solid solid]

theorem escape_injective : Function.Injective escape := by
  intro a b h
  have same := congrArg (fun t => (readEscaped t).1) h
  simpa [readEscaped_eq_of_escape] using same

/-- A text that leaves a reader as it found it, with no end of a head. -/
structure Passes (t : Text) : Prop where
  avoids : avoids endsHead .outside t = true
  outside : Scan.outside.run t = .outside

theorem Passes.append {a b : Text} (ha : Passes a) (hb : Passes b) : Passes (a ++ b) where
  avoids := by rw [avoids_append, ha.avoids, ha.outside, hb.avoids]; rfl
  outside := by rw [Scan.run_append, ha.outside, hb.outside]

theorem passes_of_calm {t : Text} (h : t.all isCalm = true) : Passes t :=
  ⟨(avoids_of_calm h).1, (avoids_of_calm h).2⟩

theorem passes_escaped (c : Char) : Passes ['\\', c] where
  avoids := by simp [avoids, Scan.free, Scan.outside, Scan.step, endsHead]
  outside := by simp [Scan.run, Scan.outside, Scan.step]

theorem passes_escapeChar (c : Char) : Passes (escapeChar c) := by
  rw [escapeChar]
  split
  · rename_i h
    have calm : isCalm c = true := isCalm_of (p := fun c => c.isAlphanum || c == '-') (by decide) h
    exact passes_of_calm (by simp [calm])
  · exact passes_escaped c

theorem passes_flatMap_escapeChar (t : Text) : Passes (t.flatMap escapeChar) := by
  induction t with
  | nil => exact ⟨rfl, rfl⟩
  | cons c t ih => exact (passes_escapeChar c).append ih

theorem passes_digit {c : Char} (h : c.isDigit = true) :
    Passes ('\\' :: hexadecimal c.toNat ++ [' ']) := by
  have digits : ∀ n : Fin 10,
      avoids endsHead .outside ('\\' :: hexadecimal (48 + n) ++ [' ']) = true ∧
        Scan.outside.run ('\\' :: hexadecimal (48 + n) ++ [' ']) = .outside := by
    decide
  obtain ⟨n, hn⟩ := exists_of_isDigit h
  obtain ⟨avoids, outside⟩ := digits n
  rw [hn]
  exact ⟨avoids, outside⟩

theorem opens_classSelector (name : Text) : Opens (classSelector name ++ [' ']) := by
  have escaped : Passes (escape name) := by
    cases name with
    | nil => exact ⟨rfl, rfl⟩
    | cons c t =>
      rw [escape]
      split
      · rename_i h
        exact (passes_digit h).append (passes_flatMap_escapeChar t)
      · exact (passes_escapeChar c).append (passes_flatMap_escapeChar t)
  have dot : Passes ['.'] := ⟨rfl, rfl⟩
  have whole := (dot.append escaped).append (passes_of_calm (t := [' ']) rfl)
  exact ⟨by simp [classSelector], whole.avoids, whole.outside⟩

/-- A class name is read back where it stands, and it never ends the selector
that it stands in. -/
theorem escape_in_place :
    (∀ name rest : Text, name ≠ [] →
      (∀ c ∈ rest.head?, c.toNat < 128 ∧ c.isAlphanum = false ∧ c ∉ ['-', '_', '\\']) →
        escapedName? (escape name ++ rest) = some (name, rest)) ∧
    Function.Injective escape ∧
    ∀ name rest : Text,
      splitHead (classSelector name ++ ' ' :: '{' :: rest) =
        (classSelector name ++ [' '], '{' :: rest) := by
  refine ⟨?_, escape_injective, ?_⟩
  · intro name rest nonempty ends
    have stop : Nameless rest := .inr fun c hc => goesOn_eq_false_iff.mpr (ends c hc)
    exact (escapedName?_escape_iff nonempty rest).mpr stop
  · intro name rest
    have split := splitHead_of_opens (opens_classSelector name) (c := '{') rfl rfl rest
    rw [List.append_assoc] at split
    exact split

theorem digit_name_in_place :
    "2".toList ≠ [] ∧ escape "2" ++ " a".toList = "\\32  a".toList ∧
      escapedName? (escape "2" ++ " a".toList) = some ("2".toList, " a".toList) := by
  refine ⟨by decide, by decide, escape_in_place.1 _ _ (by decide) ?_⟩
  intro c hc
  obtain rfl := Option.some.inj hc
  decide

end UtilityLayer.Css
