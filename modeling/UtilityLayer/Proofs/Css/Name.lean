import UtilityLayer.Css.Name
import UtilityLayer.Proofs.Text.Blank

/-!
# Escaped names

A reader of an escaped name takes off escaped characters whole. The escape of a
name is read as that name before any text, and so the reader goes on to the end
of the name only.
-/

set_option autoImplicit false

namespace UtilityLayer.Css

open Text

def escapes (e : Bool) (t : Text) : Bool := t.foldl (fun e c => !e && c == '\\') e

theorem escapes_append (e : Bool) (a b : Text) : escapes e (a ++ b) = escapes (escapes e a) b :=
  List.foldl_append

theorem escapes_concat {c : Char} (h : c ≠ '\\') (e : Bool) (t : Text) :
    escapes e (t ++ [c]) = false := by
  have last : escapes (escapes e t) [c] = (!escapes e t && c == '\\') := rfl
  rw [escapes_append, last, beq_false_of_ne h, Bool.and_false]

def Paired (t : Text) : Prop := escapes false t = false

theorem Paired.append {a b : Text} (ha : Paired a) (hb : Paired b) : Paired (a ++ b) := by
  rw [Paired, escapes_append, ha]
  exact hb

theorem paired_concat {c : Char} (h : c ≠ '\\') (t : Text) : Paired (t ++ [c]) :=
  escapes_concat h false t

theorem Paired.cons {c : Char} {t : Text} (h : c ≠ '\\') (ht : Paired t) : Paired (c :: t) :=
  (paired_concat h []).append ht

theorem Paired.of_forall {t : Text} (h : ∀ c ∈ t, c ≠ '\\') : Paired t := by
  induction t with
  | nil => rfl
  | cons c t ih => exact .cons (h c (by simp)) (ih fun d hd => h d (by simp [hd]))

theorem paired_escaped (c : Char) : Paired ['\\', c] := by
  show (!true && c == '\\') = false
  rfl

theorem hexRun_isHexDigit (n : Nat) (t : Text) : ∀ c ∈ (hexRun n t).1, isHexDigit c = true := by
  induction n generalizing t with
  | zero =>
    cases t <;> intro c hc <;> cases hc
  | succ n ih =>
    cases t with
    | nil =>
      intro c hc
      cases hc
    | cons d t =>
      rw [hexRun]
      split
      · rename_i hd
        intro c hc
        rcases List.mem_cons.mp hc with rfl | hc
        · exact hd
        · exact ih t c hc
      · intro c hc
        cases hc

theorem isHexDigit_of_not_plain {c : Char} (h : ¬ (c.isAlphanum || c == '-') = true) :
    isHexDigit c = false := by
  rw [Bool.eq_false_iff]
  intro hx
  apply h
  simp only [isHexDigit, Bool.or_eq_true, Bool.and_eq_true, decide_eq_true_eq, Char.le_def,
    UInt32.le_iff_toNat_le] at hx
  show (c.isUpper || c.isLower || c.isDigit || c == '-') = true
  rw [Bool.or_eq_true, Bool.or_eq_true, Bool.or_eq_true]
  rcases hx with (digit | low) | high
  · exact .inl (.inr digit)
  · have lower : c.val ≤ 'z'.val :=
      UInt32.le_iff_toNat_le.mpr (Nat.le_trans low.2 (by decide))
    refine .inl (.inl (.inr ?_))
    show (decide (c.val ≥ 'a'.val) && decide (c.val ≤ 'z'.val)) = true
    rw [decide_eq_true lower, Bool.and_true]
    exact decide_eq_true (UInt32.le_iff_toNat_le.mpr low.1)
  · have upper : c.val ≤ 'Z'.val :=
      UInt32.le_iff_toNat_le.mpr (Nat.le_trans high.2 (by decide))
    exact .inl (.inl (.inl (decide_eq_true ⟨UInt32.le_iff_toNat_le.mpr high.1, upper⟩)))

theorem isNameChar_of_plain {c : Char} (h : (c.isAlphanum || c == '-') = true) :
    isNameChar c = true := by
  rw [Bool.or_eq_true] at h
  rcases h with h | h
  · simp [isNameChar, isAlphanumeric_of_isAlphanum h]
  · simp [isNameChar, h]

theorem isEscapedNameChar_of_plain {c : Char} (h : (c.isAlphanum || c == '-') = true) :
    c ≠ '\\' ∧ isEscapedNameChar c = true := by
  constructor
  · rintro rfl
    exact absurd h (by decide)
  · rw [isEscapedNameChar, isNameChar_of_plain h, Bool.true_or]

theorem isEscapedNameChar_of_isHexDigit {c : Char} (h : isHexDigit c = true) :
    c ≠ '\\' ∧ isEscapedNameChar c = true := by
  apply isEscapedNameChar_of_plain
  by_contra hp
  rw [isHexDigit_of_not_plain hp] at h
  cases h

theorem skipSpace_eq (t : Text) : skipSpace t = t ∨ t = ' ' :: skipSpace t := by
  rw [skipSpace.eq_def]
  split
  · exact .inr rfl
  · exact .inl rfl

theorem readEscaped_of_nameChar {c : Char} (h : c ≠ '\\') (hc : isEscapedNameChar c = true)
    (t : Text) : readEscaped (c :: t) = (c :: (readEscaped t).1, (readEscaped t).2) := by
  rw [readEscaped, if_neg h, if_pos hc]

theorem readEscaped_of_stop {c : Char} (h : c ≠ '\\') (hc : isEscapedNameChar c = false)
    (t : Text) : readEscaped (c :: t) = ([], c :: t) := by
  rw [readEscaped, if_neg h, if_neg (by simp [hc])]

theorem readEscaped_of_escape {c : Char} (h : isHexDigit c = false) (t : Text) :
    readEscaped ('\\' :: c :: t) = (c :: (readEscaped t).1, (readEscaped t).2) := by
  have none : hexRun 6 (c :: t) = ([], c :: t) := by rw [hexRun, if_neg (by simp [h])]
  rw [readEscaped, if_pos rfl]
  split
  · rfl
  · rename_i hn
    rw [none] at hn
    cases hn

theorem readEscaped_spelled {P : Text → Prop} (nil : P [])
    (append : ∀ {a b : Text}, P a → P b → P (a ++ b)) (escaped : ∀ c, P ['\\', c])
    (plain : ∀ c, c ≠ '\\' → isEscapedNameChar c = true ∨ c = ' ' → P [c]) (t : Text) :
    ∃ spelling, t = spelling ++ (readEscaped t).2 ∧ P spelling := by
  have run {hs : Text} (digits : ∀ c ∈ hs, isHexDigit c = true) : P hs := by
    induction hs with
    | nil => exact nil
    | cons c hs ih =>
      obtain ⟨hb, hc⟩ := isEscapedNameChar_of_isHexDigit (digits c (by simp))
      exact append (plain c hb (.inl hc)) (ih fun d hd => digits d (by simp [hd]))
  fun_induction readEscaped t with
  | case1 => exact ⟨[], rfl, nil⟩
  | case2 => exact ⟨[], rfl, nil⟩
  | case3 _ d u _ n rest hu ih =>
    obtain ⟨spelling, hs, spelled⟩ := ih
    rw [hu] at hs
    exact ⟨['\\', d] ++ spelling, congrArg ('\\' :: d :: ·) hs, append (escaped d) spelled⟩
  | case4 t h hs r hr n rest hu ih =>
    obtain ⟨spelling, hspell, spelled⟩ := ih
    have happ := hexRun_append 6 t
    have digits := hexRun_isHexDigit 6 t
    rw [hr] at happ digits
    rw [hu] at hspell
    have first : P (['\\', h] ++ hs) := append (escaped h) (run fun c hc => digits c (by simp [hc]))
    have whole : '\\' :: t = (['\\', h] ++ hs) ++ r := by rw [← happ]; rfl
    rcases skipSpace_eq r with same | space
    · rw [same] at hspell
      exact ⟨_, by rw [whole, hspell]; simp, append first spelled⟩
    · refine ⟨(['\\', h] ++ hs) ++ ([' '] ++ spelling), ?_,
        append first (append (plain ' ' (by decide) (.inr rfl)) spelled)⟩
      rw [whole, space, hspell]
      simp
  | case5 c t hb hc n rest hu ih =>
    obtain ⟨spelling, hs, spelled⟩ := ih
    rw [hu] at hs
    exact ⟨[c] ++ spelling, congrArg (c :: ·) hs, append (plain c hb (.inl hc)) spelled⟩
  | case6 c t => exact ⟨[], rfl, nil⟩

theorem readEscaped_escapeChar (c : Char) (t : Text) :
    readEscaped (escapeChar c ++ t) = (c :: (readEscaped t).1, (readEscaped t).2) := by
  rw [escapeChar]
  split
  · rename_i h
    obtain ⟨hb, hc⟩ := isEscapedNameChar_of_plain h
    exact readEscaped_of_nameChar hb hc t
  · rename_i h
    exact readEscaped_of_escape (isHexDigit_of_not_plain h) t

theorem readEscaped_flatMap_escapeChar (name t : Text) :
    readEscaped (name.flatMap escapeChar ++ t) = (name ++ (readEscaped t).1, (readEscaped t).2) := by
  induction name with
  | nil => rfl
  | cons c name ih =>
    rw [List.flatMap_cons, List.append_assoc, readEscaped_escapeChar, ih]
    rfl

theorem exists_of_isDigit {c : Char} (h : c.isDigit = true) : ∃ n : Fin 10, c.toNat = 48 + n := by
  simp only [Char.isDigit, ge_iff_le, Bool.and_eq_true, decide_eq_true_eq,
    UInt32.le_iff_toNat_le] at h
  have low : 48 ≤ c.toNat := h.1
  have high : c.toNat ≤ 57 := h.2
  exact ⟨⟨c.toNat - 48, by omega⟩, by simp only; omega⟩

theorem readEscaped_code {c : Char} (h : c.isDigit = true) {t : Text}
    (ends : ∀ d ∈ t.head?, isHexDigit d = false) :
    readEscaped ('\\' :: hexadecimal c.toNat ++ t) =
      (c :: (readEscaped (skipSpace t)).1, (readEscaped (skipSpace t)).2) := by
  have digits : ∀ n : Fin 10, hexadecimal (48 + n) = ['3', Char.ofNat (48 + n)] ∧
      isHexDigit (Char.ofNat (48 + n)) = true ∧
        charOfCode (ofHexadecimal ['3', Char.ofNat (48 + n)]) = Char.ofNat (48 + n) := by
    decide
  obtain ⟨n, hn⟩ := exists_of_isDigit h
  obtain ⟨hh, hu, hc⟩ := digits n
  rw [← hn, Char.ofNat_toNat] at hh hu hc
  have run : hexRun 6 (['3', c] ++ t) = (['3', c], t) := by
    have three : isHexDigit '3' = true := by decide
    cases t with
    | nil => simp [hexRun, three, hu]
    | cons d t => simp [hexRun, three, hu, ends d rfl]
  have whole : '\\' :: hexadecimal c.toNat ++ t = '\\' :: (['3', c] ++ t) := by
    rw [hh]
    rfl
  rw [whole, readEscaped, if_pos rfl]
  split
  · rename_i hn
    rw [run] at hn
    cases hn
  · rename_i h hs r hr
    rw [run] at hr
    obtain ⟨hl, rfl⟩ := Prod.mk.inj hr
    rw [← hl, hc]

theorem readEscaped_digit {c : Char} (h : c.isDigit = true) (t : Text) :
    readEscaped ('\\' :: hexadecimal c.toNat ++ [' '] ++ t) =
      (c :: (readEscaped t).1, (readEscaped t).2) := by
  have space : ∀ d ∈ (' ' :: t).head?, isHexDigit d = false := by
    intro d hd
    obtain rfl := Option.some.inj hd
    decide
  rw [List.append_assoc, List.singleton_append, readEscaped_code h space]
  rfl

/-- The escape of a name is read as the name, and reading goes on after it. -/
theorem readEscaped_escape (name t : Text) :
    readEscaped (escape name ++ t) = (name ++ (readEscaped t).1, (readEscaped t).2) := by
  cases name with
  | nil => rfl
  | cons c name =>
    rw [escape, List.append_assoc]
    split
    · rename_i h
      rw [readEscaped_digit h, readEscaped_flatMap_escapeChar]
      rfl
    · rw [readEscaped_escapeChar, readEscaped_flatMap_escapeChar]
      rfl

theorem escapedName?_escape {name : Text} (h : name ≠ []) :
    escapedName? (escape name) = some (name, []) := by
  have read := readEscaped_escape name []
  have none : readEscaped [] = ([], []) := by rw [readEscaped]
  rw [none, List.append_nil, List.append_nil] at read
  exact escapedName?_eq_some_iff.mpr ⟨h, read⟩

def HidesDots (t : Text) : Prop := ∀ u v, t = u ++ '.' :: v → escapes false u = true

theorem HidesDots.of_not_mem {t : Text} (h : '.' ∉ t) : HidesDots t := by
  rintro u v rfl
  simp at h

theorem HidesDots.append {a b : Text} (paired : Paired a) (ha : HidesDots a) (hb : HidesDots b) :
    HidesDots (a ++ b) := by
  intro u v h
  rcases List.append_eq_append_iff.mp h with ⟨w, rfl, hw⟩ | ⟨w, hw, hv⟩
  · rw [escapes_append, paired]
    exact hb w v hw
  · cases w with
    | nil => cases hb [] v hv.symm
    | cons d w =>
      obtain ⟨rfl, -⟩ := List.cons.inj hv
      exact ha u w hw

theorem escapeChar_hides (c : Char) : Paired (escapeChar c) ∧ HidesDots (escapeChar c) := by
  rw [escapeChar]
  split
  · rename_i h
    refine ⟨.cons (isEscapedNameChar_of_plain h).1 rfl, .of_not_mem ?_⟩
    intro hd
    obtain rfl := List.mem_singleton.mp hd
    exact absurd h (by decide)
  · refine ⟨paired_escaped c, ?_⟩
    intro u v h
    cases u with
    | nil =>
      obtain ⟨hb, -⟩ := List.cons.inj h
      exact absurd hb (by decide)
    | cons d u =>
      obtain ⟨rfl, hu⟩ := List.cons.inj h
      cases u with
      | nil => rfl
      | cons e u =>
        obtain ⟨-, hu⟩ := List.cons.inj hu
        simp at hu

theorem flatMap_escapeChar_hides (t : Text) :
    Paired (t.flatMap escapeChar) ∧ HidesDots (t.flatMap escapeChar) := by
  induction t with
  | nil => exact ⟨rfl, .of_not_mem (by simp)⟩
  | cons c t ih =>
    obtain ⟨paired, hides⟩ := escapeChar_hides c
    exact ⟨paired.append ih.1, hides.append paired ih.2⟩

theorem digit_hides {c : Char} (h : c.isDigit = true) :
    Paired ('\\' :: hexadecimal c.toNat ++ [' ']) ∧
      HidesDots ('\\' :: hexadecimal c.toNat ++ [' ']) := by
  refine ⟨paired_concat (by decide) _, .of_not_mem ?_⟩
  have digits : ∀ n : Fin 10, '.' ∉ '\\' :: hexadecimal (48 + n) ++ [' '] := by decide
  obtain ⟨n, hn⟩ := exists_of_isDigit h
  rw [hn]
  exact digits n

theorem escape_hides (name : Text) : HidesDots (escape name) := by
  cases name with
  | nil => exact .of_not_mem (by simp [escape])
  | cons c t =>
    obtain ⟨-, rest⟩ := flatMap_escapeChar_hides t
    rw [escape]
    split
    · rename_i h
      exact (digit_hides h).2.append (digit_hides h).1 rest
    · exact (escapeChar_hides c).2.append (escapeChar_hides c).1 rest

end UtilityLayer.Css
