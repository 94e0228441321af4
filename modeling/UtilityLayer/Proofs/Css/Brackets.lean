import UtilityLayer.Proofs.Css.Escape
import UtilityLayer.Proofs.Css.Grammar
import UtilityLayer.Proofs.Css.Split

/-!
# Texts whose brackets close

A text is balanced when none of its free brackets closes more than it opens and
none is open at its end. It is read between brackets as it is read alone, and it
ends in front of a closing bracket at one place only. Names, escaped names and
strings have no free bracket and no free comma at all.
-/

set_option autoImplicit false

namespace UtilityLayer.Css

open Text

def closesOwn : Level → Text → Bool
  | _, [] => true
  | l, c :: t => !(l.scan.free c && isClosing c && l.depth == 0) && closesOwn (l.step c) t

theorem closesOwn_append (l : Level) (a b : Text) :
    closesOwn l (a ++ b) = (closesOwn l a && closesOwn (l.run a) b) := by
  induction a generalizing l with
  | nil => rfl
  | cons c a ih => simp [closesOwn, ih, Level.run, Bool.and_assoc]

structure Balanced (t : Text) : Prop where
  closes : closesOwn .top t = true
  top : Level.top.run t = .top

theorem Balanced.nil : Balanced [] := ⟨rfl, rfl⟩

theorem Balanced.append {a b : Text} (ha : Balanced a) (hb : Balanced b) : Balanced (a ++ b) where
  closes := by rw [closesOwn_append, ha.closes, ha.top, hb.closes]; rfl
  top := by rw [Level.run_append, ha.top, hb.top]

theorem Balanced.not_closed {a : Text} (ha : Balanced a) (w : Text) : ¬ Balanced (a ++ ')' :: w) := by
  intro h
  have closes := h.closes
  have none : closesOwn .top (')' :: w) = false := rfl
  rw [closesOwn_append, ha.closes, ha.top, none] at closes
  cases closes

/-- A balanced text ends in front of one closing bracket only. -/
theorem Balanced.unique {a b r s : Text} (ha : Balanced a) (hb : Balanced b)
    (same : a ++ ')' :: r = b ++ ')' :: s) : a = b := by
  rcases List.append_eq_append_iff.mp same with ⟨w, rfl, hw⟩ | ⟨w, rfl, hw⟩
  · cases w with
    | nil => rw [List.append_nil]
    | cons d w =>
      obtain ⟨rfl, -⟩ := List.cons.inj hw
      exact absurd hb (ha.not_closed w)
  · cases w with
    | nil => rw [List.append_nil]
    | cons d w =>
      obtain ⟨rfl, -⟩ := List.cons.inj hw
      exact absurd ha (hb.not_closed w)

section Depth

variable {l : Level} {c : Char} {t : Text}

def Level.under (k : Nat) (l : Level) : Level := { l with depth := l.depth + k }

theorem Level.step_under (h : (l.scan.free c && isClosing c && l.depth == 0) = false) (k : Nat) :
    (l.under k).step c = (l.step c).under k := by
  by_cases opening : (l.scan.free c && isOpening c) = true
  · simp only [under, step, opening, if_true, Level.mk.injEq, true_and]
    omega
  · by_cases closing : (l.scan.free c && isClosing c) = true
    · rw [closing, Bool.true_and, beq_eq_false_iff_ne] at h
      simp only [under, step, opening, closing, if_true, if_false, Bool.false_eq_true,
        Level.mk.injEq, true_and]
      omega
    · simp [under, step, opening, closing]

theorem Level.run_under (h : closesOwn l t = true) (k : Nat) :
    (l.under k).run t = (l.run t).under k := by
  induction t generalizing l with
  | nil => rfl
  | cons c t ih =>
    simp only [closesOwn, Bool.and_eq_true, Bool.not_eq_true'] at h
    show ((l.under k).step c).run t = ((l.step c).run t).under k
    rw [step_under h.1, ih h.2]

theorem closesOwn_under (h : closesOwn l t = true) (k : Nat) : closesOwn (l.under k) t = true := by
  induction t generalizing l with
  | nil => rfl
  | cons c t ih =>
    simp only [closesOwn, Bool.and_eq_true, Bool.not_eq_true'] at h ⊢
    rw [Level.step_under h.1]
    refine ⟨?_, ih h.2⟩
    rw [Level.under, Bool.eq_false_iff]
    intro last
    simp only [Bool.and_eq_true, beq_iff_eq] at last
    simp [last.1.1, last.1.2] at h
    omega

theorem uncut_under (h : closesOwn l t = true) (separator : Char) (k : Nat) :
    uncut separator (l.under (k + 1)) t = true := by
  induction t generalizing l with
  | nil => rfl
  | cons c t ih =>
    simp only [closesOwn, Bool.and_eq_true, Bool.not_eq_true'] at h
    rw [uncut, Level.step_under h.1, ih h.2]
    simp [Level.cuts, Level.under]

end Depth

theorem Scan.escaped_run (s : Scan) (t : Text) : (s.run t).escaped = escapes s.escaped t := by
  induction t generalizing s with
  | nil => rfl
  | cons c t ih =>
    have step : (s.step c).escaped = (!s.escaped && c == '\\') := by
      obtain ⟨escaped, quote⟩ := s
      cases escaped with
      | true => simp [step]
      | false =>
        by_cases hb : c = '\\'
        · simp [step, hb]
        · cases quote with
          | none => by_cases hq : isQuote c = true <;> simp [step, hb, hq]
          | some q =>
            simp only [step, hb, if_false, Bool.false_eq_true, beq_false_of_ne hb]
            split <;> rfl
    show ((s.step c).run t).escaped = escapes (!s.escaped && c == '\\') t
    rw [ih, step]

/-- A balanced text without an outer comma. -/
structure Whole (t : Text) : Prop extends Solid t where
  closes : closesOwn .top t = true

namespace Whole

variable {a b t : Text}

theorem balanced (h : Whole t) : Balanced t := ⟨h.closes, h.top⟩

theorem paired (h : Whole t) : Paired t := by
  have last := Scan.escaped_run .outside t
  have run : Scan.outside.run t = .outside := by
    have scan := Level.scan_run .top t
    rw [h.top] at scan
    exact scan.symm
  rw [run] at last
  exact last.symm

theorem nil : Whole [] := ⟨.nil, rfl⟩

theorem append (ha : Whole a) (hb : Whole b) : Whole (a ++ b) :=
  ⟨ha.toSolid.append hb.toSolid, (ha.balanced.append hb.balanced).closes⟩

theorem bracketed (h : Balanced t) {o z : Char} (opening : isOpening o = true)
    (closing : isClosing z = true) : Whole (o :: (t ++ [z])) := by
  have opens : Level.top.run [o] = Level.top.under 1 ∧ uncut ',' .top [o] = true ∧
      closesOwn .top [o] = true := by
    simp only [isOpening, Bool.or_eq_true, beq_iff_eq] at opening
    rcases opening with rfl | rfl <;> decide
  have shuts : (Level.top.under 1).run [z] = .top ∧ uncut ',' (Level.top.under 1) [z] = true ∧
      closesOwn (Level.top.under 1) [z] = true := by
    simp only [isClosing, Bool.or_eq_true, beq_iff_eq] at closing
    rcases closing with rfl | rfl <;> decide
  have inside : (Level.top.under 1).run t = Level.top.under 1 := by
    rw [Level.run_under h.closes, h.top]
  have text : o :: (t ++ [z]) = [o] ++ (t ++ [z]) := rfl
  refine ⟨⟨?_, ?_⟩, ?_⟩
  · rw [text, uncut_append, uncut_append, opens.1, inside, opens.2.1, shuts.2.1,
      uncut_under h.closes]
    rfl
  · rw [text, Level.run_append, Level.run_append, opens.1, inside, shuts.1]
  · rw [text, closesOwn_append, closesOwn_append, opens.1, inside, opens.2.2, shuts.2.2,
      closesOwn_under h.closes]
    rfl

end Whole

def isMark (c : Char) : Bool := isOpening c || isClosing c || c == ','

theorem run_of_avoids {l : Level} {t : Text} (h : avoids isMark l.scan t = true) :
    uncut ',' l t = true ∧ closesOwn l t = true ∧ l.run t = { l with scan := l.scan.run t } := by
  induction t generalizing l with
  | nil => exact ⟨rfl, rfl, rfl⟩
  | cons c t ih =>
    simp only [avoids, Bool.and_eq_true, Bool.not_eq_true'] at h
    obtain ⟨first, rest⟩ := h
    have unmarked : l.scan.free c = true →
        isOpening c = false ∧ isClosing c = false ∧ (c == ',') = false := by
      intro free
      simpa [free, isMark, and_assoc] using first
    have step : l.step c = { l with scan := l.scan.step c } := by
      by_cases free : l.scan.free c = true
      · simp [Level.step, unmarked free]
      · simp [Level.step, free]
    obtain ⟨uncut, closes, run⟩ := ih (l := l.step c) (by rw [step]; exact rest)
    refine ⟨?_, ?_, ?_⟩
    · by_cases free : l.scan.free c = true
      · simp [Css.uncut, Level.cuts, unmarked free, uncut]
      · simp [Css.uncut, Level.cuts, free, uncut]
    · by_cases free : l.scan.free c = true
      · simp [closesOwn, unmarked free, closes]
      · simp [closesOwn, free, closes]
    · show (l.step c).run t = _
      rw [run, step]
      rfl

theorem whole_of_avoids {t : Text} (h : avoids isMark .outside t = true)
    (outside : Scan.outside.run t = .outside) : Whole t := by
  obtain ⟨uncut, closes, run⟩ := run_of_avoids (l := .top) h
  refine ⟨⟨uncut, ?_⟩, closes⟩
  rw [run]
  show (⟨Scan.outside.run t, 0⟩ : Level) = .top
  rw [outside]
  rfl

def isPlain (c : Char) : Bool := c != '\\' && !isQuote c && !isMark c

theorem isPlain_of {p : Char → Bool} {c : Char}
    (h : ['\\', '"', '\'', '(', '[', ')', ']', ','].all (fun d => !p d) = true) (hc : p c = true) :
    isPlain c = true := by
  have not {d : Char} (hd : d ∈ ['\\', '"', '\'', '(', '[', ')', ']', ',']) : c ≠ d := by
    rintro rfl
    have hp := List.all_eq_true.mp h c hd
    simp [hc] at hp
  simp [isPlain, isQuote, isMark, isOpening, isClosing, not]

theorem whole_of_isPlain {c : Char} (h : isPlain c = true) : Whole [c] := by
  simp only [isPlain, Bool.and_eq_true, bne_iff_ne, Bool.not_eq_true'] at h
  obtain ⟨⟨bare, unquoted⟩, unmarked⟩ := h
  apply whole_of_avoids
  · simp [avoids, unmarked]
  · exact Scan.step_of_free (Scan.free_outside bare unquoted)

theorem Whole.of_forall {p : Char → Bool} {t : Text}
    (none : ['\\', '"', '\'', '(', '[', ')', ']', ','].all (fun d => !p d) = true)
    (h : ∀ c ∈ t, p c = true) : Whole t := by
  induction t with
  | nil => exact nil
  | cons c t ih =>
    have first := whole_of_isPlain (isPlain_of none (h c (by simp)))
    exact first.append (ih fun d hd => h d (by simp [hd]))

theorem whole_name {t : Text} (h : ∀ c ∈ t, isNameChar c = true) : Whole t :=
  .of_forall (by decide) h

theorem whole_blank {t : Text} (h : isBlankText t = true) : Whole t :=
  .of_forall (by decide) (List.all_eq_true.mp h)

theorem whole_escaped (c : Char) : Whole ['\\', c] := by
  apply whole_of_avoids
  · simp [avoids, Scan.free, Scan.outside, Scan.step]
  · simp [Scan.run, Scan.outside, Scan.step]

theorem whole_readEscaped (t : Text) :
    ∃ spelling, t = spelling ++ (readEscaped t).2 ∧ Whole spelling := by
  apply readEscaped_spelled (P := Whole) .nil .append whole_escaped
  intro c bare hc
  have plain : isPlain c = true :=
    isPlain_of (p := fun c => c != '\\' && (isEscapedNameChar c || c == ' ')) (by decide)
      (by simpa [bare] using hc)
  exact whole_of_isPlain plain

theorem whole_escape (name : Text) : Whole (escape name) := by
  obtain ⟨spelling, written, whole⟩ := whole_readEscaped (escape name)
  rw [readEscaped_eq_of_escape, List.append_nil] at written
  rw [written]
  exact whole

theorem whole_classSelector (name : Text) : Whole (classSelector name) := by
  have dot : Whole ['.'] := whole_of_isPlain (by decide)
  exact dot.append (whole_escape name)

theorem whole_string {q : Char} {t : Text} (quote : isQuote q = true) (rest : StringRest q t) :
    Whole (q :: t) := by
  have opened : Scan.outside.step q = { quote := some q } := by
    simp [Scan.step, Scan.outside, isQuote_ne_backslash quote, quote]
  obtain ⟨passes, run⟩ := rest.passes quote isMark
  apply whole_of_avoids
  · rw [avoids, opened, passes]
    simp [Scan.free, quote]
  · show (Scan.outside.step q).run t = .outside
    rw [opened, run]

end UtilityLayer.Css
