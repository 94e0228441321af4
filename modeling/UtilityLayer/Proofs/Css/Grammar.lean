import Mathlib.Data.List.Induction
import UtilityLayer.Proofs.Css.Reading

/-!
# The grammar of stylesheets

Stylesheets as a grammar, without a reader: signs, heads, bodies, statements and
runs of statements. A stylesheet is read exactly when it is a run of statements
with blanks after it, and the two ways to fail are told apart by what follows
the longest run.
-/

set_option autoImplicit false

namespace UtilityLayer.Css

open Text

/-- The rest of a string after its opening quote `q`. -/
inductive StringRest (q : Char) : Text → Prop
  | close : StringRest q [q]
  | escape (c : Char) {t : Text} (rest : StringRest q t) : StringRest q ('\\' :: c :: t)
  | char {c : Char} {t : Text} (inside : c ≠ q) (bare : c ≠ '\\') (rest : StringRest q t) :
      StringRest q (c :: t)

instance decidableStringRest (q : Char) : (t : Text) → Decidable (StringRest q t)
  | [] => isFalse nofun
  | [c] => decidable_of_iff (c = q) ⟨fun h => h ▸ .close, by
      intro h
      cases h with
      | close => rfl
      | char _ _ rest => cases rest⟩
  | c :: d :: t =>
    have inner := decidableStringRest q t
    have next := decidableStringRest q (d :: t)
    if hb : c = '\\' then
      decidable_of_iff (StringRest q t) ⟨fun h => hb ▸ .escape d h, by
        intro h
        cases h with
        | escape _ rest => exact rest
        | char _ bare _ => exact absurd hb bare⟩
    else
      decidable_of_iff (c ≠ q ∧ StringRest q (d :: t)) ⟨fun h => .char h.1 hb h.2, by
        intro h
        cases h with
        | escape => exact absurd rfl hb
        | char inside _ rest => exact ⟨inside, rest⟩⟩

/-- A character that stands for itself, an escape or a whole string. -/
inductive Sign : Text → Prop
  | plain {c : Char} (bare : c ≠ '\\') (unquoted : isQuote c = false) : Sign [c]
  | escape (c : Char) : Sign ['\\', c]
  | string {q : Char} {t : Text} (quote : isQuote q = true) (rest : StringRest q t) : Sign (q :: t)

inductive Signs : Text → Prop
  | nil : Signs []
  | cons {a t : Text} (sign : Sign a) (rest : Signs t) : Signs (a ++ t)

/-- Signs without a brace or a semicolon among them. -/
inductive HeadText : Text → Prop
  | nil : HeadText []
  | cons {a t : Text} (sign : Sign a) (opening : a ≠ ['{']) (ending : a ≠ [';'])
      (closing : a ≠ ['}']) (rest : HeadText t) : HeadText (a ++ t)

/-- Signs among which the braces balance. -/
inductive BodyText : Text → Prop
  | nil : BodyText []
  | cons {a t : Text} (sign : Sign a) (opening : a ≠ ['{']) (closing : a ≠ ['}'])
      (rest : BodyText t) : BodyText (a ++ t)
  | block {a t : Text} (inner : BodyText a) (rest : BodyText t) :
      BodyText ('{' :: (a ++ '}' :: t))

/-- A head that does not begin with a gap and is not empty. -/
def Leads (head : Text) : Prop := HeadText head ∧ ∃ c t, head = c :: t ∧ isGap c = false

/-- A text that is one statement, with the gap before it. -/
inductive Spells : Text → Statement → Prop
  | bare {gap head : Text} (blank : gap.all isGap = true) (leads : Leads head) :
      Spells (gap ++ (head ++ [';'])) (.bare (trim head))
  | block {gap head body : Text} (blank : gap.all isGap = true) (leads : Leads head)
      (inner : BodyText body) :
      Spells (gap ++ (head ++ '{' :: (body ++ ['}']))) (.block (trim head) body)

inductive SpellsAll : Text → List Statement → Prop
  | nil : SpellsAll [] []
  | cons {a t : Text} {st : Statement} {sts : List Statement} (first : Spells a st)
      (rest : SpellsAll t sts) : SpellsAll (a ++ t) (st :: sts)

/-- The text is a run of statements and a rest, and no run of statements in front
of it is longer. -/
structure LongestRun (t : Text) (sts : List Statement) (rest : Text) : Prop where
  run : ∃ a, t = a ++ rest ∧ SpellsAll a sts
  longest : ∀ a sts' rest', t = a ++ rest' → SpellsAll a sts' → rest.length ≤ rest'.length

/-- A head and a brace that no brace closes. -/
def Dangles (t : Text) : Prop :=
  ∃ gap head after, t = gap ++ (head ++ '{' :: after) ∧ gap.all isGap = true ∧ Leads head ∧
    ∀ body rest, after = body ++ '}' :: rest → ¬ BodyText body

/-- A run of statements with blanks after it. -/
def IsSheet (t : Text) (sts : List Statement) : Prop :=
  ∃ run rest, t = run ++ rest ∧ SpellsAll run sts ∧ isBlankText rest = true

/-- A block that is never closed stands after the longest run. -/
def BreaksOff (t place : Text) : Prop :=
  ∃ sts rest, LongestRun t sts rest ∧ Dangles rest ∧ place = excerpt (skipGap rest)

section Signs

variable {q c : Char} {a t : Text}

theorem endsHead_eq_false_iff : endsHead c = false ↔ c ≠ '{' ∧ c ≠ ';' ∧ c ≠ '}' := by
  simp [endsHead, and_assoc]

theorem isQuote_ne_backslash (h : isQuote q = true) : q ≠ '\\' := by
  rintro rfl
  cases h

theorem isBlank_of_isQuote (h : isQuote q = true) : isBlank q = false := by
  simp only [isQuote, Bool.or_eq_true, beq_iff_eq] at h
  rcases h with rfl | rfl <;> decide

theorem StringRest.getLast? (h : StringRest q t) : t.getLast? = some q := by
  induction h with
  | close => rfl
  | escape c rest ih => simp [List.getLast?_cons, ih]
  | char inside bare rest ih => simp [List.getLast?_cons, ih]

theorem StringRest.passes (h : StringRest q t) (quote : isQuote q = true) (stop : Char → Bool) :
    avoids stop { quote := some q } t = true ∧ ({ quote := some q } : Scan).run t = .outside := by
  have bareQuote := isQuote_ne_backslash quote
  induction h with
  | close => simp [avoids, Scan.free, Scan.run, Scan.step, bareQuote]
  | escape c rest ih => simpa [avoids, Scan.free, Scan.run, Scan.step] using ih
  | char inside bare rest ih => simpa [avoids, Scan.free, Scan.run, Scan.step, inside, bare] using ih

theorem Sign.passes (h : Sign a) :
    Scan.outside.run a = .outside ∧
      ((∃ c, a = [c] ∧ Scan.outside.free c = true) ∨
        ∀ stop, avoids stop .outside a = true) := by
  cases h with
  | plain bare unquoted =>
    have free := Scan.free_outside bare unquoted
    exact ⟨Scan.step_of_free free, .inl ⟨_, rfl, free⟩⟩
  | escape c =>
    refine ⟨?_, .inr fun stop => ?_⟩
    · simp [Scan.run, Scan.step, Scan.outside]
    · simp [avoids, Scan.free, Scan.step, Scan.outside]
  | @string q t quote rest =>
    have opened : Scan.outside.step q = { quote := some q } := by
      simp [Scan.step, Scan.outside, isQuote_ne_backslash quote, quote]
    refine ⟨?_, .inr fun stop => ?_⟩
    · show (Scan.outside.step q).run t = .outside
      rw [opened]
      exact (rest.passes quote endsHead).2
    · rw [avoids, opened, (rest.passes quote stop).1]
      simp [Scan.free, quote]

theorem Sign.nonempty (h : Sign a) : a ≠ [] := by
  cases h <;> simp

theorem exists_stringRest (quote : isQuote q = true) {t : Text}
    (h : ({ quote := some q } : Scan).run t = .outside) :
    ∃ a u, t = a ++ u ∧ StringRest q a ∧ Scan.outside.run u = .outside := by
  induction t using List.twoStepInduction with
  | nil => simp [Scan.run, Scan.outside] at h
  | singleton c =>
    obtain rfl : c = q := by
      by_contra hc
      simp [Scan.run, Scan.step, Scan.outside, hc] at h
      split at h <;> simp at h
    exact ⟨[c], [], rfl, .close, rfl⟩
  | cons_cons c d t escaped next =>
    by_cases hb : c = '\\'
    · subst hb
      obtain ⟨a, u, rfl, ha, hu⟩ := escaped h
      exact ⟨'\\' :: d :: a, u, rfl, .escape d ha, hu⟩
    · have step : ({ quote := some q } : Scan).step c =
          if c = q then .outside else { quote := some q } := by simp [Scan.step, hb]
      change (Scan.step _ c).run (d :: t) = .outside at h
      rw [step] at h
      by_cases hc : c = q
      · rw [if_pos hc] at h
        exact ⟨[c], d :: t, rfl, hc ▸ .close, h⟩
      · rw [if_neg hc] at h
        obtain ⟨a, u, hd, ha, hu⟩ := next d h
        exact ⟨c :: a, u, by rw [hd, List.cons_append], .char hc hb ha, hu⟩

theorem exists_sign (h : Scan.outside.run (c :: t) = .outside) :
    ∃ a u, c :: t = a ++ u ∧ Sign a ∧ Scan.outside.run u = .outside := by
  by_cases hb : c = '\\'
  · subst hb
    cases t with
    | nil => simp [Scan.run, Scan.step, Scan.outside] at h
    | cons d u => exact ⟨['\\', d], u, rfl, .escape d, h⟩
  · cases hq : isQuote c with
    | false =>
      refine ⟨[c], t, rfl, .plain hb hq, ?_⟩
      change (Scan.outside.step c).run t = .outside at h
      rwa [Scan.step_of_free (Scan.free_outside hb hq)] at h
    | true =>
      have opened : Scan.outside.step c = { quote := some c } := by
        simp [Scan.step, Scan.outside, hb, hq]
      change (Scan.outside.step c).run t = .outside at h
      rw [opened] at h
      obtain ⟨a, u, rfl, ha, hu⟩ := exists_stringRest hq h
      exact ⟨c :: a, u, rfl, .string hq ha, hu⟩

theorem signs_of_outside (h : Scan.outside.run t = .outside) : Signs t := by
  induction hn : t.length using Nat.strongRecOn generalizing t with
  | ind n ih =>
    cases t with
    | nil => exact .nil
    | cons c t =>
      obtain ⟨a, u, ht, ha, hu⟩ := exists_sign h
      have hl := congrArg List.length ht
      have hp := List.length_pos_iff.mpr ha.nonempty
      rw [List.length_append] at hl
      rw [ht]
      exact .cons ha (ih u.length (by omega) hu rfl)

end Signs

section Bodies

variable {a t : Text} {depth : Nat}

theorem Sign.avoids_iff (h : Sign a) :
    avoids endsHead .outside a = true ↔ a ≠ ['{'] ∧ a ≠ [';'] ∧ a ≠ ['}'] := by
  obtain ⟨-, ⟨c, rfl, free⟩ | hidden⟩ := h.passes
  · simp [avoids, free, endsHead_eq_false_iff]
  · refine iff_of_true (hidden endsHead) ⟨?_, ?_, ?_⟩ <;>
      · rintro rfl
        exact absurd (hidden endsHead) (by decide)

theorem headText_iff :
    HeadText t ↔ avoids endsHead .outside t = true ∧ Scan.outside.run t = .outside := by
  constructor
  · intro h
    induction h with
    | nil => exact ⟨rfl, rfl⟩
    | @cons a t sign opening ending closing rest ih =>
      rw [avoids_append, Scan.run_append, sign.passes.1, ih.1,
        sign.avoids_iff.mpr ⟨opening, ending, closing⟩]
      exact ⟨rfl, ih.2⟩
  · rintro ⟨ha, ho⟩
    induction signs_of_outside ho with
    | nil => exact .nil
    | cons sign rest ih =>
      rw [avoids_append, sign.passes.1, Bool.and_eq_true] at ha
      rw [Scan.run_append, sign.passes.1] at ho
      obtain ⟨opening, ending, closing⟩ := sign.avoids_iff.mp ha.1
      exact .cons sign opening ending closing (ih ha.2 ho)

theorem opens_iff : Opens t ↔ t ≠ [] ∧ HeadText t := by
  rw [headText_iff]
  constructor
  · intro h
    exact ⟨h.nonempty, h.avoids, h.outside⟩
  · rintro ⟨nonempty, avoids, outside⟩
    exact ⟨nonempty, avoids, outside⟩

theorem Sign.nesting_eq (h : Sign a) (opening : a ≠ ['{']) (closing : a ≠ ['}']) (depth : Nat) :
    nesting depth .outside a = some depth := by
  obtain ⟨-, ⟨c, rfl, free⟩ | hidden⟩ := h.passes
  · have ho : c ≠ '{' := fun hc => opening (hc ▸ rfl)
    have hc : c ≠ '}' := fun hc => closing (hc ▸ rfl)
    simp [nesting, ho, hc]
  · exact nesting_of_avoids (hidden endsHead)

/-- What is left of a body in which `depth` blocks are open. -/
inductive BodyRest : Nat → Text → Prop
  | last {t : Text} (body : BodyText t) : BodyRest 0 t
  | closing {depth : Nat} {a t : Text} (body : BodyText a) (rest : BodyRest depth t) :
      BodyRest (depth + 1) (a ++ '}' :: t)

theorem BodyRest.cons (sign : Sign a) (opening : a ≠ ['{']) (closing : a ≠ ['}'])
    (h : BodyRest depth t) : BodyRest depth (a ++ t) := by
  cases h with
  | last body => exact .last (.cons sign opening closing body)
  | closing body rest =>
    rw [← List.append_assoc]
    exact .closing (.cons sign opening closing body) rest

theorem BodyRest.block (h : BodyRest (depth + 1) t) : BodyRest depth ('{' :: t) := by
  cases h with
  | closing inner rest =>
    cases rest with
    | last body => exact .last (.block inner body)
    | @closing depth b t body rest =>
      have joined := BodyRest.closing (.block inner body) rest
      rwa [List.cons_append, List.append_assoc, List.cons_append] at joined

theorem bodyRest_of_nesting (signs : Signs t) (h : nesting depth .outside t = some 0) :
    BodyRest depth t := by
  induction signs generalizing depth with
  | nil =>
    obtain rfl : depth = 0 := Option.some.inj h
    exact .last .nil
  | @cons a t sign rest ih =>
    rw [nesting_append, sign.passes.1] at h
    by_cases opening : a = ['{']
    · subst opening
      exact (ih h).block
    by_cases closing : a = ['}']
    · subst closing
      cases depth with
      | zero => cases h
      | succ depth => exact .closing .nil (ih h)
    rw [sign.nesting_eq opening closing] at h
    exact .cons sign opening closing (ih h)

theorem closes_iff : Closes t ↔ BodyText t := by
  constructor
  · intro h
    cases bodyRest_of_nesting (signs_of_outside h.outside) h.nesting with
    | last body => exact body
  · intro h
    induction h with
    | nil => exact .nil
    | cons sign opening closing rest ih =>
      exact Closes.append ⟨sign.nesting_eq opening closing 0, sign.passes.1⟩ ih
    | @block a t inner rest ih₁ ih₂ =>
      have joined := ih₁.braces.append ih₂
      rwa [List.cons_append, List.append_assoc] at joined

end Bodies

section Sheets

variable {t u a run rest : Text} {st : Statement} {sts : List Statement}

theorem skipGap_leads_iff {head : Text} :
    Opens head ∧ skipGap t = head ++ u ↔
      Leads head ∧ ∃ gap : Text, gap.all isGap = true ∧ t = gap ++ (head ++ u) := by
  rw [opens_iff]
  constructor
  · rintro ⟨⟨nonempty, signs⟩, hs⟩
    obtain ⟨c, v, rfl⟩ := List.exists_cons_of_ne_nil nonempty
    obtain ⟨hc, gap, hg, ht⟩ := skipGap_eq_cons_iff.mp hs
    exact ⟨⟨signs, c, v, rfl, hc⟩, gap, hg, ht⟩
  · rintro ⟨⟨signs, c, v, rfl, hc⟩, gap, hg, ht⟩
    exact ⟨⟨by simp, signs⟩, skipGap_eq_cons_iff.mpr ⟨hc, gap, hg, ht⟩⟩

/-- What is read in front of a text is the statement that it begins with. -/
theorem readItem_eq_read_iff :
    readItem (skipGap t) = .read st rest ↔ ∃ a, t = a ++ rest ∧ Spells a st := by
  cases st with
  | bare title =>
    rw [readItem_eq_bare_iff]
    constructor
    · rintro ⟨head, opens, rfl, hs⟩
      obtain ⟨leads, gap, blank, rfl⟩ := skipGap_leads_iff.mp ⟨opens, hs⟩
      exact ⟨_, by simp, .bare blank leads⟩
    · rintro ⟨a, rfl, spells⟩
      cases spells with
      | @bare gap head blank leads =>
        obtain ⟨opens, hs⟩ := skipGap_leads_iff.mpr ⟨leads, gap, blank, rfl⟩
        exact ⟨head, opens, rfl, by simpa using hs⟩
  | block title body =>
    rw [readItem_eq_block_iff]
    constructor
    · rintro ⟨head, opens, closes, rfl, hs⟩
      obtain ⟨leads, gap, blank, rfl⟩ := skipGap_leads_iff.mp ⟨opens, hs⟩
      exact ⟨_, by simp, .block blank leads (closes_iff.mp closes)⟩
    · rintro ⟨a, rfl, spells⟩
      cases spells with
      | @block gap head body blank leads inner =>
        obtain ⟨opens, hs⟩ := skipGap_leads_iff.mpr ⟨leads, gap, blank, rfl⟩
        exact ⟨head, opens, closes_iff.mpr inner, rfl, by simpa using hs⟩

theorem readItem_eq_unclosed_iff_dangles : readItem (skipGap t) = .unclosed ↔ Dangles t := by
  rw [readItem_eq_unclosed_iff]
  constructor
  · rintro ⟨head, after, opens, hs, unmatched⟩
    obtain ⟨leads, gap, blank, rfl⟩ := skipGap_leads_iff.mp ⟨opens, hs⟩
    exact ⟨gap, head, after, rfl, blank, leads,
      fun body rest ht inner => unmatched body rest ht (closes_iff.mpr inner)⟩
  · rintro ⟨gap, head, after, rfl, blank, leads, unmatched⟩
    obtain ⟨opens, hs⟩ := skipGap_leads_iff.mpr ⟨leads, gap, blank, rfl⟩
    exact ⟨head, after, opens, hs,
      fun body rest ht closes => unmatched body rest ht (closes_iff.mp closes)⟩

theorem readItem_of_blank (h : isBlankText t = true) : readItem (skipGap t) = .absent := by
  have blank {c : Char} (hc : c ∈ skipGap t) : isBlank c = true :=
    List.all_eq_true.mp h c (List.dropWhile_sublist isGap |>.mem hc)
  by_contra hn
  obtain ⟨head, rest, -, hs | hs⟩ := exists_head hn
  · exact absurd (blank (c := ';') (by simp [hs])) (by decide)
  · exact absurd (blank (c := '{') (by simp [hs])) (by decide)

theorem readItems_of_spellsAll (h : SpellsAll run sts) :
    readItems (run ++ rest) = (readItems rest).map fun p => (sts ++ p.1, p.2) := by
  induction h with
  | nil =>
    rw [List.nil_append]
    cases readItems rest <;> rfl
  | @cons a run st sts first others ih =>
    have hi : readItem (skipGap (a ++ (run ++ rest))) = .read st (run ++ rest) :=
      readItem_eq_read_iff.mpr ⟨a, rfl, first⟩
    rw [List.append_assoc, readItems_of_read hi, ih]
    cases readItems rest <;> rfl

theorem SpellsAll.concat (h : SpellsAll run sts) (last : Spells a st) :
    SpellsAll (run ++ a) (sts ++ [st]) := by
  induction h with
  | nil => simpa using SpellsAll.cons last .nil
  | cons first others ih =>
    rw [List.append_assoc]
    exact .cons first ih

theorem length_le_of_stops (h : SpellsAll run sts)
    (stops : ∀ st u, readItem (skipGap rest) ≠ .read st u) {run' rest' : Text}
    {sts' : List Statement} (h' : SpellsAll run' sts') (same : run ++ rest = run' ++ rest') :
    rest.length ≤ rest'.length := by
  induction h' generalizing run sts with
  | nil =>
    rw [List.nil_append] at same
    rw [← same, List.length_append]
    omega
  | @cons a' run' st' sts' first' others' ih =>
    rw [List.append_assoc] at same
    have hi' := readItem_eq_read_iff.mpr ⟨a', same, first'⟩
    cases h with
    | nil => exact absurd hi' (stops _ _)
    | @cons a run st sts first others =>
      have hi := readItem_eq_read_iff.mpr ⟨a, List.append_assoc a run rest, first⟩
      obtain ⟨-, next⟩ := Item.read.inj (hi.symm.trans hi')
      exact ih others next

theorem longestRun_iff :
    LongestRun t sts rest ↔ ∃ run, t = run ++ rest ∧ SpellsAll run sts ∧
      ∀ st u, readItem (skipGap rest) ≠ .read st u := by
  constructor
  · rintro ⟨⟨run, rfl, h⟩, longest⟩
    refine ⟨run, rfl, h, fun st u hi => ?_⟩
    obtain ⟨a, rfl, last⟩ := readItem_eq_read_iff.mp hi
    have shorter := readItem_skipGap_length hi
    have longer := longest (run ++ a) _ u (List.append_assoc ..).symm (h.concat last)
    omega
  · rintro ⟨run, rfl, h, stops⟩
    exact ⟨⟨run, rfl, h⟩, fun _ _ _ same h' => length_le_of_stops h stops h' same⟩

theorem exists_longestRun (t : Text) : ∃ sts rest, LongestRun t sts rest := by
  induction hn : t.length using Nat.strongRecOn generalizing t with
  | ind n ih =>
    by_cases stops : ∀ st u, readItem (skipGap t) ≠ .read st u
    · exact ⟨[], t, longestRun_iff.mpr ⟨[], rfl, .nil, stops⟩⟩
    · push Not at stops
      obtain ⟨st, u, hi⟩ := stops
      have shorter := readItem_skipGap_length hi
      obtain ⟨a, rfl, first⟩ := readItem_eq_read_iff.mp hi
      obtain ⟨sts, rest, longest⟩ := ih u.length (by omega) u rfl
      obtain ⟨run, rfl, others, stops⟩ := longestRun_iff.mp longest
      exact ⟨st :: sts, rest, longestRun_iff.mpr
        ⟨a ++ run, (List.append_assoc ..).symm, .cons first others, stops⟩⟩

/-- The longest run is read, and fails only at a block that is never closed. -/
theorem LongestRun.readItems (h : LongestRun t sts rest) :
    (Dangles rest ∧ Css.readItems t = .error (.unclosed (excerpt (skipGap rest)))) ∨
      (¬ Dangles rest ∧ Css.readItems t = .ok (sts, rest)) := by
  obtain ⟨run, rfl, spells, stops⟩ := longestRun_iff.mp h
  rw [readItems_of_spellsAll spells, ← readItem_eq_unclosed_iff_dangles]
  cases hi : readItem (skipGap rest) with
  | read st u => exact absurd hi (stops st u)
  | absent => simp [readItems_of_absent hi, Except.map]
  | unclosed => simp [readItems_of_unclosed hi, Except.map]

end Sheets

theorem IsSheet.longestRun {t : Text} {sts : List Statement} (h : IsSheet t sts) :
    ∃ rest, LongestRun t sts rest ∧ ¬ Dangles rest ∧ isBlankText rest = true := by
  obtain ⟨run, rest, rfl, spells, blank⟩ := h
  have absent := readItem_of_blank blank
  refine ⟨rest, longestRun_iff.mpr ⟨run, rfl, spells, by simp [absent]⟩, ?_, blank⟩
  simp [← readItem_eq_unclosed_iff_dangles, absent]

theorem readSheet_eq_ok_iff_isSheet {t : Text} {sts : List Statement} :
    readSheet t = .ok sts ↔ IsSheet t sts := by
  rw [readSheet_eq_ok_iff]
  constructor
  · rintro ⟨rest, hi, blank⟩
    obtain ⟨sts', rest', longest⟩ := exists_longestRun t
    obtain ⟨-, hf⟩ | ⟨-, hr⟩ := longest.readItems
    · rw [hi] at hf
      cases hf
    · obtain ⟨rfl, rfl⟩ := Prod.mk.inj (Except.ok.inj (hi.symm.trans hr))
      obtain ⟨run, ht, spells⟩ := longest.run
      exact ⟨run, rest, ht, spells, blank⟩
  · intro h
    obtain ⟨rest, longest, closed, blank⟩ := h.longestRun
    obtain ⟨dangles, -⟩ | ⟨-, hr⟩ := longest.readItems
    · exact absurd dangles closed
    · exact ⟨rest, hr, blank⟩

theorem readSheet_eq_unclosed_iff {t place : Text} :
    readSheet t = .error (.unclosed place) ↔ BreaksOff t place := by
  rw [readSheet]
  constructor
  · intro h
    obtain ⟨sts, rest, longest⟩ := exists_longestRun t
    obtain ⟨dangles, hf⟩ | ⟨-, hr⟩ := longest.readItems
    · rw [hf] at h
      exact ⟨sts, rest, longest, dangles, by simpa using h.symm⟩
    · simp only [hr] at h
      split at h <;> simp at h
  · rintro ⟨sts, rest, longest, dangles, rfl⟩
    obtain ⟨-, hf⟩ | ⟨closed, -⟩ := longest.readItems
    · rw [hf]
    · exact absurd dangles closed

/-- Reading accepts the stylesheets and reads each as what it spells. It fails at a
block that is never closed exactly when the longest run ends there, and at an
unexpected place in every other case. -/
theorem readSheet_grammar (t : Text) :
    (∀ sts, readSheet t = .ok sts ↔ IsSheet t sts) ∧
      (∀ place, readSheet t = .error (.unclosed place) ↔ BreaksOff t place) ∧
      ((∃ place, readSheet t = .error (.unexpected place)) ↔
        (∀ sts, ¬ IsSheet t sts) ∧ ∀ place, ¬ BreaksOff t place) := by
  refine ⟨fun _ => readSheet_eq_ok_iff_isSheet, fun _ => readSheet_eq_unclosed_iff, ?_⟩
  simp only [← readSheet_eq_ok_iff_isSheet, ← readSheet_eq_unclosed_iff]
  cases readSheet t with
  | ok sts => simp
  | error e => cases e <;> simp

end UtilityLayer.Css
