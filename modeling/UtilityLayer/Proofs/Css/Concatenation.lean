import UtilityLayer.Css.Tree
import UtilityLayer.Proofs.Css.Grammar

/-!
# Stylesheets one after the other

Two stylesheets make one with the statements of both. Blanks at the end of the
first are a gap for the second or the beginning of its first head, and trimming
takes them off again. A block left open behind a stylesheet stays open.
-/

set_option autoImplicit false

namespace UtilityLayer.Css

open Text

variable {a b t : Text} {xs ys : List Statement} {st : Statement}

theorem isCalm_of_isBlank {c : Char} (h : isBlank c = true) : isCalm c = true :=
  isCalm_of (by decide) h

theorem calm_of_blank (h : isBlankText t = true) : t.all isCalm = true :=
  List.all_eq_true.mpr fun c hc => isCalm_of_isBlank (List.all_eq_true.mp h c hc)

theorem blank_of_gap (h : t.all isGap = true) : isBlankText t = true :=
  List.all_eq_true.mpr fun c hc => isBlank_of_isGap (List.all_eq_true.mp h c hc)

theorem closes_of_calm (h : t.all isCalm = true) : Closes t :=
  ⟨nesting_of_avoids (avoids_of_calm h).1, (avoids_of_calm h).2⟩

theorem HeadText.prepend {blank head : Text} (h : isBlankText blank = true)
    (signs : HeadText head) : HeadText (blank ++ head) := by
  obtain ⟨avoided, outside⟩ := avoids_of_calm (calm_of_blank h)
  rw [headText_iff] at signs ⊢
  rw [avoids_append, Scan.run_append, avoided, outside]
  exact ⟨signs.1, signs.2⟩

theorem exists_leads {blank gap head : Text} (hb : isBlankText blank = true)
    (hg : gap.all isGap = true) (leads : Leads head) :
    ∃ gap' head', blank ++ (gap ++ head) = gap' ++ head' ∧ gap'.all isGap = true ∧
      Leads head' ∧ trim head' = trim head := by
  obtain ⟨signs, first⟩ := leads
  have blanks : isBlankText (blank ++ gap) = true := by
    rw [isBlankText, List.all_append, Bool.and_eq_true]
    exact ⟨hb, blank_of_gap hg⟩
  have behind : isBlankText ((blank ++ gap).dropWhile isGap) = true := by
    refine List.all_eq_true.mpr fun c hc => ?_
    exact List.all_eq_true.mp blanks c ((List.dropWhile_sublist isGap).mem hc)
  refine ⟨(blank ++ gap).takeWhile isGap, (blank ++ gap).dropWhile isGap ++ head, ?_,
    List.all_takeWhile, ⟨signs.prepend behind, ?_⟩, trim_prepend behind head⟩
  · rw [← List.append_assoc, ← List.append_assoc, List.takeWhile_append_dropWhile]
  · cases hd : (blank ++ gap).dropWhile isGap with
    | nil => exact first
    | cons c u =>
      have plain := List.head?_dropWhile_not isGap (blank ++ gap)
      rw [hd] at plain
      exact ⟨c, u ++ head, rfl, by simpa using plain⟩

theorem Spells.prepend {blank : Text} (h : isBlankText blank = true) (spells : Spells a st) :
    Spells (blank ++ a) st := by
  cases spells with
  | @bare gap head hg leads =>
    obtain ⟨gap', head', same, hg', leads', title⟩ := exists_leads h hg leads
    have whole : blank ++ (gap ++ (head ++ [';'])) = gap' ++ (head' ++ [';']) := by
      rw [← List.append_assoc gap, ← List.append_assoc blank, same, List.append_assoc]
    rw [whole, ← title]
    exact .bare hg' leads'
  | @block gap head body hg leads inner =>
    obtain ⟨gap', head', same, hg', leads', title⟩ := exists_leads h hg leads
    have whole : blank ++ (gap ++ (head ++ '{' :: (body ++ ['}']))) =
        gap' ++ (head' ++ '{' :: (body ++ ['}'])) := by
      rw [← List.append_assoc gap, ← List.append_assoc blank, same, List.append_assoc]
    rw [whole, ← title]
    exact .block hg' leads' inner

theorem SpellsAll.append (ha : SpellsAll a xs) (hb : SpellsAll b ys) :
    SpellsAll (a ++ b) (xs ++ ys) := by
  induction ha with
  | nil => exact hb
  | cons first rest ih =>
    rw [List.append_assoc]
    exact .cons first ih

theorem IsSheet.append (ha : IsSheet a xs) (hb : IsSheet b ys) : IsSheet (a ++ b) (xs ++ ys) := by
  obtain ⟨run, rest, rfl, spelled, blank⟩ := ha
  obtain ⟨run', rest', rfl, spelled', blank'⟩ := hb
  cases spelled' with
  | nil =>
    refine ⟨run, rest ++ rest', by simp, by simpa using spelled, ?_⟩
    rw [isBlankText, List.all_append, Bool.and_eq_true]
    exact ⟨blank, blank'⟩
  | @cons a t st sts first others =>
    refine ⟨run ++ (rest ++ a ++ t), rest', by simp, ?_, blank'⟩
    exact spelled.append (.cons (first.prepend blank) others)

theorem IsSheet.cons (rest : IsSheet t xs) (first : Spells a st) : IsSheet (a ++ t) (st :: xs) := by
  obtain ⟨run, blank, rfl, spelled, hb⟩ := rest
  exact ⟨a ++ run, blank, (List.append_assoc a run blank).symm, .cons first spelled, hb⟩

theorem isSheet_nil_iff : IsSheet t [] ↔ isBlankText t = true := by
  constructor
  · rintro ⟨run, rest, rfl, spelled, blank⟩
    cases spelled
    exact blank
  · intro blank
    exact ⟨[], t, rfl, .nil, blank⟩

theorem isSheet_cons_iff :
    IsSheet t (st :: xs) ↔ ∃ r, readItem (skipGap t) = .read st r ∧ IsSheet r xs := by
  constructor
  · rintro ⟨run, rest, rfl, spelled, blank⟩
    cases spelled with
    | @cons a u st sts first others =>
      refine ⟨u ++ rest, readItem_eq_read_iff.mpr ⟨a, ?_, first⟩, u, rest, rfl, others, blank⟩
      exact List.append_assoc a u rest
  · rintro ⟨r, read, rest⟩
    obtain ⟨a, rfl, first⟩ := readItem_eq_read_iff.mp read
    exact rest.cons first

theorem readTree_eq_ok_iff {opens : Text → Bool} {ns : List Node} :
    readTree opens t = .ok ns ↔ ∃ sts, IsSheet t sts ∧ ns = sts.map (nodeOf opens) := by
  simp only [readTree_eq, ← readSheet_eq_ok_iff_isSheet]
  cases readSheet t with
  | error e => simp [Except.map]
  | ok sts => simp [Except.map, eq_comm]

/-- The trees of two texts, one after the other. -/
theorem readTree_append {opens : Text → Bool} {ns ms : List Node} (ha : readTree opens a = .ok ns)
    (hb : readTree opens b = .ok ms) : readTree opens (a ++ b) = .ok (ns ++ ms) := by
  obtain ⟨xs, hx, rfl⟩ := readTree_eq_ok_iff.mp ha
  obtain ⟨ys, hy, rfl⟩ := readTree_eq_ok_iff.mp hb
  exact readTree_eq_ok_iff.mpr ⟨xs ++ ys, hx.append hy, List.map_append.symm⟩

theorem IsSheet.append_dangles (h : IsSheet a xs) (dangles : Dangles b) :
    ∃ place, readSheet (a ++ b) = .error (.unclosed place) := by
  obtain ⟨run, rest, rfl, spelled, blank⟩ := h
  obtain ⟨gap, head, after, rfl, hg, leads, unmatched⟩ := dangles
  obtain ⟨gap', head', same, hg', leads', -⟩ := exists_leads blank hg leads
  have open' : Dangles (rest ++ (gap ++ (head ++ '{' :: after))) := by
    refine ⟨gap', head', after, ?_, hg', leads', unmatched⟩
    rw [← List.append_assoc gap, ← List.append_assoc rest, same, List.append_assoc]
  have unclosed := readItems_of_unclosed (readItem_eq_unclosed_iff_dangles.mpr open')
  rw [List.append_assoc, readSheet, readItems_of_spellsAll spelled, unclosed]
  exact ⟨_, rfl⟩

theorem Spells.closes (h : Spells a st) : Closes a := by
  cases h with
  | @bare gap head hg leads =>
    have gapCloses := closes_of_calm (calm_of_blank (blank_of_gap hg))
    obtain ⟨avoided, outside⟩ := headText_iff.mp leads.1
    have headCloses : Closes head := ⟨nesting_of_avoids avoided, outside⟩
    exact gapCloses.append (headCloses.append ⟨rfl, rfl⟩)
  | @block gap head body hg leads inner =>
    have gapCloses := closes_of_calm (calm_of_blank (blank_of_gap hg))
    obtain ⟨avoided, outside⟩ := headText_iff.mp leads.1
    have headCloses : Closes head := ⟨nesting_of_avoids avoided, outside⟩
    exact gapCloses.append (headCloses.append (closes_iff.mpr inner).braces)

theorem IsSheet.closes (h : IsSheet a xs) : Closes a := by
  obtain ⟨run, rest, rfl, spelled, blank⟩ := h
  refine Closes.append ?_ (closes_of_calm (calm_of_blank blank))
  induction spelled with
  | nil => exact .nil
  | cons first rest ih => exact first.closes.append ih

theorem IsSheet.last (h : IsSheet a xs) {c : Char} (hc : a.getLast? = some c) :
    c = ';' ∨ c = '}' ∨ isBlank c = true := by
  obtain ⟨run, rest, rfl, spelled, blank⟩ := h
  rcases List.eq_nil_or_concat rest with rfl | ⟨rest, d, rfl⟩
  · have closing {a : Text} {st : Statement} (first : Spells a st) :
        ∃ p d, a = p ++ [d] ∧ (d = ';' ∨ d = '}') := by
      cases first with
      | @bare gap head => exact ⟨gap ++ head, ';', by simp, .inl rfl⟩
      | @block gap head body => exact ⟨gap ++ (head ++ '{' :: body), '}', by simp, .inr rfl⟩
    rw [List.append_nil] at hc
    induction spelled with
    | nil => cases hc
    | @cons a t st sts first rest ih =>
      rcases List.eq_nil_or_concat t with rfl | ⟨t, d, rfl⟩
      · obtain ⟨p, d, rfl, ends⟩ := closing first
        rw [List.append_nil, List.getLast?_concat] at hc
        obtain rfl := Option.some.inj hc
        exact ends.imp id .inl
      · apply ih
        rw [List.concat_eq_append, List.getLast?_concat]
        rw [List.concat_eq_append, ← List.append_assoc, List.getLast?_concat] at hc
        exact hc
  · rw [List.concat_eq_append, ← List.append_assoc, List.getLast?_concat] at hc
    obtain rfl := Option.some.inj hc
    exact .inr (.inr (List.all_eq_true.mp blank d (by simp)))

theorem IsSheet.last_ne_slash (h : IsSheet a xs) : a.getLast? ≠ some '/' := by
  intro slash
  rcases h.last slash with h | h | h <;> exact absurd h (by decide)

end UtilityLayer.Css
