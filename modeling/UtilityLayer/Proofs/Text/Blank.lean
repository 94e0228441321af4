import Mathlib.Data.List.DropRight
import Mathlib.Data.List.TakeWhile
import UtilityLayer.Text.Alphanumeric
import UtilityLayer.Text.Blank

/-!
# Trimmed texts

What trimming takes away is blank, and what it leaves begins with a character
that is not. No character of a name is blank.
-/

set_option autoImplicit false

namespace UtilityLayer.Text

theorem skipGap_append {gap : Text} (h : gap.all isGap = true) (t : Text) :
    skipGap (gap ++ t) = skipGap t := by
  induction gap with
  | nil => rfl
  | cons c gap ih =>
    obtain ⟨hc, hg⟩ : isGap c = true ∧ gap.all isGap = true := by simpa using h
    rw [List.cons_append, skipGap, List.dropWhile_cons, if_pos hc]
    exact ih hg

theorem skipGap_cons {c : Char} (h : isBlank c = false) (t : Text) :
    skipGap (c :: t) = c :: t := by
  have hg : ¬ isGap c = true := by
    intro hg
    rw [isBlank_of_isGap hg] at h
    cases h
  rw [skipGap, List.dropWhile_cons, if_neg hg]

theorem skipGap_eq_cons_iff {t u : Text} {c : Char} :
    skipGap t = c :: u ↔
      isGap c = false ∧ ∃ gap : Text, gap.all isGap = true ∧ t = gap ++ c :: u := by
  constructor
  · intro h
    have hc := List.head?_dropWhile_not isGap t
    rw [← skipGap, h] at hc
    refine ⟨by simpa using hc, t.takeWhile isGap, List.all_takeWhile, ?_⟩
    rw [← h, skipGap, List.takeWhile_append_dropWhile]
  · rintro ⟨hc, gap, hg, rfl⟩
    rw [skipGap_append hg, skipGap, List.dropWhile_cons, if_neg (by simp [hc])]

theorem exists_trim (t : Text) :
    ∃ a z, t = a ++ trim t ++ z ∧ isBlankText a = true ∧ isBlankText z = true := by
  refine ⟨t.takeWhile isBlank, blankTail (trimStart t), ?_, ?_, ?_⟩
  · rw [List.append_assoc, trim, trimEnd_append_blankTail, trimStart,
      List.takeWhile_append_dropWhile]
  · rw [isBlankText, List.all_takeWhile]
  · rw [blankTail, isBlankText, List.all_reverse, List.all_takeWhile]

theorem trim_eq_nil_iff {t : Text} : trim t = [] ↔ isBlankText t = true := by
  constructor
  · intro h
    obtain ⟨a, z, ht, ha, hz⟩ := exists_trim t
    rw [h] at ht
    rw [ht, isBlankText, List.append_nil, List.all_append]
    exact Bool.and_eq_true_iff.mpr ⟨ha, hz⟩
  · intro h
    have hs : trimStart t = [] := by
      rw [trimStart, List.dropWhile_eq_nil_iff]
      exact List.all_eq_true.mp h
    rw [trim, hs]
    rfl

theorem isBlank_of_trim {t u : Text} {c : Char} (h : trim t = c :: u) : isBlank c = false := by
  have hp : trim t <+: trimStart t := by
    rw [trim, trimEnd]
    have hs := (List.dropWhile_suffix isBlank (l := (trimStart t).reverse))
    simpa using List.reverse_prefix.mpr hs
  rw [h] at hp
  obtain ⟨rest, hr⟩ := hp
  cases hd : trimStart t with
  | nil => simp [hd] at hr
  | cons d v =>
    rw [hd] at hr
    obtain ⟨rfl, -⟩ := List.cons.inj hr
    have hh := List.head?_dropWhile_not isBlank t
    rw [← trimStart, hd] at hh
    simpa using hh

theorem eq_nil_of_blank_append {a t u : Text} {c : Char} (blank : isBlankText a = true)
    (h : isBlank c = false) (same : a ++ t = c :: u) : a = [] := by
  cases a with
  | nil => rfl
  | cons d a =>
    obtain ⟨rfl, -⟩ := List.cons.inj same
    rw [isBlankText, List.all_cons, h] at blank
    cases blank

theorem trim_cons {c : Char} (h : isBlank c = false) (t : Text) : ∃ u, trim (c :: t) = c :: u := by
  obtain ⟨a, z, ht, ha, hz⟩ := exists_trim (c :: t)
  rw [List.append_assoc] at ht
  obtain rfl := eq_nil_of_blank_append ha h ht.symm
  cases hm : trim (c :: t) with
  | nil =>
    rw [hm, List.nil_append, List.nil_append] at ht
    have blank : z ++ [] = c :: t := by rw [List.append_nil, ht]
    obtain rfl := eq_nil_of_blank_append hz h blank
    cases ht
  | cons d u =>
    rw [hm] at ht
    obtain ⟨rfl, -⟩ := List.cons.inj ht
    exact ⟨u, rfl⟩

theorem trim_prepend {blank : Text} (h : isBlankText blank = true) (t : Text) :
    trim (blank ++ t) = trim t := by
  rw [trim, trim, trimStart, List.dropWhile_append_of_pos (List.all_eq_true.mp h), trimStart]

theorem trim_of_first {t : Text} (first : ∀ c ∈ t.head?, isBlank c = false) :
    trim t = trimEnd t := by
  cases t with
  | nil => rfl
  | cons c t => rw [trim, trimStart, List.dropWhile_cons_of_neg (by simp [first c rfl])]

theorem trimEnd_of_last {t : Text} (last : ∀ c ∈ t.getLast?, isBlank c = false) :
    trimEnd t = t := by
  induction t using List.reverseRecOn with
  | nil => rfl
  | append_singleton t c _ => rw [trimEnd_concat, if_neg (by simp [last c (by simp)])]

theorem trim_trim (t : Text) : trim (trim t) = trim t := by
  cases h : trim t with
  | nil => rfl
  | cons c u =>
    have first := isBlank_of_trim h
    have start : trimStart (c :: u) = c :: u :=
      List.dropWhile_cons_of_neg (by rw [first]; exact Bool.false_ne_true)
    rw [trim, start, ← h, trim, trimEnd, trimEnd, List.reverse_reverse, List.dropWhile_idempotent]

theorem trim_concat {t : Text} (h : trim t = t) {c : Char} (blank : isBlank c = true) :
    trim (t ++ [c]) = t := by
  cases t with
  | nil => rw [List.nil_append]; exact trim_eq_nil_iff.mpr (by simp [isBlankText, blank])
  | cons d u =>
    have first := isBlank_of_trim h
    have start (v : Text) : trimStart (d :: v) = d :: v :=
      List.dropWhile_cons_of_neg (by rw [first]; exact Bool.false_ne_true)
    rw [trim, List.cons_append, start, ← List.cons_append, trimEnd_concat, if_pos blank]
    rw [trim, start] at h
    exact h

theorem not_mem_of_blank {c : Char} {t : Text} (solid : isBlank c = false)
    (blank : isBlankText t = true) : c ∉ t := by
  intro h
  have hc := List.all_eq_true.mp blank c h
  rw [solid] at hc
  cases hc

theorem trimEnd_append_of_blank {z : Text} (blank : isBlankText z = true) (t : Text) :
    trimEnd (t ++ z) = trimEnd t := by
  have behind : ∀ c ∈ z.reverse, isBlank c = true := fun c hc =>
    List.all_eq_true.mp blank c (List.mem_reverse.mp hc)
  rw [trimEnd, List.reverse_append, List.dropWhile_append_of_pos behind, trimEnd]

theorem trimEnd_append_cons {c : Char} (h : isBlank c = false) (a t : Text) :
    trimEnd (a ++ c :: t) = a ++ c :: trimEnd t := by
  induction t using List.reverseRecOn with
  | nil => rw [trimEnd_concat, if_neg (by simp [h])]; rfl
  | append_singleton t d ih =>
    rw [← List.cons_append, ← List.append_assoc, trimEnd_concat, trimEnd_concat]
    split
    · exact ih
    · rw [List.append_assoc, List.cons_append]

theorem trimEnd_trimEnd (t : Text) : trimEnd (trimEnd t) = trimEnd t := by
  rw [trimEnd, trimEnd, List.reverse_reverse, List.dropWhile_idempotent]

theorem eq_nil_of_trimEnd_eq {t w z : Text} (h : trimEnd t = w ++ z)
    (blank : isBlankText z = true) : z = [] := by
  have same := trimEnd_trimEnd t
  rw [h, trimEnd_append_of_blank blank] at same
  have shorter := trimEnd_length_le w
  rw [same, List.length_append] at shorter
  exact List.length_eq_zero_iff.mp (by omega)

theorem isBlankText_blankTail (t : Text) : isBlankText (blankTail t) = true := by
  rw [blankTail, isBlankText, List.all_reverse, List.all_takeWhile]

theorem mem_trimEnd_iff {c : Char} (solid : isBlank c = false) (t : Text) :
    c ∈ trimEnd t ↔ c ∈ t := by
  have tail : c ∉ blankTail t := not_mem_of_blank solid (isBlankText_blankTail t)
  nth_rewrite 2 [← trimEnd_append_blankTail t]
  rw [List.mem_append, or_iff_left tail]

theorem blankTail_append_cons {c : Char} (h : isBlank c = false) (a t : Text) :
    blankTail (a ++ c :: t) = blankTail t := by
  have whole := trimEnd_append_blankTail (a ++ c :: t)
  have part : (a ++ c :: trimEnd t) ++ blankTail t = a ++ c :: t := by
    rw [List.append_assoc, List.cons_append, trimEnd_append_blankTail]
  rw [trimEnd_append_cons h] at whole
  exact List.append_cancel_left (whole.trans part.symm)

theorem blankTail_trimEnd (t : Text) : blankTail (trimEnd t) = [] := by
  have same := trimEnd_append_blankTail (trimEnd t)
  rw [trimEnd_trimEnd] at same
  exact List.append_right_eq_self.mp same

def apart (r s : List (Nat × Nat)) : Bool := r.all fun a => s.all fun b => a.2 < b.1 || b.2 < a.1

theorem inRanges_of_apart {r s : List (Nat × Nat)} (h : apart r s = true) {c : Char}
    (hr : inRanges r c = true) : inRanges s c = false := by
  rw [Bool.eq_false_iff]
  intro hs
  obtain ⟨a, ha, ha₁, ha₂⟩ := inRanges_iff.mp hr
  obtain ⟨b, hb, hb₁, hb₂⟩ := inRanges_iff.mp hs
  have hab := List.all_eq_true.mp (List.all_eq_true.mp h a ha) b hb
  simp only [Bool.or_eq_true, decide_eq_true_eq] at hab
  omega

theorem apart_blank : apart blankRanges wideAlphanumericRanges = true := by decide +kernel

theorem isBlank_of_isNameChar {c : Char} (h : isNameChar c = true) : isBlank c = false := by
  rw [Bool.eq_false_iff]
  intro hb
  by_cases hc : c.toNat < 128
  · have low : c.toNat < 33 := by
      obtain ⟨r, hr, h₁, h₂⟩ := inRanges_iff.mp hb
      simp only [blankRanges, List.mem_cons, List.not_mem_nil, or_false] at hr
      rcases hr with rfl | rfl | rfl | rfl | rfl | rfl | rfl | rfl | rfl | rfl <;> omega
    have none : ∀ n < 33, isNameChar (Char.ofNat n) = false := by decide
    have hn := none c.toNat low
    rw [Char.ofNat_toNat, h] at hn
    cases hn
  · have ha : isAlphanumeric c = false := by
      rw [isAlphanumeric, if_neg hc]
      exact inRanges_of_apart apart_blank hb
    rw [isNameChar, ha, Bool.false_or, Bool.or_eq_true, beq_iff_eq, beq_iff_eq] at h
    rcases h with rfl | rfl <;> exact hc (by decide)

theorem isNameChar_of_isBlank {c : Char} (h : isBlank c = true) : isNameChar c = false := by
  rw [Bool.eq_false_iff]
  intro hc
  rw [isBlank_of_isNameChar hc] at h
  cases h

end UtilityLayer.Text
