import Mathlib.Data.List.Forall2
import UtilityLayer.Proofs.Css.Brackets
import UtilityLayer.Selector.Reader

/-!
# How selectors are spelled

What a reader takes off a text is a spelling of the selector that it returns: one
form for each kind of simple selector, compounds one simple selector after the
other, and combinators with the blanks around them. The argument of a functional
pseudo-class is whatever the inner reader reads.
-/

set_option autoImplicit false

namespace UtilityLayer.Selector

open Text Css

def Named (t : Text) : Prop := t ≠ [] ∧ ∀ c ∈ t, isNameChar c = true

instance (t : Text) : Decidable (Named t) :=
  decidable_of_iff (t ≠ [] ∧ t.all isNameChar = true) (by rw [List.all_eq_true]; rfl)

theorem name?_eq_some_iff {t n rest : Text} :
    name? t = some (n, rest) ↔
      Named n ∧ t = n ++ rest ∧ ∀ c ∈ rest.head?, isNameChar c = false := by
  constructor
  · intro h
    obtain ⟨written, nonempty⟩ := name?_append h
    rw [name?] at h
    split at h
    · cases h
    · rename_i c m hm
      obtain ⟨rfl, rfl⟩ := Prod.mk.inj (Option.some.inj h)
      refine ⟨⟨nonempty, ?_⟩, written, ?_⟩
      · rw [← hm]
        exact fun d hd => List.mem_takeWhile_imp hd
      · intro d hd
        have stop := List.head?_dropWhile_not isNameChar t
        rw [Option.mem_def.mp hd] at stop
        simpa using stop
  · rintro ⟨⟨nonempty, named⟩, rfl, ends⟩
    have stop : rest.takeWhile isNameChar = [] ∧ rest.dropWhile isNameChar = rest := by
      cases rest with
      | nil => exact ⟨rfl, rfl⟩
      | cons c rest => simp [ends c rfl]
    rw [name?, List.takeWhile_append_of_pos named, List.dropWhile_append_of_pos named, stop.1,
      stop.2, List.append_nil]
    obtain ⟨c, m, rfl⟩ := List.exists_cons_of_ne_nil nonempty
    rfl

theorem mapM_eq_some_iff {α β : Type} {f : α → Option β} {as : List α} {bs : List β} :
    as.mapM f = some bs ↔ List.Forall₂ (fun a b => f a = some b) as bs := by
  induction as generalizing bs with
  | nil => cases bs <;> simp
  | cons a as ih =>
    rw [List.mapM_cons]
    cases bs with
    | nil => cases f a <;> cases as.mapM f <;> simp
    | cons b bs =>
      rw [List.forall₂_cons, ← ih]
      cases f a <;> cases as.mapM f <;> simp

section

variable (arguments : Text → Option (List Complex))

inductive Simple.Spelled : Simple → Text → Prop
  | element {name : Text} (named : Named name) : Spelled (.element name) name
  | className {name w : Text} (nonempty : name ≠ []) (whole : Whole w) :
      Spelled (.className name) ('.' :: w)
  | ident {name w : Text} (nonempty : name ≠ []) (whole : Whole w) :
      Spelled (.ident name) ('#' :: w)
  | universal : Spelled .universal ['*']
  | parent : Spelled .parent ['&']
  | pseudoClass {name : Text} (named : Named name) : Spelled (.pseudoClass name) (':' :: name)
  | pseudoElement {name : Text} (named : Named name) :
      Spelled (.pseudoElement name) (':' :: ':' :: name)
  | functional {name argument : Text} {branches : List Complex} (named : Named name)
      (read : arguments argument = some branches) :
      Spelled (.functional name branches) (':' :: name ++ '(' :: (argument ++ [')']))
  | functionalText {name argument : Text} (named : Named name)
      (unread : arguments argument = none) :
      Spelled (.functionalText name argument) (':' :: name ++ '(' :: (argument ++ [')']))
  | bracketed {content : Text} (unclosed : ']' ∉ content) :
      Spelled (attributeOf content) ('[' :: (content ++ [']']))

inductive CompoundSpelled : Compound → Text → Prop
  | nil : CompoundSpelled [] []
  | cons {s : Simple} {ss : Compound} {w v : Text} (first : s.Spelled arguments w)
      (rest : CompoundSpelled ss v) : CompoundSpelled (s :: ss) (w ++ v)

def isBetween (c : Char) : Bool := isBlank c || (combinatorOf c).isSome

inductive Complex.Spelled : Complex → Text → Prop
  | last {c : Compound} {w : Text} (compound : CompoundSpelled arguments c w) :
      Spelled (.last c) w
  | link {c : Compound} {k : Combinator} {x : Complex} {w between v : Text}
      (compound : CompoundSpelled arguments c w) (combinator : between.all isBetween = true)
      (rest : Spelled x v) : Spelled (.link c k x) (w ++ (between ++ v))

end

section

variable {arguments : Text → Option (List Complex)}

theorem Simple.Spelled.paired {s : Simple} {w : Text} (h : s.Spelled arguments w) : Paired w := by
  cases h with
  | element named => exact (whole_name named.2).paired
  | className nonempty whole => exact .cons (by decide) whole.paired
  | ident nonempty whole => exact .cons (by decide) whole.paired
  | universal => rfl
  | parent => rfl
  | pseudoClass named => exact .cons (by decide) (whole_name named.2).paired
  | pseudoElement named => exact .cons (by decide) (.cons (by decide) (whole_name named.2).paired)
  | @functional name argument branches named read =>
    simpa using paired_concat (c := ')') (by decide) (':' :: name ++ '(' :: argument)
  | @functionalText name argument named unread =>
    simpa using paired_concat (c := ')') (by decide) (':' :: name ++ '(' :: argument)
  | @bracketed content unclosed => exact paired_concat (by decide) ('[' :: content)

theorem functional?_spelled {name t rest : Text} {s : Simple} (named : Named name)
    (h : functional? arguments name t = some (s, rest)) :
    ∃ w, t = w ++ rest ∧ s.Spelled arguments (':' :: name ++ w) := by
  rw [functional?.eq_def] at h
  split at h
  · rename_i u
    obtain ⟨⟨argument, r⟩, ha, hs⟩ := Option.map_eq_some_iff.mp h
    obtain ⟨rfl, rfl⟩ := Prod.mk.inj hs
    refine ⟨'(' :: (argument ++ [')']), by rw [argument?_append ha]; simp, ?_⟩
    rw [functionalOf]
    split
    · exact .functional named ‹_›
    · exact .functionalText named ‹_›
  · cases h

theorem pseudo?_spelled {t rest : Text} {s : Simple} (h : pseudo? arguments t = some (s, rest)) :
    ∃ w, t = w ++ rest ∧ s.Spelled arguments (':' :: w) := by
  rw [pseudo?.eq_def] at h
  split at h
  · rename_i u
    obtain ⟨⟨n, r⟩, hn, hs⟩ := Option.map_eq_some_iff.mp h
    obtain ⟨rfl, rfl⟩ := Prod.mk.inj hs
    obtain ⟨named, rfl, -⟩ := name?_eq_some_iff.mp hn
    exact ⟨':' :: n, rfl, .pseudoElement named⟩
  · obtain ⟨⟨n, r⟩, hn, hs⟩ := Option.map_eq_some_iff.mp h
    obtain ⟨named, rfl, -⟩ := name?_eq_some_iff.mp hn
    dsimp only at hs
    cases hf : functional? arguments n r with
    | none =>
      rw [hf] at hs
      obtain ⟨rfl, rfl⟩ := Prod.mk.inj hs
      exact ⟨n, rfl, .pseudoClass named⟩
    | some p =>
      rw [hf] at hs
      obtain rfl : p = (s, rest) := hs
      obtain ⟨w, rfl, spelled⟩ := functional?_spelled named hf
      exact ⟨n ++ w, by rw [List.append_assoc], spelled⟩

theorem escapedName?_spelled {t n rest : Text} (h : escapedName? t = some (n, rest)) :
    n ≠ [] ∧ ∃ w, t = w ++ rest ∧ Whole w := by
  obtain ⟨nonempty, hr⟩ := escapedName?_eq_some_iff.mp h
  obtain ⟨w, hw, whole⟩ := whole_readEscaped t
  rw [hr] at hw
  exact ⟨nonempty, w, hw, whole⟩

theorem readSimple_spelled {t rest : Text} {s : Simple}
    (h : readSimple arguments t = some (s, rest)) :
    ∃ w, t = w ++ rest ∧ s.Spelled arguments w := by
  cases t with
  | nil => cases h
  | cons c t =>
    rw [readSimple] at h
    split at h
    · rename_i hc
      obtain ⟨⟨n, r⟩, hn, hs⟩ := Option.map_eq_some_iff.mp h
      obtain ⟨rfl, rfl⟩ := Prod.mk.inj hs
      obtain ⟨nonempty, w, rfl, whole⟩ := escapedName?_spelled hn
      exact ⟨'#' :: w, by rw [hc]; rfl, .ident nonempty whole⟩
    split at h
    · rename_i hc
      obtain ⟨⟨n, r⟩, hn, hs⟩ := Option.map_eq_some_iff.mp h
      obtain ⟨rfl, rfl⟩ := Prod.mk.inj hs
      obtain ⟨nonempty, w, rfl, whole⟩ := escapedName?_spelled hn
      exact ⟨'.' :: w, by rw [hc]; rfl, .className nonempty whole⟩
    split at h
    · rename_i hc
      obtain ⟨w, rfl, spelled⟩ := pseudo?_spelled h
      exact ⟨':' :: w, by rw [hc]; rfl, spelled⟩
    split at h
    · rename_i hc
      obtain ⟨rfl, rfl⟩ := Prod.mk.inj (Option.some.inj h)
      exact ⟨['&'], by rw [hc]; rfl, .parent⟩
    split at h
    · rename_i hc
      obtain ⟨rfl, rfl⟩ := Prod.mk.inj (Option.some.inj h)
      exact ⟨['*'], by rw [hc]; rfl, .universal⟩
    split at h
    · rename_i hc
      obtain ⟨⟨a, r⟩, ha, hs⟩ := Option.map_eq_some_iff.mp h
      obtain ⟨rfl, rfl⟩ := Prod.mk.inj hs
      obtain ⟨rfl, unclosed⟩ := cut?_eq_some ha
      exact ⟨'[' :: (a ++ [']']), by rw [hc]; simp, .bracketed unclosed⟩
    · obtain ⟨⟨n, r⟩, hn, hs⟩ := Option.map_eq_some_iff.mp h
      obtain ⟨rfl, rfl⟩ := Prod.mk.inj hs
      obtain ⟨named, hw, -⟩ := name?_eq_some_iff.mp hn
      exact ⟨n, hw, .element named⟩

theorem readSimple_of_other {c : Char} (t : Text) (name : isNameChar c = false)
    (marks : c ∉ ['#', '.', ':', '&', '*', '[']) : readSimple arguments (c :: t) = none := by
  simp only [List.mem_cons, List.not_mem_nil, or_false, not_or] at marks
  obtain ⟨h₁, h₂, h₃, h₄, h₅, h₆⟩ := marks
  have none : name? (c :: t) = none := by
    rw [name?, List.takeWhile_cons, name]
    rfl
  rw [readSimple, if_neg h₁, if_neg h₂, if_neg h₃, if_neg h₄, if_neg h₅, if_neg h₆, none]
  rfl

theorem readSimple_of_blank {c : Char} (h : isBlank c = true) (t : Text) :
    readSimple arguments (c :: t) = none := by
  apply readSimple_of_other t (isNameChar_of_isBlank h)
  intro hc
  simp only [List.mem_cons, List.not_mem_nil, or_false] at hc
  rcases hc with rfl | rfl | rfl | rfl | rfl | rfl <;> exact absurd h (by decide)

theorem readSimples_of_none {t : Text} (h : readSimple arguments t = none) :
    readSimples arguments t = ([], t) := by
  rw [readSimples]
  split
  · rfl
  · rename_i h'
    rw [h] at h'
    cases h'

theorem readSimples_of_some {t rest : Text} {s : Simple}
    (h : readSimple arguments t = some (s, rest)) :
    readSimples arguments t = (s :: (readSimples arguments rest).1, (readSimples arguments rest).2) := by
  rw [readSimples]
  split
  · rename_i h'
    rw [h] at h'
    cases h'
  · rename_i h'
    obtain ⟨rfl, rfl⟩ := Prod.mk.inj (Option.some.inj (h.symm.trans h'))
    rfl

theorem readSimple_of_combinator {c : Char} {k : Combinator} (h : combinatorOf c = some k)
    (t : Text) : readSimple arguments (c :: t) = none := by
  rw [combinatorOf.eq_def] at h
  split at h
  · exact readSimple_of_other t (by decide) (by decide)
  · exact readSimple_of_other t (by decide) (by decide)
  · exact readSimple_of_other t (by decide) (by decide)
  · cases h

theorem readSimples_spelled (t : Text) :
    ∃ w, t = w ++ (readSimples arguments t).2 ∧
      CompoundSpelled arguments (readSimples arguments t).1 w := by
  fun_induction readSimples arguments t with
  | case1 t h => exact ⟨[], rfl, .nil⟩
  | case2 t s rest h ss r hs ih =>
    rw [hs] at ih
    obtain ⟨w, rfl, first⟩ := readSimple_spelled h
    obtain ⟨v, hv, others⟩ := ih
    exact ⟨w ++ v, by rw [hv, List.append_assoc], .cons first others⟩

theorem readCompound_eq_some_iff {t rest : Text} {c : Compound} :
    readCompound arguments t = some (c, rest) ↔ c ≠ [] ∧ readSimples arguments t = (c, rest) := by
  rw [readCompound]
  split
  · rename_i r hr
    rw [hr]
    constructor
    · intro h
      cases h
    · rintro ⟨nonempty, h⟩
      exact absurd (Prod.mk.inj h).1.symm nonempty
  · rename_i s ss r hr
    rw [hr, Option.some_inj]
    constructor
    · intro h
      obtain ⟨rfl, rfl⟩ := Prod.mk.inj h
      exact ⟨List.cons_ne_nil _ _, rfl⟩
    · exact And.right

theorem readCompound_spelled {t rest : Text} {c : Compound}
    (h : readCompound arguments t = some (c, rest)) :
    ∃ w, t = w ++ rest ∧ CompoundSpelled arguments c w := by
  have spelled := @readSimples_spelled arguments t
  rw [(readCompound_eq_some_iff.mp h).2] at spelled
  exact spelled

theorem all_isBetween_of_gap (t : Text) : (t.takeWhile isGap).all isBetween = true := by
  rw [List.all_eq_true]
  intro c hc
  rw [isBetween, isBlank_of_isGap (List.mem_takeWhile_imp hc), Bool.true_or]

theorem gap_append_skipGap (t : Text) : t.takeWhile isGap ++ skipGap t = t :=
  List.takeWhile_append_dropWhile

theorem readLink_spelled {t rest : Text} {k : Combinator} {c : Compound}
    (h : readLink arguments t = some (k, c, rest)) :
    ∃ between w, t = between ++ (w ++ rest) ∧ between.all isBetween = true ∧
      CompoundSpelled arguments c w := by
  have lead := gap_append_skipGap t
  rw [readLink] at h
  split at h
  · cases h
  · rename_i d u hd
    rw [hd] at lead
    split at h
    · rename_i k' hk
      obtain ⟨⟨x, r⟩, hx, hs⟩ := Option.map_eq_some_iff.mp h
      obtain ⟨-, hs⟩ := Prod.mk.inj hs
      obtain ⟨rfl, rfl⟩ := Prod.mk.inj hs
      obtain ⟨w, hw, spelled⟩ := readCompound_spelled hx
      refine ⟨t.takeWhile isGap ++ d :: u.takeWhile isGap, w, ?_, ?_, spelled⟩
      · rw [List.append_assoc, List.cons_append, ← hw, gap_append_skipGap, lead]
      · rw [List.all_append, List.all_cons, all_isBetween_of_gap, all_isBetween_of_gap, isBetween,
          hk]
        simp
    · split at h
      · cases h
      · obtain ⟨⟨x, r⟩, hx, hs⟩ := Option.map_eq_some_iff.mp h
        obtain ⟨-, hs⟩ := Prod.mk.inj hs
        obtain ⟨rfl, rfl⟩ := Prod.mk.inj hs
        obtain ⟨w, hw, spelled⟩ := readCompound_spelled hx
        exact ⟨_, w, by rw [← hw, lead], all_isBetween_of_gap t, spelled⟩

theorem readLinks_spelled {c : Compound} {v : Text} (first : CompoundSpelled arguments c v)
    (t : Text) :
    ∃ w, t = w ++ (readLinks arguments c t).2 ∧
      (readLinks arguments c t).1.Spelled arguments (v ++ w) := by
  fun_induction readLinks arguments c t generalizing v with
  | case1 c t h => exact ⟨[], rfl, by rw [List.append_nil]; exact .last first⟩
  | case2 c t k c' rest h x r hs ih =>
    obtain ⟨between, u, rfl, combinator, next⟩ := readLink_spelled h
    obtain ⟨w, hw, others⟩ := ih next
    rw [hs] at hw others
    exact ⟨between ++ (u ++ w), by rw [hw]; simp, .link first combinator others⟩

theorem readComplex_spelled {t rest : Text} {x : Complex}
    (h : readComplex arguments t = some (x, rest)) :
    ∃ w, t = w ++ rest ∧ x.Spelled arguments w := by
  obtain ⟨⟨c, r⟩, hc, hr⟩ := Option.map_eq_some_iff.mp h
  have links : readLinks arguments c r = (x, rest) := hr
  obtain ⟨v, rfl, first⟩ := readCompound_spelled hc
  obtain ⟨w, hw, spelled⟩ := readLinks_spelled first r
  rw [links] at hw spelled
  exact ⟨v ++ w, by rw [hw, List.append_assoc], spelled⟩

theorem readBranch_spelled {t : Text} {x : Complex} (h : readBranch arguments t = some x) :
    ∃ a w z, t = a ++ (w ++ z) ∧ isBlankText a = true ∧ isBlankText z = true ∧
      x.Spelled arguments w := by
  rw [readBranch] at h
  split at h
  · rename_i y rest hy
    split at h
    · rename_i blank
      obtain rfl := Option.some.inj h
      obtain ⟨w, hw, spelled⟩ := readComplex_spelled hy
      obtain ⟨a, z, ht, ha, hz⟩ := exists_trim t
      refine ⟨a, w, rest ++ z, ?_, ha, ?_, spelled⟩
      · rw [ht, hw]
        simp
      · rw [isBlankText, List.all_append, Bool.and_eq_true]
        exact ⟨blank, hz⟩
    · cases h
  · cases h

end

end UtilityLayer.Selector
