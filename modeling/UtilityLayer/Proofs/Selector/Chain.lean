import UtilityLayer.Proofs.Selector.Legible

/-!
# Printed chains are read back

What is read back of simple selectors is read back of compounds, one simple
selector after the other, and of chains, one compound after the other. A chain
that is trimmed, as a branch of a list is, must keep its last name besides.
-/

set_option autoImplicit false

namespace UtilityLayer.Selector

open Text Css

section Heads

theorem Simple.head_print {s : Simple} (h : s.isElement = false) :
    ∃ m ∈ ['.', '#', '*', '&', ':', '['], ∃ w, s.print = m :: w := by
  cases s with
  | element name => cases h
  | _ => simp [print, classSelector]

theorem ends_print {s : Simple} (h : s.isElement = false) (t : Text) : Ends (s.print ++ t) := by
  obtain ⟨m, hm, w, hw⟩ := Simple.head_print h
  have marks : ['.', '#', '*', '&', ':', '['].all (fun m => !goesOn m && m != '(') = true := by
    decide
  rw [hw]
  intro c hc
  obtain rfl := Option.some.inj hc
  simpa using List.all_eq_true.mp marks m hm

def Leads (t : Text) : Prop := ∃ c u, t = c :: u ∧ isBlank c = false ∧ combinatorOf c = none

theorem Leads.append {t : Text} (h : Leads t) (u : Text) : Leads (t ++ u) := by
  obtain ⟨c, v, rfl, solid, no⟩ := h
  exact ⟨c, v ++ u, rfl, solid, no⟩

theorem Leads.trimEnd {t : Text} (h : Leads t) : Leads (trimEnd t) := by
  obtain ⟨c, v, rfl, solid, no⟩ := h
  exact ⟨c, Text.trimEnd v, trimEnd_append_cons solid [] v, solid, no⟩

theorem trimEnd_append_of_leads {t : Text} (h : Leads t) (a : Text) :
    Text.trimEnd (a ++ t) = a ++ Text.trimEnd t := by
  obtain ⟨c, v, rfl, solid, -⟩ := h
  rw [trimEnd_append_cons solid a v]
  exact congrArg (a ++ ·) (trimEnd_append_cons solid [] v).symm

theorem Ends.trimEnd {t : Text} (h : Ends t) (leads : Leads t) : Ends (trimEnd t) := by
  obtain ⟨c, v, rfl, solid, -⟩ := leads
  have trimmed : Text.trimEnd (c :: v) = c :: Text.trimEnd v := trimEnd_append_cons solid [] v
  rw [trimmed]
  exact h

theorem combinatorOf_of_isNameChar {c : Char} (h : isNameChar c = true) :
    combinatorOf c = none := by
  rw [combinatorOf.eq_def]
  split
  · exact absurd h (by decide)
  · exact absurd h (by decide)
  · exact absurd h (by decide)
  · rfl

theorem Simple.leads_print {s : Simple} (named : s.WellNamed) : Leads s.print := by
  by_cases h : s.isElement = true
  · cases s with
    | element name =>
      obtain ⟨c, n, rfl, hc⟩ := Named.head named
      exact ⟨c, n, rfl, isBlank_of_isNameChar hc, combinatorOf_of_isNameChar hc⟩
    | _ => cases h
  · obtain ⟨m, hm, w, hw⟩ := head_print (by simpa using h)
    have marks : ['.', '#', '*', '&', ':', '['].all
        (fun m => !isBlank m && (combinatorOf m).isNone) = true := by decide
    exact ⟨m, w, hw, by simpa using List.all_eq_true.mp marks m hm⟩

theorem leads_printCompound {c : Compound} (formed : Compound.Formed c) :
    Leads (printCompound c) := by
  obtain ⟨s, ss, rfl⟩ := List.exists_cons_of_ne_nil formed.nonempty
  exact (Simple.leads_print (formed.named s (by simp))).append _

theorem Complex.leads_print {x : Complex} (formed : x.Formed) : Leads x.print := by
  cases x with
  | last c => exact leads_printCompound (formed_last.mp formed).1
  | link c k rest =>
    rw [print, List.append_assoc]
    exact (leads_printCompound (formed_link.mp formed).1.1).append _

end Heads

section

variable {arguments : Text → Option (List Complex)}

theorem readSimples_eq_cons_iff {t r : Text} {s : Simple} {ss : Compound} :
    readSimples arguments t = (s :: ss, r) ↔
      ∃ u, readSimple arguments t = some (s, u) ∧ readSimples arguments u = (ss, r) := by
  cases h : readSimple arguments t with
  | none => simp [readSimples_of_none h]
  | some p =>
    obtain ⟨s', u⟩ := p
    rw [readSimples_of_some h]
    constructor
    · intro same
      obtain ⟨heads, rfl⟩ := Prod.mk.inj same
      obtain ⟨rfl, rfl⟩ := List.cons.inj heads
      exact ⟨u, rfl, rfl⟩
    · rintro ⟨v, same, rest⟩
      obtain ⟨rfl, rfl⟩ := Prod.mk.inj (Option.some.inj same)
      rw [rest]

theorem readComplex_eq_some_iff {t r : Text} {x : Complex} :
    readComplex arguments t = some (x, r) ↔
      ∃ c u, c ≠ [] ∧ readSimples arguments t = (c, u) ∧ readLinks arguments c u = (x, r) := by
  rw [readComplex, Option.map_eq_some_iff]
  constructor
  · rintro ⟨⟨c, u⟩, hc, hx⟩
    obtain ⟨nonempty, read⟩ := readCompound_eq_some_iff.mp hc
    exact ⟨c, u, nonempty, read, hx⟩
  · rintro ⟨c, u, nonempty, read, hx⟩
    exact ⟨(c, u), readCompound_eq_some_iff.mpr ⟨nonempty, read⟩, hx⟩

theorem readSimples_eq_nil_iff {t r : Text} :
    readSimples arguments t = ([], r) ↔ t = r ∧ readSimple arguments t = none := by
  cases h : readSimple arguments t with
  | none => simp [readSimples_of_none h]
  | some p =>
    obtain ⟨s', u⟩ := p
    simp [readSimples_of_some h]

theorem readLinks_eq_last_iff {c d : Compound} {t r : Text} :
    readLinks arguments c t = (.last d, r) ↔
      c = d ∧ t = r ∧ readLink arguments t = none := by
  rw [readLinks]
  split
  · rename_i h
    simp [h]
  · rename_i h
    simp [h]

theorem readLinks_eq_link_iff {c d : Compound} {k : Combinator} {x : Complex} {t r : Text} :
    readLinks arguments c t = (.link d k x, r) ↔
      c = d ∧ ∃ c' u, readLink arguments t = some (k, c', u) ∧
        readLinks arguments c' u = (x, r) := by
  rw [readLinks]
  split
  · rename_i h
    simp [h]
  · rename_i k' c' u h
    cases hx : readLinks arguments c' u with
    | mk y v =>
      constructor
      · intro same
        obtain ⟨whole, rfl⟩ := Prod.mk.inj same
        obtain ⟨rfl, rfl, rfl⟩ := Complex.link.inj whole
        exact ⟨rfl, c', u, h, hx⟩
      · rintro ⟨rfl, d', u', same, rest⟩
        obtain ⟨rfl, pair⟩ := Prod.mk.inj (Option.some.inj (h.symm.trans same))
        obtain ⟨rfl, rfl⟩ := Prod.mk.inj pair
        obtain ⟨rfl, rfl⟩ := Prod.mk.inj (hx.symm.trans rest)
        rfl

theorem readLink_print {u : Text} (leads : Leads u) (k : Combinator) :
    readLink arguments (k.print ++ u) =
      (readCompound arguments u).map fun (x, r) => (k, x, r) := by
  obtain ⟨c, v, rfl, solid, no⟩ := leads
  have bare : skipGap (c :: v) = c :: v := skipGap_cons solid v
  have behind : skipGap (' ' :: c :: v) = c :: v := bare
  cases k with
  | descendant =>
    have text : Combinator.descendant.print ++ c :: v = ' ' :: c :: v := rfl
    have gap : ((' ' :: c :: v).takeWhile isGap).isEmpty = false := rfl
    rw [text, readLink, behind]
    simp [no, gap]
  | child =>
    have text : skipGap (Combinator.child.print ++ c :: v) = '>' :: ' ' :: c :: v := rfl
    rw [readLink, text]
    simp [combinatorOf, behind]
  | adjacent =>
    have text : skipGap (Combinator.adjacent.print ++ c :: v) = '+' :: ' ' :: c :: v := rfl
    rw [readLink, text]
    simp [combinatorOf, behind]
  | sibling =>
    have text : skipGap (Combinator.sibling.print ++ c :: v) = '~' :: ' ' :: c :: v := rfl
    rw [readLink, text]
    simp [combinatorOf, behind]

theorem combinator_print_eq (k : Combinator) : ∃ w, k.print = ' ' :: w := by
  cases k <;> exact ⟨_, rfl⟩

def EndsAfter (c : Compound) (rest : Text) : Prop :=
  ∀ s ∈ c.getLast?, s.endsNamed = true → Ends rest

variable (deep : ∀ a xs, arguments a = some xs → AllFormed (compoundsOfBranches xs) → Balanced a)

include deep

theorem readSimples_print_iff {c ss : Compound} {rest r : Text} (named : ∀ s ∈ c, s.WellNamed)
    (within : AllFormed (compoundsOfCompound c)) (apart : Apart c) (ends : EndsAfter c rest) :
    readSimples arguments (printCompound c ++ rest) = (c ++ ss, r) ↔
      (∀ s ∈ c, s.ReadBy arguments) ∧ readSimples arguments rest = (ss, r) := by
  induction c with
  | nil => simp [printCompound]
  | cons s c ih =>
    obtain ⟨first, others⟩ := allFormed_cons.mp within
    have next : (s.endsNamed = true → Ends (printCompound c ++ rest)) ∧ Apart c ∧
        EndsAfter c rest := by
      cases c with
      | nil => exact ⟨ends s rfl, trivial, by simp [EndsAfter]⟩
      | cons s' c =>
        refine ⟨?_, apart.2, by simpa [EndsAfter] using ends⟩
        intro h
        rw [printCompound, List.append_assoc]
        exact ends_print (apart.1 h) _
    obtain ⟨after, apart, ends⟩ := next
    have rest := ih (fun s hs => named s (by simp [hs])) others apart ends
    rw [printCompound, List.append_assoc, List.cons_append, readSimples_eq_cons_iff,
      List.forall_mem_cons, and_assoc, ← rest]
    constructor
    · rintro ⟨u, hu, hss⟩
      obtain ⟨rfl, read⟩ := (readSimple_print_iff deep (named s (by simp)) first after).mp hu
      exact ⟨read, hss⟩
    · rintro ⟨read, hss⟩
      exact ⟨_, (readSimple_print_iff deep (named s (by simp)) first after).mpr ⟨rfl, read⟩, hss⟩

theorem readSimple_trimEnd_iff {s : Simple} (named : s.WellNamed)
    (within : AllFormed s.compoundsWithin) :
    readSimple arguments (trimEnd s.print) = some (s, []) ↔ s.ReadBy arguments ∧ s.Inked := by
  have untouched (last : ∀ c ∈ s.print.getLast?, isBlank c = false) :
      readSimple arguments (trimEnd s.print) = some (s, []) ↔ s.ReadBy arguments := by
    have ends : s.endsNamed = true → Ends [] := fun _ => by simp [Ends]
    have whole := readSimple_print_iff (r := []) deep named within ends
    rw [trimEnd_of_last last, ← List.append_nil s.print, whole]
    simp
  have solid (h : ∀ c ∈ s.print, isBlank c = false) := untouched fun c hc =>
    h c (List.mem_of_getLast? hc)
  match s with
  | .className name =>
    have text : trimEnd (classSelector name) = '.' :: trimEnd (escape name) :=
      trimEnd_append_cons (by decide) [] _
    rw [Simple.print, text, Simple.Inked, ← escapedName?_trimEnd_iff named]
    show (escapedName? (trimEnd (escape name))).map _ = _ ↔ _
    cases escapedName? (trimEnd (escape name)) <;> simp [Simple.ReadBy, Prod.ext_iff]
  | .ident name =>
    have text : trimEnd ('#' :: escape name) = '#' :: trimEnd (escape name) :=
      trimEnd_append_cons (by decide) [] _
    rw [Simple.print, text, Simple.Inked, ← escapedName?_trimEnd_iff named]
    show (escapedName? (trimEnd (escape name))).map _ = _ ↔ _
    cases escapedName? (trimEnd (escape name)) <;> simp [Simple.ReadBy, Prod.ext_iff]
  | .element name => simpa [Simple.Inked] using solid fun c hc => isBlank_of_isNameChar (named.2 c hc)
  | .pseudoClass name =>
    have mark : isBlank ':' = false := by decide
    simpa [Simple.Inked] using solid (List.forall_mem_cons.mpr
      ⟨mark, fun c hc => isBlank_of_isNameChar (named.2 c hc)⟩)
  | .pseudoElement name =>
    have mark : isBlank ':' = false := by decide
    simpa [Simple.Inked] using solid (List.forall_mem_cons.mpr ⟨mark, List.forall_mem_cons.mpr
      ⟨mark, fun c hc => isBlank_of_isNameChar (named.2 c hc)⟩⟩)
  | .universal =>
    simpa [Simple.Inked] using solid (List.forall_mem_singleton.mpr (by decide))
  | .parent => simpa [Simple.Inked] using solid (List.forall_mem_singleton.mpr (by decide))
  | .functional name branches =>
    have last : isBlank ')' = false := by decide
    simpa [Simple.Inked] using untouched (by rw [Simple.print, List.getLast?_concat]; simp [last])
  | .functionalText name argument => exact named.elim
  | .attribute name value =>
    have last : isBlank ']' = false := by decide
    simpa [Simple.Inked] using untouched (by rw [Simple.print, List.getLast?_concat]; simp [last])

theorem readSimples_trimEnd_iff {c : Compound} (nonempty : c ≠ [])
    (named : ∀ s ∈ c, s.WellNamed) (within : AllFormed (compoundsOfCompound c))
    (apart : Apart c) :
    readSimples arguments (trimEnd (printCompound c)) = (c, []) ↔
      (∀ s ∈ c, s.ReadBy arguments) ∧ ∀ s ∈ c.getLast?, s.Inked := by
  induction c with
  | nil => exact absurd rfl nonempty
  | cons s c ih =>
    obtain ⟨first, others⟩ := allFormed_cons.mp within
    have head := named s (by simp)
    cases c with
    | nil =>
      have one : printCompound [s] = s.print := by simp [printCompound]
      have read := readSimple_trimEnd_iff deep head first
      rw [one, readSimples_eq_cons_iff]
      constructor
      · rintro ⟨u, hu, stop⟩
        obtain ⟨rfl, -⟩ := readSimples_eq_nil_iff.mp stop
        simpa using read.mp hu
      · intro h
        exact ⟨[], read.mpr (by simpa using h), readSimples_eq_nil_iff.mpr ⟨rfl, rfl⟩⟩
    | cons s' c =>
      have rest := ih (by simp) (fun s hs => named s (by simp [hs])) others apart.2
      have leads : Leads (printCompound (s' :: c)) :=
        (Simple.leads_print (named s' (by simp))).append _
      have ends : s.endsNamed = true → Ends (trimEnd (printCompound (s' :: c))) :=
        fun h => (ends_print (apart.1 h) _).trimEnd leads
      have read {u : Text} := readSimple_print_iff (r := u) deep head first ends
      rw [printCompound, trimEnd_append_of_leads leads, readSimples_eq_cons_iff,
        List.forall_mem_cons, and_assoc, List.getLast?_cons_cons, ← rest]
      constructor
      · rintro ⟨u, hu, hss⟩
        obtain ⟨rfl, one⟩ := read.mp hu
        exact ⟨one, hss⟩
      · rintro ⟨one, hss⟩
        exact ⟨_, read.mpr ⟨rfl, one⟩, hss⟩

omit deep in
theorem readComplex_eq_last_iff {c : Compound} {t : Text} :
    readComplex arguments t = some (.last c, []) ↔ c ≠ [] ∧ readSimples arguments t = (c, []) := by
  rw [readComplex_eq_some_iff]
  constructor
  · rintro ⟨d, v, nonempty, read, links⟩
    obtain ⟨rfl, rfl, -⟩ := readLinks_eq_last_iff.mp links
    exact ⟨nonempty, read⟩
  · rintro ⟨nonempty, read⟩
    exact ⟨c, [], nonempty, read, readLinks_eq_last_iff.mpr ⟨rfl, rfl, rfl⟩⟩

theorem readComplex_link_iff {c : Compound} {k : Combinator} {x : Complex} {u r : Text}
    (formed : Compound.Formed c) (within : AllFormed (compoundsOfCompound c)) (leads : Leads u) :
    readComplex arguments (printCompound c ++ (k.print ++ u)) = some (.link c k x, r) ↔
      (∀ s ∈ c, s.ReadBy arguments) ∧ readComplex arguments u = some (x, r) := by
  obtain ⟨w, hw⟩ := combinator_print_eq k
  have stop : readSimples arguments (k.print ++ u) = ([], k.print ++ u) := by
    rw [hw]
    exact readSimples_of_none (readSimple_of_blank (by decide) _)
  have ends : EndsAfter c (k.print ++ u) := by
    intro s _ _
    rw [hw]
    intro d hd
    obtain rfl := Option.some.inj hd
    decide
  have compound {v : Text} :
      readSimples arguments (printCompound c ++ (k.print ++ u)) = (c ++ [], v) ↔ _ :=
    readSimples_print_iff deep formed.named within formed.apart ends
  rw [List.append_nil, stop] at compound
  rw [readComplex_eq_some_iff]
  constructor
  · rintro ⟨d, v, -, read, links⟩
    obtain ⟨rfl, d', v', link, rest⟩ := readLinks_eq_link_iff.mp links
    obtain ⟨all, same⟩ := compound.mp read
    obtain ⟨-, rfl⟩ := Prod.mk.inj same
    rw [readLink_print leads] at link
    obtain ⟨⟨y, z⟩, hy, pair⟩ := Option.map_eq_some_iff.mp link
    obtain ⟨-, pair⟩ := Prod.mk.inj pair
    obtain ⟨rfl, rfl⟩ := Prod.mk.inj pair
    obtain ⟨nonempty, next⟩ := readCompound_eq_some_iff.mp hy
    exact ⟨all, readComplex_eq_some_iff.mpr ⟨_, _, nonempty, next, rest⟩⟩
  · rintro ⟨all, rest⟩
    obtain ⟨d', v', nonempty, next, links⟩ := readComplex_eq_some_iff.mp rest
    have link : readLink arguments (k.print ++ u) = some (k, d', v') := by
      rw [readLink_print leads, readCompound_eq_some_iff.mpr ⟨nonempty, next⟩]
      rfl
    exact ⟨c, _, formed.nonempty, compound.mpr ⟨all, rfl⟩,
      readLinks_eq_link_iff.mpr ⟨rfl, d', v', link, links⟩⟩

/-- A printed selector is read back if all its compounds are. -/
theorem readComplex_print_iff {x : Complex} (formed : x.Formed) :
    readComplex arguments x.print = some (x, []) ↔
      ∀ c ∈ x.compounds, ∀ s ∈ c, s.ReadBy arguments := by
  cases x with
  | last c =>
    obtain ⟨first, within⟩ := Complex.formed_last.mp formed
    have ends : EndsAfter c [] := by simp [EndsAfter, Ends]
    have stop : readSimples arguments [] = ([], []) := readSimples_of_none rfl
    have compound : readSimples arguments (printCompound c ++ []) = (c ++ [], []) ↔ _ :=
      readSimples_print_iff deep first.named within first.apart ends
    rw [List.append_nil, List.append_nil, stop] at compound
    rw [Complex.print, readComplex_eq_last_iff, compound]
    simp [first.nonempty, Complex.compounds]
  | link c k rest =>
    obtain ⟨⟨first, within⟩, others⟩ := Complex.formed_link.mp formed
    rw [Complex.print, List.append_assoc,
      readComplex_link_iff deep first within (Complex.leads_print others),
      readComplex_print_iff others]
    simp [Complex.compounds]

theorem readComplex_trimEnd_iff {x : Complex} (formed : x.Formed) :
    readComplex arguments (trimEnd x.print) = some (x, []) ↔
      (∀ c ∈ x.compounds, ∀ s ∈ c, s.ReadBy arguments) ∧ x.Inked := by
  cases x with
  | last c =>
    obtain ⟨first, within⟩ := Complex.formed_last.mp formed
    rw [Complex.print, readComplex_eq_last_iff,
      readSimples_trimEnd_iff deep first.nonempty first.named within first.apart]
    simp [first.nonempty, Complex.compounds, Complex.Inked, Complex.subject]
  | link c k rest =>
    obtain ⟨⟨first, within⟩, others⟩ := Complex.formed_link.mp formed
    have leads := Complex.leads_print others
    rw [Complex.print, trimEnd_append_of_leads leads, List.append_assoc,
      readComplex_link_iff deep first within leads.trimEnd, readComplex_trimEnd_iff others]
    simp [Complex.compounds, Complex.Inked, Complex.subject, and_assoc]

theorem readBranch_print_iff {x : Complex} (formed : x.Formed) {t : Text}
    (spaced : trim t = trimEnd x.print) :
    readBranch arguments t = some x ↔
      (∀ c ∈ x.compounds, ∀ s ∈ c, s.ReadBy arguments) ∧ x.Inked := by
  rw [← readComplex_trimEnd_iff deep formed, readBranch, spaced]
  constructor
  · intro h
    split at h
    · rename_i y rest hy
      split at h
      · rename_i blank
        obtain rfl := Option.some.inj h
        obtain ⟨w, hw, -⟩ := readComplex_spelled hy
        rw [hy, eq_nil_of_trimEnd_eq hw blank]
      · cases h
    · cases h
  · intro h
    rw [h]
    rfl

end

end UtilityLayer.Selector
