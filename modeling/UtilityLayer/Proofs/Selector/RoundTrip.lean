import UtilityLayer.Proofs.Selector.Chain

/-!
# Printed selectors are read back

A formed selector is read back from its print exactly when it is legible, and a
list exactly when its branches are legible and none of them ends with a blank
that belongs to a name. What the inner reader makes of arguments is settled by
induction on its bound, since arguments are shorter than the lists around them.
-/

set_option autoImplicit false

namespace UtilityLayer.Selector

open Text Css

section Lists

def Spaced (t : Text) (x : Complex) : Prop :=
  ∃ gap, t = gap ++ x.print ∧ isBlankText gap = true

theorem Spaced.trim_eq {t : Text} {x : Complex} (h : Spaced t x) (formed : x.Formed) :
    trim t = trimEnd x.print := by
  obtain ⟨gap, rfl, blank⟩ := h
  obtain ⟨c, v, hv, solid, -⟩ := Complex.leads_print formed
  rw [trim_prepend blank, trim_of_first]
  rw [hv]
  intro d hd
  obtain rfl := Option.some.inj hd
  exact solid

theorem Spaced.whole {t : Text} {x : Complex} (h : Spaced t x) (formed : x.Formed) : Whole t := by
  obtain ⟨gap, rfl, blank⟩ := h
  exact (whole_blank blank).append (Complex.whole_print formed)

theorem spaced_printBranches {xs : List Complex} (nonempty : xs ≠ []) :
    ∃ ts, printBranches xs = join [','] ts ∧ List.Forall₂ Spaced ts xs := by
  induction xs with
  | nil => exact absurd rfl nonempty
  | cons x xs ih =>
    have first : Spaced x.print x := ⟨[], rfl, rfl⟩
    cases xs with
    | nil =>
      have text : printBranches [x] = join [','] [x.print] := by rw [printBranches, join_singleton]
      exact ⟨[x.print], text, .cons first .nil⟩
    | cons y ys =>
      obtain ⟨ts, text, spaced⟩ := ih (by simp)
      cases spaced with
      | @cons t _ ts _ second others =>
        obtain ⟨gap, rfl, blank⟩ := second
        have next : Spaced (' ' :: (gap ++ y.print)) y := ⟨' ' :: gap, rfl, blank⟩
        refine ⟨x.print :: (' ' :: (gap ++ y.print)) :: ts, ?_, .cons first (.cons next others)⟩
        rw [printBranches, text, join_cons_cons, join_cons_head]
        simp

variable {ts : List Text} {xs : List Complex} (spaced : List.Forall₂ Spaced ts xs)

include spaced

theorem length_print_le {x : Complex} (h : x ∈ xs) :
    x.print.length ≤ (join [','] ts).length := by
  have found : ∃ t ∈ ts, Spaced t x := by
    induction spaced with
    | nil => cases h
    | cons first others ih =>
      rcases List.mem_cons.mp h with rfl | h
      · exact ⟨_, by simp, first⟩
      · obtain ⟨t, ht, spaced⟩ := ih h
        exact ⟨t, by simp [ht], spaced⟩
  obtain ⟨t, ht, gap, rfl, -⟩ := found
  have whole := length_le_join ',' ht
  rw [List.length_append] at whole
  omega

variable (formed : ∀ x ∈ xs, x.Formed)

include formed

theorem splitOuter_spaced (nonempty : xs ≠ []) : splitOuter ',' (join [','] ts) = ts := by
  have solid : ∀ t ∈ ts, Solid t := by
    clear nonempty
    induction spaced with
    | nil => simp
    | cons first others ih =>
      rw [List.forall_mem_cons]
      exact ⟨(first.whole (formed _ (by simp))).toSolid, ih fun x hx => formed x (by simp [hx])⟩
  apply splitOuter_join solid
  rintro rfl
  cases spaced
  exact nonempty rfl

theorem mapM_readBranch_iff {arguments : Text → Option (List Complex)}
    (deep : ∀ a xs, arguments a = some xs → AllFormed (compoundsOfBranches xs) → Balanced a) :
    ts.mapM (readBranch arguments) = some xs ↔
      ∀ x ∈ xs, (∀ c ∈ x.compounds, ∀ s ∈ c, s.ReadBy arguments) ∧ x.Inked := by
  rw [mapM_eq_some_iff]
  induction spaced with
  | nil => simp
  | @cons t x ts xs first others ih =>
    have head := formed x (by simp)
    rw [List.forall₂_cons, ih fun x hx => formed x (by simp [hx]), List.forall_mem_cons,
      readBranch_print_iff deep head (first.trim_eq head)]

theorem readList_succ_iff (nonempty : xs ≠ []) (n : Nat) :
    readList (n + 1) (join [','] ts) = some xs ↔
      ∀ x ∈ xs, (∀ c ∈ x.compounds, ∀ s ∈ c, s.ReadBy (readList n)) ∧ x.Inked := by
  rw [readList, splitOuter_spaced spaced formed nonempty]
  exact mapM_readBranch_iff spaced formed fun a xs => balanced_of_readList

end Lists

section Nesting

def Simple.LegibleWithin (s : Simple) : Prop := ∀ c ∈ s.compoundsWithin, ∀ s' ∈ c, s'.Legible

theorem Complex.mem_allCompounds {x : Complex} {d : Compound} :
    d ∈ x.allCompounds ↔ ∃ c ∈ x.compounds, d = c ∨ ∃ s ∈ c, d ∈ s.compoundsWithin := by
  cases x with
  | last c => simp [allCompounds, compounds, mem_compoundsOfCompound]
  | link c k rest =>
    simp [allCompounds, compounds, mem_compoundsOfCompound, mem_allCompounds (x := rest), or_assoc]

theorem Complex.legible_iff {x : Complex} :
    x.Legible ↔ ∀ c ∈ x.compounds, ∀ s ∈ c, s.Legible ∧ s.LegibleWithin := by
  simp only [Legible, mem_allCompounds, Simple.LegibleWithin]
  constructor
  · intro h c hc s hs
    exact ⟨h c ⟨c, hc, .inl rfl⟩ s hs, fun d hd => h d ⟨c, hc, .inr ⟨s, hs, hd⟩⟩⟩
  · rintro h d ⟨c, hc, rfl | ⟨s, hs, hd⟩⟩
    · exact fun s hs => (h d hc s hs).1
    · exact (h c hc s hs).2 d hd

theorem Simple.readBy_iff {arguments : Text → Option (List Complex)} {s : Simple}
    (inner : ∀ name bs, s = .functional name bs →
      (arguments (printBranches bs) = some bs ↔ ∀ x ∈ bs, x.Legible ∧ x.Inked)) :
    s.ReadBy arguments ↔ s.Legible ∧ s.LegibleWithin := by
  match s with
  | .functional name branches =>
    have within : (Simple.functional name branches).LegibleWithin ↔
        ∀ x ∈ branches, x.Legible := by
      simp only [LegibleWithin, compoundsWithin, mem_compoundsOfBranches, Complex.Legible]
      constructor
      · exact fun h x hx c hc => h c ⟨x, hx, hc⟩
      · rintro h c ⟨x, hx, hc⟩
        exact h x hx c hc
    rw [within, ReadBy, Simple.Legible, inner name branches rfl, and_assoc]
    simp only [imp_and, forall_and, and_comm]
  | .element _ | .className _ | .ident _ | .universal | .parent | .pseudoClass _
  | .pseudoElement _ | .functionalText _ _ | .attribute _ _ =>
    simp [ReadBy, Simple.Legible, LegibleWithin, compoundsWithin]

theorem length_print_le_compound {c : Compound} {s : Simple} (h : s ∈ c) :
    s.print.length ≤ (printCompound c).length := by
  induction c with
  | nil => cases h
  | cons s' c ih =>
    rw [printCompound, List.length_append]
    rcases List.mem_cons.mp h with rfl | h
    · omega
    · have rest := ih h
      omega

theorem length_printCompound_le {x : Complex} {c : Compound} (h : c ∈ x.compounds) :
    (printCompound c).length ≤ x.print.length := by
  match x with
  | .last d =>
    obtain rfl := List.mem_singleton.mp h
    exact Nat.le_refl _
  | .link d k rest =>
    rw [Complex.print, List.length_append, List.length_append]
    rcases List.mem_cons.mp h with rfl | h
    · omega
    · have tail := length_printCompound_le h
      omega

theorem Complex.formed_arguments {x : Complex} (formed : x.Formed) {c : Compound}
    (hc : c ∈ x.compounds) {name : Text} {bs : List Complex}
    (hs : Simple.functional name bs ∈ c) :
    bs ≠ [] ∧ (∀ y ∈ bs, y.Formed) ∧ (printBranches bs).length < x.print.length := by
  have named := (formed c (mem_allCompounds.mpr ⟨c, hc, .inl rfl⟩)).named _ hs
  refine ⟨named.2, ?_, ?_⟩
  · intro y hy d hd
    have within : d ∈ (Simple.functional name bs).compoundsWithin :=
      mem_compoundsOfBranches.mpr ⟨y, hy, hd⟩
    exact formed d (mem_allCompounds.mpr ⟨c, hc, .inr ⟨_, hs, within⟩⟩)
  · have simple := length_print_le_compound hs
    have whole := length_printCompound_le hc
    simp only [Simple.print, List.length_append, List.length_cons] at simple
    omega

/-- Where the inner reader reads back the legible arguments of a selector, the
selector is read back if it is legible. -/
theorem Complex.readBy_iff {arguments : Text → Option (List Complex)} {x : Complex}
    (formed : x.Formed)
    (inner : ∀ bs, bs ≠ [] → (∀ y ∈ bs, y.Formed) → (printBranches bs).length < x.print.length →
      (arguments (printBranches bs) = some bs ↔ ∀ y ∈ bs, y.Legible ∧ y.Inked)) :
    (∀ c ∈ x.compounds, ∀ s ∈ c, s.ReadBy arguments) ↔ x.Legible := by
  rw [legible_iff]
  apply forall₂_congr
  intro c hc
  apply forall₂_congr
  intro s hs
  apply Simple.readBy_iff
  rintro name bs rfl
  obtain ⟨some, within, shorter⟩ := formed_arguments formed hc hs
  exact inner bs some within shorter

theorem readList_spaced_iff {n : Nat} {ts : List Text} {xs : List Complex}
    (spaced : List.Forall₂ Spaced ts xs) (formed : ∀ x ∈ xs, x.Formed) (nonempty : xs ≠ [])
    (enough : (join [','] ts).length < n) :
    readList n (join [','] ts) = some xs ↔ ∀ x ∈ xs, x.Legible ∧ x.Inked := by
  induction n generalizing ts xs with
  | zero => omega
  | succ n ih =>
    rw [readList_succ_iff spaced formed nonempty]
    apply forall₂_congr
    intro x hx
    have short := length_print_le spaced hx
    rw [Complex.readBy_iff (formed x hx)]
    intro bs some within shorter
    obtain ⟨us, text, inside⟩ := spaced_printBranches some
    rw [text] at shorter ⊢
    exact ih inside within some (by omega)

end Nesting

theorem parseComplex_print_iff {x : Complex} (formed : x.Formed) :
    parseComplex x.print = some (x, []) ↔ x.Legible := by
  have deep : ∀ a xs, parseList a = some xs → AllFormed (compoundsOfBranches xs) → Balanced a :=
    fun a xs => balanced_of_readList
  rw [parseComplex, readComplex_print_iff deep formed]
  apply Complex.readBy_iff formed
  intro bs some within _
  obtain ⟨us, text, inside⟩ := spaced_printBranches some
  rw [text, parseList]
  exact readList_spaced_iff inside within some (Nat.lt_succ_self _)

theorem parseList_join_iff {xs : List Complex} (nonempty : xs ≠ []) (formed : ∀ x ∈ xs, x.Formed) :
    parseList (join [','] (xs.map Complex.print)) = some xs ↔ ∀ x ∈ xs, x.Legible ∧ x.Inked := by
  have spaced : List.Forall₂ Spaced (xs.map Complex.print) xs := by
    rw [List.forall₂_map_left_iff, List.forall₂_same]
    exact fun x _ => ⟨[], rfl, rfl⟩
  exact readList_spaced_iff spaced formed nonempty (Nat.lt_succ_self _)

/-- A formed selector is read back from its print exactly when it is legible, and
formed selectors with commas between them are read back in order exactly when none
loses a blank of a name besides. -/
theorem parse_print_iff {x : Complex} {xs : List Complex} (formed : ∀ y ∈ x :: xs, y.Formed) :
    (parseComplex x.print = some (x, []) ↔ x.Legible) ∧
      (parseList (join [','] ((x :: xs).map Complex.print)) = some (x :: xs) ↔
        ∀ y ∈ x :: xs, y.Legible ∧ y.Inked) :=
  ⟨parseComplex_print_iff (formed x (by simp)), parseList_join_iff (by simp) formed⟩

def figure : Complex :=
  .link [.element "ul", .className "2xl", .attribute "title" "\"a)\""] .child
    (.last [.universal, .functional "is" [.last [.className "a:b"], .last [.ident "c d"]]])

theorem figure_read_back :
    (∀ y ∈ [figure, figure], y.Formed ∧ y.Legible ∧ y.Inked) ∧
      figure.print = "ul.\\32 xl[title=\"a)\"] > *:is(.a\\:b, #c\\ d)".toList ∧
      parseComplex figure.print = some (figure, []) ∧
      parseList (join [','] ([figure, figure].map Complex.print)) = some [figure, figure] := by
  have formed : figure.Formed := by decide
  have legible : figure.Legible := by decide
  have inked : figure.Inked := by decide
  have both : ∀ y ∈ [figure, figure], y.Formed ∧ y.Legible ∧ y.Inked := by
    simp [formed, legible, inked]
  obtain ⟨one, list⟩ := parse_print_iff fun y hy => (both y hy).1
  exact ⟨both, by decide, one.mpr legible, list.mpr fun y hy => (both y hy).2⟩

/-- A quoted bracket, an escaped parenthesis in an argument and an escaped blank at
the end of a branch are each taken for what they are not. -/
theorem quoting_overlooked :
    (∃ x : Complex, x.Formed ∧ x.print = "[title=\"]\"]".toList ∧
      parseComplex x.print ≠ some (x, [])) ∧
    (∃ x : Complex, x.Formed ∧ x.print = ":is(.a\\()".toList ∧
      parseComplex x.print ≠ some (x, [])) ∧
    ∃ xs : List Complex, (∀ x ∈ xs, x.Formed) ∧
      join [','] (xs.map Complex.print) = ".a\\ ".toList ∧
        parseList (join [','] (xs.map Complex.print)) ≠ some xs := by
  refine ⟨⟨.last [.attribute "title" "\"]\""], by decide, by decide, ?_⟩,
    ⟨.last [.functional "is" [.last [.className "a("]]], by decide, by decide, ?_⟩,
    ⟨[.last [.className "a "]], by decide, by decide, ?_⟩⟩
  · rw [Ne, parseComplex_print_iff (by decide)]
    decide
  · rw [Ne, parseComplex_print_iff (by decide)]
    decide
  · rw [Ne, parseList_join_iff (by simp) (by decide)]
    decide

end UtilityLayer.Selector
