import UtilityLayer.Proofs.Selector.Spelling
import UtilityLayer.Selector.Printer

/-!
# Well-formed selectors

A selector is formed when its names are names, its attribute values are whole
strings, none of its compounds and lists is empty, and a type selector stands
only where it does not go on with a name. The print of a formed selector is
balanced, and so is every text that is read as one.
-/

set_option autoImplicit false

namespace UtilityLayer.Selector

open Text Css

mutual

def Simple.compoundsWithin : Simple → List Compound
  | .functional _ branches => compoundsOfBranches branches
  | _ => []

def compoundsOfCompound : List Simple → List Compound
  | [] => []
  | s :: ss => s.compoundsWithin ++ compoundsOfCompound ss

/-- All compounds of a selector, those in functional pseudo-classes included. -/
def Complex.allCompounds : Complex → List Compound
  | .last c => c :: compoundsOfCompound c
  | .link c _ rest => c :: (compoundsOfCompound c ++ rest.allCompounds)

def compoundsOfBranches : List Complex → List Compound
  | [] => []
  | x :: xs => x.allCompounds ++ compoundsOfBranches xs

end

theorem mem_compoundsOfCompound {c d : Compound} :
    d ∈ compoundsOfCompound c ↔ ∃ s ∈ c, d ∈ s.compoundsWithin := by
  induction c with
  | nil => simp [compoundsOfCompound]
  | cons s c ih => simp [compoundsOfCompound, ih]

theorem mem_compoundsOfBranches {xs : List Complex} {d : Compound} :
    d ∈ compoundsOfBranches xs ↔ ∃ x ∈ xs, d ∈ x.allCompounds := by
  induction xs with
  | nil => simp [compoundsOfBranches]
  | cons x xs ih => simp [compoundsOfBranches, ih]

def Quoted (t : Text) : Prop := ∃ q s, t = q :: s ∧ isQuote q = true ∧ StringRest q s

instance : (t : Text) → Decidable (Quoted t)
  | [] => isFalse nofun
  | q :: s => decidable_of_iff (isQuote q = true ∧ StringRest q s) ⟨fun h => ⟨q, s, rfl, h⟩, by
      rintro ⟨_, _, same, h⟩
      obtain ⟨rfl, rfl⟩ := List.cons.inj same
      exact h⟩

namespace Simple

/-- Names, values and lists are what they are in a stylesheet. -/
def WellNamed : Simple → Prop
  | .element name | .pseudoClass name | .pseudoElement name => Named name
  | .className name | .ident name => name ≠ []
  | .universal | .parent => True
  | .functional name branches => Named name ∧ branches ≠ []
  | .functionalText _ _ => False
  | .attribute name value => Named name ∧ (value = [] ∨ Quoted value)

instance : (s : Simple) → Decidable s.WellNamed
  | .element name | .pseudoClass name | .pseudoElement name =>
    inferInstanceAs (Decidable (Named name))
  | .className name | .ident name => inferInstanceAs (Decidable (name ≠ []))
  | .universal | .parent => inferInstanceAs (Decidable True)
  | .functional name branches =>
    have : Decidable (branches ≠ []) :=
      decidable_of_iff (branches.isEmpty = false) List.isEmpty_eq_false_iff
    inferInstanceAs (Decidable (Named name ∧ branches ≠ []))
  | .functionalText _ _ => inferInstanceAs (Decidable False)
  | .attribute name value => inferInstanceAs (Decidable (Named name ∧ (value = [] ∨ Quoted value)))

def endsNamed : Simple → Bool
  | .element _ | .className _ | .ident _ | .pseudoClass _ | .pseudoElement _ => true
  | _ => false

def isElement : Simple → Bool
  | .element _ => true
  | _ => false

end Simple

/-- A type selector stands in front, or after a selector that does not end with a
name. -/
def Apart : Compound → Prop
  | s :: s' :: ss => (s.endsNamed = true → s'.isElement = false) ∧ Apart (s' :: ss)
  | _ => True

instance decidableApart : (c : Compound) → Decidable (Apart c)
  | [] | [_] => inferInstanceAs (Decidable True)
  | s :: s' :: ss =>
    have := decidableApart (s' :: ss)
    inferInstanceAs (Decidable ((s.endsNamed = true → s'.isElement = false) ∧ Apart (s' :: ss)))

structure Compound.Formed (c : Compound) : Prop where
  nonempty : c ≠ []
  named : ∀ s ∈ c, s.WellNamed
  apart : Apart c

instance (c : Compound) : Decidable (Compound.Formed c) :=
  decidable_of_iff (c.isEmpty = false ∧ (∀ s ∈ c, s.WellNamed) ∧ Apart c)
    ⟨fun ⟨nonempty, named, apart⟩ => ⟨List.isEmpty_eq_false_iff.mp nonempty, named, apart⟩,
      fun ⟨nonempty, named, apart⟩ => ⟨List.isEmpty_eq_false_iff.mpr nonempty, named, apart⟩⟩

def AllFormed (cs : List Compound) : Prop := ∀ c ∈ cs, Compound.Formed c

def Complex.Formed (x : Complex) : Prop := AllFormed x.allCompounds

instance (x : Complex) : Decidable x.Formed :=
  inferInstanceAs (Decidable (∀ c ∈ x.allCompounds, Compound.Formed c))

theorem Complex.formed_last {c : Compound} :
    (Complex.last c).Formed ↔ Compound.Formed c ∧ AllFormed (compoundsOfCompound c) := by
  simp [Complex.Formed, AllFormed, allCompounds]

theorem Complex.formed_link {c : Compound} {k : Combinator} {x : Complex} :
    (Complex.link c k x).Formed ↔
      (Compound.Formed c ∧ AllFormed (compoundsOfCompound c)) ∧ x.Formed := by
  simp [Complex.Formed, AllFormed, allCompounds, or_imp, forall_and, and_assoc]

theorem allFormed_cons {s : Simple} {ss : Compound} :
    AllFormed (compoundsOfCompound (s :: ss)) ↔
      AllFormed s.compoundsWithin ∧ AllFormed (compoundsOfCompound ss) := by
  simp [AllFormed, compoundsOfCompound, or_imp, forall_and]

theorem allFormed_branches {x : Complex} {xs : List Complex} :
    AllFormed (compoundsOfBranches (x :: xs)) ↔
      x.Formed ∧ AllFormed (compoundsOfBranches xs) := by
  simp [AllFormed, Complex.Formed, compoundsOfBranches, or_imp, forall_and]

section Prints

theorem Quoted.whole {t : Text} (h : Quoted t) : Whole t := by
  obtain ⟨q, s, rfl, quote, rest⟩ := h
  exact whole_string quote rest

theorem whole_char {c : Char} (h : isPlain c = true) {t : Text} (ht : Whole t) : Whole (c :: t) :=
  (whole_of_isPlain h).append ht

theorem whole_functional {name argument : Text} (named : Named name) (h : Balanced argument) :
    Whole (':' :: name ++ '(' :: (argument ++ [')'])) :=
  (whole_char (by decide) (whole_name named.2)).append (.bracketed h rfl rfl)

theorem whole_combinator (k : Combinator) : Whole k.print := by
  have between : k.print.all isBetween = true := by cases k <;> decide
  exact .of_forall (by decide) (List.all_eq_true.mp between)

mutual

theorem Simple.whole_print {s : Simple} (named : s.WellNamed)
    (within : AllFormed s.compoundsWithin) : Whole s.print := by
  match s with
  | .element name => exact whole_name named.2
  | .className name => exact whole_classSelector name
  | .ident name => exact whole_char (by decide) (whole_escape name)
  | .universal => exact whole_of_isPlain (by decide)
  | .parent => exact whole_of_isPlain (by decide)
  | .pseudoClass name => exact whole_char (by decide) (whole_name named.2)
  | .pseudoElement name =>
    exact whole_char (by decide) (whole_char (by decide) (whole_name named.2))
  | .functional name branches =>
    have inside := balanced_printBranches within
    have whole := whole_functional named.1 inside
    simpa [Simple.print] using whole
  | .functionalText name argument => exact named.elim
  | .attribute name value =>
    have content : Whole (name ++ (if value = [] then [] else '=' :: value)) := by
      apply (whole_name named.1.2).append
      split
      · exact .nil
      · rename_i some
        exact whole_char (by decide) (named.2.resolve_left some).whole
    have whole := Whole.bracketed content.balanced (o := '[') (z := ']') rfl rfl
    simpa [Simple.print] using whole

theorem whole_printCompound {c : List Simple} (named : ∀ s ∈ c, s.WellNamed)
    (within : AllFormed (compoundsOfCompound c)) : Whole (printCompound c) := by
  match c with
  | [] => exact .nil
  | s :: ss =>
    obtain ⟨first, rest⟩ := allFormed_cons.mp within
    rw [printCompound]
    exact (Simple.whole_print (named s (by simp)) first).append
      (whole_printCompound (fun s hs => named s (by simp [hs])) rest)

theorem Complex.whole_print {x : Complex} (h : x.Formed) : Whole x.print := by
  match x with
  | .last c =>
    obtain ⟨formed, within⟩ := Complex.formed_last.mp h
    exact whole_printCompound formed.named within
  | .link c k rest =>
    obtain ⟨⟨formed, within⟩, others⟩ := Complex.formed_link.mp h
    rw [Complex.print]
    exact ((whole_printCompound formed.named within).append (whole_combinator k)).append
      (Complex.whole_print others)

theorem balanced_printBranches {xs : List Complex} (h : AllFormed (compoundsOfBranches xs)) :
    Balanced (printBranches xs) := by
  match xs with
  | [] => exact .nil
  | [x] => exact (Complex.whole_print (allFormed_branches.mp h).1).balanced
  | x :: y :: ys =>
    obtain ⟨first, rest⟩ := allFormed_branches.mp h
    have comma : Balanced [',', ' '] := ⟨by decide, by decide⟩
    rw [printBranches]
    · exact (Complex.whole_print first).balanced.append
        (comma.append (balanced_printBranches rest))
    · simp

end

end Prints

section Readings

theorem whole_trimmed {t : Text} (h : Whole (trim t)) : Whole t := by
  obtain ⟨a, z, ht, ha, hz⟩ := exists_trim t
  rw [ht]
  exact ((whole_blank ha).append h).append (whole_blank hz)

theorem whole_attributeOf {content : Text} (named : (attributeOf content).WellNamed) :
    Whole content := by
  rw [attributeOf] at named
  split at named
  · rename_i name value cut
    obtain ⟨rfl, -⟩ := cut?_eq_some cut
    have trimmed : Whole (trim value) := by
      rcases named.2 with empty | quoted
      · rw [empty]
        exact .nil
      · exact quoted.whole
    exact (whole_trimmed (whole_name named.1.2)).append
      (whole_char (by decide) (whole_trimmed trimmed))
  · exact whole_trimmed (whole_name named.1.2)

variable {arguments : Text → Option (List Complex)}
  (deep : ∀ a xs, arguments a = some xs → AllFormed (compoundsOfBranches xs) → Balanced a)

include deep

theorem Simple.Spelled.whole {s : Simple} {w : Text} (h : s.Spelled arguments w)
    (named : s.WellNamed) (within : AllFormed s.compoundsWithin) : Whole w := by
  cases h with
  | element _ => exact whole_name named.2
  | className _ whole => exact whole_char (by decide) whole
  | ident _ whole => exact whole_char (by decide) whole
  | universal => exact whole_of_isPlain (by decide)
  | parent => exact whole_of_isPlain (by decide)
  | pseudoClass _ => exact whole_char (by decide) (whole_name named.2)
  | pseudoElement _ =>
    exact whole_char (by decide) (whole_char (by decide) (whole_name named.2))
  | functional _ read => exact whole_functional named.1 (deep _ _ read within)
  | functionalText _ _ => exact named.elim
  | bracketed _ => exact .bracketed (whole_attributeOf named).balanced rfl rfl

theorem CompoundSpelled.whole {c : Compound} {w : Text} (h : CompoundSpelled arguments c w)
    (named : ∀ s ∈ c, s.WellNamed) (within : AllFormed (compoundsOfCompound c)) : Whole w := by
  induction h with
  | nil => exact .nil
  | cons first rest ih =>
    obtain ⟨formed, others⟩ := allFormed_cons.mp within
    exact (first.whole deep (named _ (by simp)) formed).append
      (ih (fun s hs => named s (by simp [hs])) others)

theorem Complex.Spelled.whole {x : Complex} {w : Text} (h : x.Spelled arguments w)
    (formed : x.Formed) : Whole w := by
  induction h with
  | last compound =>
    obtain ⟨first, within⟩ := formed_last.mp formed
    exact compound.whole deep first.named within
  | link compound combinator rest ih =>
    obtain ⟨⟨first, within⟩, others⟩ := formed_link.mp formed
    have between : Whole _ :=
      .of_forall (p := isBetween) (by decide) (List.all_eq_true.mp combinator)
    exact (compound.whole deep first.named within).append (between.append (ih others))

theorem whole_of_readBranch {t : Text} {x : Complex} (h : readBranch arguments t = some x)
    (formed : x.Formed) : Whole t := by
  obtain ⟨a, w, z, rfl, ha, hz, spelled⟩ := readBranch_spelled h
  exact (whole_blank ha).append ((spelled.whole deep formed).append (whole_blank hz))

theorem balanced_of_branches {ts : List Text} {xs : List Complex}
    (read : List.Forall₂ (fun t x => readBranch arguments t = some x) ts xs)
    (formed : AllFormed (compoundsOfBranches xs)) : Balanced (join [','] ts) := by
  induction read with
  | nil => exact .nil
  | @cons t x ts xs hx others ih =>
    obtain ⟨first, rest⟩ := allFormed_branches.mp formed
    have balanced := (whole_of_readBranch deep hx first).balanced
    cases ts with
    | nil =>
      rw [join_singleton]
      exact balanced
    | cons u ts =>
      have comma : Balanced [','] := ⟨by decide, by decide⟩
      rw [join_cons_cons]
      exact balanced.append (comma.append (ih rest))

end Readings

theorem balanced_of_readList {n : Nat} {t : Text} {xs : List Complex} (h : readList n t = some xs)
    (formed : AllFormed (compoundsOfBranches xs)) : Balanced t := by
  induction n generalizing t xs with
  | zero => cases h
  | succ n ih =>
    have parts := balanced_of_branches (fun a xs => ih) (mapM_eq_some_iff.mp h) formed
    rwa [splitOuter, join_splitFrom] at parts

end UtilityLayer.Selector
