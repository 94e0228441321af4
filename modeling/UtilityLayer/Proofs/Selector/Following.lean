import UtilityLayer.Proofs.Selector.Names
import UtilityLayer.Proofs.Selector.Spelling

/-!
# Following the readers

The readers of compounds, chains and branches take simple selectors off a text
and pass over what stands between them. A relation that holds of both steps, and
from one step to the next, holds of whatever the readers read. It may speak of the
simple selectors that hold no others, in the order they stand in at any depth.
-/

set_option autoImplicit false

namespace UtilityLayer.Selector

open Text Css

mutual

def Simple.atoms : Simple → List Simple
  | .functional _ branches => atomsOfBranches branches
  | s => [s]

def atomsOfCompound : List Simple → List Simple
  | [] => []
  | s :: ss => s.atoms ++ atomsOfCompound ss

def Complex.atoms : Complex → List Simple
  | .last c => atomsOfCompound c
  | .link c _ rest => atomsOfCompound c ++ rest.atoms

def atomsOfBranches : List Complex → List Simple
  | [] => []
  | x :: xs => x.atoms ++ atomsOfBranches xs

end

def Simple.ownNames : Simple → List Text
  | .className name => [name]
  | _ => []

mutual

theorem Simple.names_eq (s : Simple) : s.names = s.atoms.flatMap Simple.ownNames := by
  match s with
  | .functional _ branches => exact namesOfBranches_eq branches
  | .className _ | .element _ | .ident _ | .universal | .parent | .pseudoClass _
  | .pseudoElement _ | .functionalText _ _ | .attribute _ _ => rfl

theorem namesOfCompound_eq (c : Compound) :
    namesOfCompound c = (atomsOfCompound c).flatMap Simple.ownNames := by
  match c with
  | [] => rfl
  | s :: ss =>
    rw [namesOfCompound, atomsOfCompound, List.flatMap_append, s.names_eq, namesOfCompound_eq ss]

theorem Complex.names_eq (x : Complex) : x.names = x.atoms.flatMap Simple.ownNames := by
  match x with
  | .last c => exact namesOfCompound_eq c
  | .link c k rest =>
    rw [Complex.names, Complex.atoms, List.flatMap_append, namesOfCompound_eq c, rest.names_eq]

theorem namesOfBranches_eq (xs : List Complex) :
    namesOfBranches xs = (atomsOfBranches xs).flatMap Simple.ownNames := by
  match xs with
  | [] => rfl
  | x :: xs =>
    rw [namesOfBranches, atomsOfBranches, List.flatMap_append, x.names_eq, namesOfBranches_eq xs]

end

/-- A relation of a text, what is left of it, and the atoms read in between. -/
structure Follows (arguments : Text → Option (List Complex))
    (r : List Simple → Text → Text → Prop) : Prop where
  refl : ∀ t, r [] t t
  trans : ∀ {a b : List Simple} {t u v : Text}, r a t u → r b u v → r (a ++ b) t v
  between : ∀ {c : Char}, isBetween c = true → ∀ t, r [] (c :: t) t
  simple : ∀ {t rest : Text} {s : Simple}, readSimple arguments t = some (s, rest) →
    r s.atoms t rest

namespace Follows

variable {arguments : Text → Option (List Complex)} {r : List Simple → Text → Text → Prop}
  {t rest : Text}

theorem blank (law : Follows arguments r) (h : isBlankText t = true) : r [] t [] := by
  induction t with
  | nil => exact law.refl []
  | cons c t ih =>
    obtain ⟨hc, ht⟩ : isBlank c = true ∧ isBlankText t = true := by simpa [isBlankText] using h
    exact law.trans (law.between (by simp [isBetween, hc]) t) (ih ht)

theorem gap (law : Follows arguments r) (t : Text) : r [] t (skipGap t) := by
  induction t with
  | nil => exact law.refl []
  | cons c t ih =>
    rw [skipGap, List.dropWhile_cons]
    split
    · rename_i hc
      exact law.trans (law.between (by simp [isBetween, isBlank_of_isGap hc]) t) ih
    · exact law.refl _

theorem simples (law : Follows arguments r) (t : Text) :
    r (atomsOfCompound (readSimples arguments t).1) t (readSimples arguments t).2 := by
  fun_induction readSimples arguments t with
  | case1 t h => exact law.refl t
  | case2 t s rest h ss u hs ih =>
    rw [hs] at ih
    exact law.trans (law.simple h) ih

theorem compound (law : Follows arguments r) {c : Compound}
    (h : readCompound arguments t = some (c, rest)) : r (atomsOfCompound c) t rest := by
  have whole := law.simples t
  rwa [(readCompound_eq_some_iff.mp h).2] at whole

theorem link (law : Follows arguments r) {k : Combinator} {c : Compound}
    (h : readLink arguments t = some (k, c, rest)) : r (atomsOfCompound c) t rest := by
  have lead := law.gap t
  rw [readLink] at h
  split at h
  · cases h
  · rename_i d u hd
    rw [hd] at lead
    split at h
    · rename_i k' hk
      obtain ⟨⟨x, v⟩, hx, hs⟩ := Option.map_eq_some_iff.mp h
      obtain ⟨-, hs⟩ := Prod.mk.inj hs
      obtain ⟨rfl, rfl⟩ := Prod.mk.inj hs
      have mark := law.between (c := d) (by simp [isBetween, hk]) u
      exact law.trans (law.trans lead mark) (law.trans (law.gap u) (law.compound hx))
    · split at h
      · cases h
      · obtain ⟨⟨x, v⟩, hx, hs⟩ := Option.map_eq_some_iff.mp h
        obtain ⟨-, hs⟩ := Prod.mk.inj hs
        obtain ⟨rfl, rfl⟩ := Prod.mk.inj hs
        exact law.trans lead (law.compound hx)

theorem links (law : Follows arguments r) (c : Compound) (t : Text) :
    ∃ after, (readLinks arguments c t).1.atoms = atomsOfCompound c ++ after ∧
      r after t (readLinks arguments c t).2 := by
  fun_induction readLinks arguments c t with
  | case1 c t h => exact ⟨[], (List.append_nil _).symm, law.refl t⟩
  | case2 c t k c' rest h x u hs ih =>
    rw [hs] at ih
    obtain ⟨after, same, reads⟩ := ih
    exact ⟨atomsOfCompound c' ++ after, by rw [← same]; rfl, law.trans (law.link h) reads⟩

theorem complex (law : Follows arguments r) {x : Complex}
    (h : readComplex arguments t = some (x, rest)) : r x.atoms t rest := by
  obtain ⟨⟨c, u⟩, hc, hr⟩ := Option.map_eq_some_iff.mp h
  have whole : readLinks arguments c u = (x, rest) := hr
  obtain ⟨after, same, reads⟩ := law.links c u
  rw [whole] at same reads
  rw [same]
  exact law.trans (law.compound hc) reads

theorem branch (law : Follows arguments r) {x : Complex}
    (h : readBranch arguments t = some x) : r x.atoms (trim t) [] := by
  rw [readBranch] at h
  split at h
  · rename_i y rest hy
    split at h
    · rename_i blank
      obtain rfl := Option.some.inj h
      have whole := law.trans (law.complex hy) (law.blank blank)
      rwa [List.append_nil] at whole
    · cases h
  · cases h

end Follows

end UtilityLayer.Selector
