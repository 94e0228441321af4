import UtilityLayer.Proofs.Layer.Cascade
import UtilityLayer.Proofs.Selector.Mentions

/-!
# The rules that mention a class

A selector list mentions the classes that its readers name, at any depth and in
`:not()` too, and those written in an argument that is no selector list. A rule is
covered exactly if the base of one of them is. Dots in strings and escaped dots
bring no class in.
-/

set_option autoImplicit false

namespace UtilityLayer.Layer

open Text Css Selector

variable {t n : Text} {xs : List Selector.Complex}

/-- The class is named by the list, or written in an argument kept as a text. -/
def Mentions (xs : List Selector.Complex) (n : Text) : Prop :=
  n ∈ namesOfBranches xs ∨
    ∃ name argument, .functionalText name argument ∈ atomsOfBranches xs ∧ n ∈ mentions argument

theorem mem_shown {s : Simple} : n ∈ s.shown ↔
    n ∈ s.ownNames ∨ ∃ name argument, s = .functionalText name argument ∧ n ∈ mentions argument := by
  cases s <;> simp [Simple.shown, Simple.ownNames]

theorem mem_flatMap_shown :
    n ∈ (atomsOfBranches xs).flatMap Simple.shown ↔ Mentions xs n := by
  rw [Mentions, namesOfBranches_eq, List.mem_flatMap, List.mem_flatMap]
  constructor
  · rintro ⟨s, hs, hn⟩
    rcases mem_shown.mp hn with own | ⟨name, argument, rfl, found⟩
    · exact .inl ⟨s, hs, own⟩
    · exact .inr ⟨name, argument, hs, found⟩
  · rintro (⟨s, hs, own⟩ | ⟨name, argument, hs, found⟩)
    · exact ⟨s, hs, mem_shown.mpr (.inl own)⟩
    · exact ⟨_, hs, found⟩

theorem flatMap_shown_eq
    (none : ∀ name argument, .functionalText name argument ∈ atomsOfBranches xs →
      mentions argument = []) :
    (atomsOfBranches xs).flatMap Simple.shown = namesOfBranches xs := by
  rw [namesOfBranches_eq]
  apply List.flatMap_congr
  intro s hs
  cases s with
  | functionalText name argument => exact none name argument hs
  | _ => rfl

/-- A selector list whose atoms are sealed, with no blank outside ASCII taken for
the end of a name. -/
theorem mentions_iff (read : parseList t = some xs)
    (closed : ∀ s ∈ atomsOfBranches xs, s.Sealed) (plain : ∀ n ∈ mentions t, PlainEnd n) :
    (∀ n, n ∈ mentions t ↔ Mentions xs n) ∧
      ((∀ name argument, .functionalText name argument ∈ atomsOfBranches xs →
        mentions argument = []) → mentions t = namesOfBranches xs) ∧
      ∀ covered, isCovered covered t = true ↔
        ∃ n, Mentions xs n ∧ covered.contains (Token.baseClassOf n) = true := by
  have same := mentions_eq read closed plain
  have members (n : Text) : n ∈ mentions t ↔ Mentions xs n := by
    rw [same]
    exact mem_flatMap_shown
  refine ⟨members, fun none => same.trans (flatMap_shown_eq none), ?_⟩
  intro covered
  have rule : startsWith "@" t = false := by
    rw [startsWith_at]
    exact Utility.not_isAtRule_of_parseList read
  rw [isCovered, rule, Bool.not_false, Bool.true_and, List.any_eq_true]
  simp only [members]

def nestedSelector : Text := ".md\\:p-4 > a:not(.c, [title=\".d\"]):has(> .e)"

theorem nestedSelector_mentions : ∃ xs, parseList nestedSelector = some xs ∧
    (∀ s ∈ atomsOfBranches xs, s.Sealed) ∧ (∀ n ∈ mentions nestedSelector, PlainEnd n) ∧
    mentions nestedSelector = [("md:p-4" : Text), ("c" : Text), ("e" : Text)] ∧
    namesOfBranches xs = [("md:p-4" : Text), ("c" : Text)] ∧
    (∀ n, n ∈ mentions nestedSelector ↔ Mentions xs n) ∧
    ∀ covered, isCovered covered nestedSelector = true ↔
      ∃ n, Mentions xs n ∧ covered.contains (Token.baseClassOf n) = true := by
  have evaluated : (parseList nestedSelector).map (fun xs =>
      (namesOfBranches xs, decide (∀ s ∈ atomsOfBranches xs, s.Sealed))) =
        some ([("md:p-4" : Text), ("c" : Text)], true) := by
    decide +kernel
  obtain ⟨xs, read, found⟩ := Option.map_eq_some_iff.mp evaluated
  obtain ⟨names, closed⟩ := Prod.mk.inj found
  have sealed := of_decide_eq_true closed
  have all : mentions nestedSelector = [("md:p-4" : Text), ("c" : Text), ("e" : Text)] := by
    decide +kernel
  have plain : ∀ n ∈ mentions nestedSelector, PlainEnd n := by
    rw [all]
    decide
  obtain ⟨members, -, covers⟩ := mentions_iff read sealed plain
  exact ⟨xs, read, sealed, plain, all, names, members, covers⟩

def relativeSelector : Text := ".card:has(> .a)"

/-- A class in an argument that begins with a combinator is found by the scan, and
the readers keep the argument as a text. -/
theorem relative_class_mentioned : ∃ xs, parseList relativeSelector = some xs ∧
    ¬ ∀ n, n ∈ mentions relativeSelector ↔ n ∈ namesOfBranches xs := by
  have evaluated : (parseList relativeSelector).map namesOfBranches = some [("card" : Text)] := by
    decide +kernel
  obtain ⟨xs, read, names⟩ := Option.map_eq_some_iff.mp evaluated
  have all : mentions relativeSelector = [("card" : Text), ("a" : Text)] := by decide +kernel
  refine ⟨xs, read, ?_⟩
  intro same
  have named := (same "a").mp (by rw [all]; decide)
  rw [names] at named
  exact absurd named (by decide)

end UtilityLayer.Layer
