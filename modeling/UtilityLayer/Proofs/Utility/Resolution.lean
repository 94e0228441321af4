import Mathlib.Data.List.Nodup
import UtilityLayer.Proofs.Keyed
import UtilityLayer.Proofs.Theme.Declarations
import UtilityLayer.Utility.Table

/-!
# How a base class resolves

A class belongs to the last variable, in the order of first definitions, that
generates it. A base class resolves to the body that its owner generates, or,
with a percentage after a slash, to the body of a color class with the
variable's reference mixed with transparency.
-/

set_option autoImplicit false

namespace UtilityLayer

open Text Theme

namespace Text

theorem cutLast?_eq_some_iff {mark : Char} {t a b : Text} :
    cutLast? mark t = some (a, b) ↔ t = a ++ mark :: b ∧ mark ∉ b := by
  constructor
  · intro h
    obtain ⟨p, hp, hab⟩ := Option.map_eq_some_iff.mp h
    obtain ⟨rfl, rfl⟩ := Prod.mk.inj hab
    obtain ⟨written, clear⟩ := cut?_eq_some hp
    exact ⟨by simpa using congrArg List.reverse written, by simpa using clear⟩
  · rintro ⟨rfl, clear⟩
    have reversed := cut?_append (a := b.reverse) (by simpa using clear) a.reverse
    simp [cutLast?, reversed]

end Text

namespace Utility

/-- A variable generates a class as the declaration of a property. -/
inductive Generates (colors : Colors) (name : Text) : Text → Family → Text → Prop
  | mk {family : Family} {suffix stem property : Text}
      (recognised : familyOf? name = some (family, suffix))
      (target : (stem, property) ∈ targets colors family) :
      Generates colors name (stem ++ '-' :: suffix) family property

/-- The last of the variables that generates the class. -/
structure Owner (names : List Text) (colors : Colors) (className name : Text) (family : Family)
    (property : Text) : Prop where
  generates : Generates colors name className family property
  last : ∃ before after, names = before ++ name :: after ∧
    ∀ later ∈ after, ∀ f p, ¬ Generates colors later className f p

variable {colors : Colors} {names : List Text} {name className : Text}

theorem targets_all (f : Family) :
    ((targets .all f).map Prod.fst).Nodup ∧ ∀ t ∈ targets .all f, '/' ∉ t.1 ∧ '(' ∉ t.2 := by
  cases f <;> decide

theorem targets_sublist (colors : Colors) (f : Family) :
    (targets colors f).Sublist (targets .all f) := by
  have chosen : colors.toList.Sublist Colors.all.toList := by
    have whole : Colors.all.toList = ColorTarget.all := by decide
    rw [whole]
    exact List.filter_sublist
  cases f with
  | color => exact chosen.map _
  | _ => exact .refl _

theorem nodup_stems (colors : Colors) (f : Family) : ((targets colors f).map Prod.fst).Nodup :=
  (targets_all f).1.sublist ((targets_sublist colors f).map Prod.fst)

theorem keys_generate (f : Family) (suffix value : Text) (colors : Colors) :
    Keyed.keys (generate f suffix value colors) =
      ((targets colors f).map Prod.fst).map (· ++ '-' :: suffix) := by
  simp [Keyed.keys, generate]

theorem nodup_generate (f : Family) (suffix value : Text) (colors : Colors) :
    (Keyed.keys (generate f suffix value colors)).Nodup := by
  rw [keys_generate]
  exact List.Nodup.map (fun _ _ h => List.append_cancel_right h) (nodup_stems colors f)

theorem nodup_generatedBy (colors : Colors) (name : Text) :
    (Keyed.keys (generatedBy colors name)).Nodup := by
  rw [generatedBy.eq_def]
  split
  · exact List.nodup_nil
  · rename_i family suffix _
    simpa [Keyed.keys, Function.comp_def] using nodup_generate family suffix (reference name) colors

def entryOf (name : Text) (f : Family) (suffix stem property : Text) : Text × Generated :=
  let className := stem ++ '-' :: suffix
  (className, ⟨{ className, body := declaration property (reference name) }, ⟨f, suffix, name⟩⟩)

theorem mem_generatedBy {e : Text × Generated} :
    e ∈ generatedBy colors name ↔ ∃ f suffix stem property,
      familyOf? name = some (f, suffix) ∧ (stem, property) ∈ targets colors f ∧
        e = entryOf name f suffix stem property := by
  rw [generatedBy.eq_def]
  cases h : familyOf? name with
  | none => simp
  | some r =>
    obtain ⟨f, suffix⟩ := r
    simp only [generate, List.map_map, List.mem_map, Prod.exists]
    constructor
    · rintro ⟨stem, property, target, rfl⟩
      exact ⟨f, suffix, stem, property, rfl, target, rfl⟩
    · rintro ⟨f', suffix', stem, property, same, target, rfl⟩
      obtain ⟨rfl, rfl⟩ := Prod.mk.inj (Option.some.inj same)
      exact ⟨stem, property, target, rfl⟩

theorem get?_generatedBy_iff {g : Generated} :
    Keyed.get? className (generatedBy colors name) = some g ↔
      (className, g) ∈ generatedBy colors name :=
  ⟨Keyed.mem_of_get?, Keyed.get?_of_mem (nodup_generatedBy colors name)⟩

theorem get?_generatedBy_eq_none_iff :
    Keyed.get? className (generatedBy colors name) = none ↔
      ∀ f p, ¬ Generates colors name className f p := by
  rw [Keyed.get?_eq_none_iff, Keyed.keys, List.mem_map]
  constructor
  · rintro none f p ⟨recognised, target⟩
    exact none ⟨_, mem_generatedBy.mpr ⟨_, _, _, _, recognised, target, rfl⟩, rfl⟩
  · rintro none ⟨e, he, rfl⟩
    obtain ⟨f, suffix, stem, property, recognised, target, rfl⟩ := mem_generatedBy.mp he
    exact none f property (.mk recognised target)

namespace Table

theorem find?_build (vars : Variables) (colors : Colors) (className : Text) :
    (build vars colors).find? className = (Keyed.keys vars.entries).reverse.findSome?
      fun name => Keyed.get? className (generatedBy colors name) := by
  have fold (names : List Text) : Keyed.get? className ((names.flatMap (generatedBy colors)).foldl
      (fun es g => Keyed.set g.1 g.2 es) []) =
        names.reverse.findSome? fun name => Keyed.get? className (generatedBy colors name) := by
    induction names using List.reverseRecOn with
    | nil => rfl
    | append_singleton names name ih =>
      rw [List.flatMap_append, List.flatMap_singleton, List.foldl_append,
        Keyed.get?_foldl_set (nodup_generatedBy colors name), ih]
      rw [List.reverse_concat, List.findSome?_cons]
      cases Keyed.get? className (generatedBy colors name) <;> rfl
  rw [find?, build, ← fold, Keyed.keys, List.flatMap_map]

end Table

theorem find?_generate {f : Family} {suffix value body : Text} :
    (generate f suffix value colors).find? (fun e => e.1 = className) = some (className, body) ↔
      ∃ stem property, (stem, property) ∈ targets colors f ∧ className = stem ++ '-' :: suffix ∧
        body = declaration property value := by
  rw [Keyed.find?_eq_map_get?]
  constructor
  · intro h
    obtain ⟨found, hf, same⟩ := Option.map_eq_some_iff.mp h
    obtain ⟨⟨stem, property⟩, target, made⟩ := List.mem_map.mp (Keyed.mem_of_get? hf)
    obtain ⟨rfl, rfl⟩ := Prod.mk.inj made
    exact ⟨stem, property, target, rfl, (Prod.mk.inj same).2.symm⟩
  · rintro ⟨stem, property, target, rfl, rfl⟩
    have member : (stem ++ '-' :: suffix, declaration property value) ∈
        generate f suffix value colors := List.mem_map_of_mem target
    rw [Keyed.get?_of_mem (nodup_generate f suffix value colors) member]
    rfl

namespace Table

variable {vars : Variables}

theorem find?_of_owner {f : Family} {property : Text}
    (h : Owner (Keyed.keys vars.entries) colors className name f property) :
    ∃ suffix stem, (stem, property) ∈ targets colors f ∧ className = stem ++ '-' :: suffix ∧
      (build vars colors).find? className = some (entryOf name f suffix stem property).2 := by
  obtain ⟨⟨recognised, target⟩, before, after, order, last⟩ := h
  refine ⟨_, _, target, rfl, ?_⟩
  rw [find?_build, List.findSome?_eq_some_iff]
  refine ⟨after.reverse, name, before.reverse, by simp [order], ?_, ?_⟩
  · exact get?_generatedBy_iff.mpr (mem_generatedBy.mpr ⟨_, _, _, _, recognised, target, rfl⟩)
  · intro later hl
    exact get?_generatedBy_eq_none_iff.mpr (last later (List.mem_reverse.mp hl))

theorem owner_of_find? {g : Generated} (h : (build vars colors).find? className = some g) :
    ∃ name f suffix stem property, Owner (Keyed.keys vars.entries) colors className name f property ∧
      familyOf? name = some (f, suffix) ∧ className = stem ++ '-' :: suffix ∧
        g = (entryOf name f suffix stem property).2 := by
  rw [find?_build, List.findSome?_eq_some_iff] at h
  obtain ⟨after, name, before, order, made, last⟩ := h
  obtain ⟨f, suffix, stem, property, recognised, target, same⟩ :=
    mem_generatedBy.mp (get?_generatedBy_iff.mp made)
  obtain ⟨rfl, rfl⟩ := Prod.mk.inj same
  refine ⟨name, f, suffix, stem, property, ⟨.mk recognised target, ?_⟩, recognised, rfl, rfl⟩
  refine ⟨before.reverse, after.reverse, ?_, ?_⟩
  · simpa using congrArg List.reverse order
  · intro later hl
    exact get?_generatedBy_eq_none_iff.mp (last later (List.mem_reverse.mp hl))

end Table

/-- The second text is the first with one text in the place of another, which
stands there and nowhere else. -/
def ReplacedOnce (old new s t : Text) : Prop :=
  ∃ a z, s = a ++ old ++ z ∧ t = a ++ new ++ z ∧ ∀ a' z', s = a' ++ old ++ z' → a' = a

theorem ReplacedOnce.unique {old new s t t' : Text} (h : ReplacedOnce old new s t)
    (h' : ReplacedOnce old new s t') : t = t' := by
  obtain ⟨a, z, hs, rfl, -⟩ := h
  obtain ⟨a', z', hs', rfl, only⟩ := h'
  obtain rfl := only a z hs
  rw [List.append_cancel_left (hs.symm.trans hs')]

theorem reference_eq (name : Text) :
    reference name = 'v' :: 'a' :: 'r' :: '(' :: (name ++ [')']) := by
  simp [reference]

/-- What stands before a reference cannot be a part of another one, unless it
holds a parenthesis. -/
theorem eq_nil_of_reference {name w z : Text} (bare : '(' ∉ w)
    (h : reference name ++ z = w ++ reference name ++ [';']) : w = [] := by
  rw [reference_eq] at h
  match w, h with
  | [], _ => rfl
  | [a], h => simp at h
  | [a, b], h => simp at h
  | [a, b, c], h => simp at h
  | a :: b :: c :: d :: w, h =>
    simp only [List.cons_append, List.cons.injEq] at h
    simp [← h.2.2.2.1] at bare

theorem replacedOnce_declaration {property : Text} (bare : '(' ∉ property) (name new : Text) :
    ReplacedOnce (reference name) new (declaration property (reference name))
      (declaration property new) := by
  have front : '(' ∉ property ++ ": ".toList := by simp [bare]
  refine ⟨property ++ ": ".toList, [';'], rfl, rfl, ?_⟩
  intro a z same
  have split : (property ++ ": ".toList) ++ (reference name ++ [';']) = a ++ (reference name ++ z) := by
    simpa [declaration, List.append_assoc] using same
  rcases List.append_eq_append_iff.mp split with ⟨w, rfl, hw⟩ | ⟨w, hw, rest⟩
  · have length := congrArg List.length hw
    simp only [List.length_append, List.length_singleton] at length
    cases z with
    | nil =>
      have last : reference name ++ [';'] = (w ++ 'v' :: 'a' :: 'r' :: '(' :: name) ++ [')'] := by
        rw [hw, reference_eq]
        simp
      simpa using (List.append_inj' last rfl).2
    | cons d z =>
      obtain rfl : w = [] := List.length_eq_zero_iff.mp (by simp at length; omega)
      simp
  · rw [hw, List.mem_append, not_or] at front
    obtain rfl := eq_nil_of_reference front.2 (by simpa [List.append_assoc] using rest)
    simpa using hw.symm

/-- A class with the body that its owner generates. -/
inductive Owned (names : List Text) (colors : Colors) : Text → Utility → Prop
  | mk {className name property : Text} {f : Family}
      (owner : Owner names colors className name f property) :
      Owned names colors className
        { className, body := declaration property (reference name) }

/-- A class of a color variable with a percentage after a slash: the body of the
class with the variable's reference mixed with transparency. -/
inductive Faded (names : List Text) (colors : Colors) : Text → Utility → Prop
  | mk {className digits name property body : Text}
      (percent : digits ≠ [] ∧ (∀ d ∈ digits, d.isDigit = true) ∧ ofDecimal digits ≤ 100)
      (owner : Owner names colors className name .color property)
      (mixed : ReplacedOnce (reference name) (translucent name (ofDecimal digits))
        (declaration property (reference name)) body) :
      Faded names colors (className ++ '/' :: digits)
        { className := className ++ '/' :: digits, body }

theorem percent?_eq_some_iff {t : Text} {n : Nat} :
    percent? t = some n ↔
      (t ≠ [] ∧ (∀ d ∈ t, d.isDigit = true) ∧ ofDecimal t ≤ 100) ∧ n = ofDecimal t := by
  by_cases digits : t ≠ [] ∧ t.all Char.isDigit = true
  · have all := List.all_eq_true.mp digits.2
    by_cases small : ofDecimal t ≤ 100
    · rw [percent?, if_pos digits, if_pos small, Option.some_inj]
      exact ⟨fun h => ⟨⟨digits.1, all, small⟩, h.symm⟩, fun h => h.2.symm⟩
    · rw [percent?, if_pos digits, if_neg small]
      simp [small]
  · rw [percent?, if_neg digits]
    rw [List.all_eq_true] at digits
    simp only [reduceCtorEq, false_iff]
    exact fun h => digits ⟨h.1.1, h.1.2.1⟩

theorem slash_of_generates {f : Family} {property : Text}
    (h : Generates colors name className f property) : '/' ∉ className := by
  obtain ⟨recognised, target⟩ := h
  have stem := ((targets_all f).2 _ ((targets_sublist colors f).subset target)).1
  have suffix := familyOf?_isSuffix recognised
  simp only [isSuffix, Bool.and_eq_true, List.all_eq_true] at suffix
  have other : isPlainNameChar '/' = false := by decide
  simp only [List.mem_append, List.mem_cons, not_or]
  refine ⟨stem, by decide, fun hs => ?_⟩
  rw [suffix.2 _ hs] at other
  cases other

theorem paren_of_generates {f : Family} {property : Text}
    (h : Generates colors name className f property) : '(' ∉ property := by
  obtain ⟨recognised, target⟩ := h
  exact ((targets_all f).2 _ ((targets_sublist colors f).subset target)).2

namespace Table

variable {vars : Variables}

theorem get?_eq_some_iff {u : Utility} :
    (build vars colors).get? className = some u ↔
      Owned (Keyed.keys vars.entries) colors className u := by
  constructor
  · intro h
    obtain ⟨g, hg, rfl⟩ := Option.map_eq_some_iff.mp h
    obtain ⟨name, f, suffix, stem, property, owner, -, rfl, rfl⟩ := owner_of_find? hg
    exact .mk owner
  · rintro ⟨owner⟩
    obtain ⟨suffix, stem, -, rfl, found⟩ := find?_of_owner owner
    rw [get?, found]
    rfl

theorem faded?_eq_some_iff {baseClass : Text} {u : Utility} :
    (build vars colors).faded? baseClass = some u ↔
      Faded (Keyed.keys vars.entries) colors baseClass u := by
  have chosen : (build vars colors).colors = colors := rfl
  simp only [faded?, bind, Option.bind_eq_some_iff, Prod.exists, cutLast?_eq_some_iff,
    percent?_eq_some_iff, chosen]
  constructor
  · rintro ⟨c, digits, ⟨rfl, -⟩, n, ⟨percent, rfl⟩, g, hg, faded⟩
    obtain ⟨name, f, suffix, stem, property, owner, recognised, rfl, rfl⟩ := owner_of_find? hg
    split at faded
    · rename_i color
      obtain rfl : f = .color := color
      obtain ⟨⟨c, body⟩, hc, made⟩ := Option.bind_eq_some_iff.mp faded
      obtain rfl := Option.some.inj made
      obtain rfl : c = stem ++ '-' :: suffix := by simpa using List.find?_some hc
      obtain ⟨stem', property', target, named, rfl⟩ := find?_generate.mp hc
      have generates : Generates colors name (stem ++ '-' :: suffix) .color property' := by
        rw [named]
        exact .mk recognised target
      exact .mk percent ⟨generates, owner.last⟩
        (replacedOnce_declaration (paren_of_generates generates) name _)
    · cases faded
  · rintro ⟨percent, owner, mixed⟩
    rename_i c digits name property body
    have slash : '/' ∉ digits := fun h => absurd (percent.2.1 _ h) (by decide)
    obtain ⟨suffix, stem, target, rfl, found⟩ := find?_of_owner owner
    refine ⟨_, digits, ⟨rfl, slash⟩, _, ⟨percent, rfl⟩, _, found, ?_⟩
    have same := mixed.unique
      (replacedOnce_declaration (paren_of_generates owner.generates) name _)
    have made : (generate .color suffix (translucent name (ofDecimal digits)) colors).find?
        (fun e => e.1 = stem ++ '-' :: suffix) = some (stem ++ '-' :: suffix, body) :=
      find?_generate.mpr ⟨stem, property, target, rfl, same⟩
    have color : (entryOf name .color suffix stem property).2.source.family = .color := rfl
    rw [if_pos color]
    exact Option.bind_eq_some_iff.mpr ⟨_, made, rfl⟩

theorem not_owned_and_faded {baseClass : Text} {u v : Utility}
    (owned : Owned names colors baseClass u) : ¬ Faded names colors baseClass v := by
  intro faded
  obtain ⟨owner⟩ := owned
  generalize hb : baseClass = b at faded
  obtain ⟨percent, -, -⟩ := faded
  exact slash_of_generates owner.generates (by simp [hb])

/-- A base class resolves to what its last variable generates, or to the body of
a color class mixed with transparency, and never in both ways. -/
theorem resolve?_iff (definitions : List (Text × Text)) (colors : Colors) (baseClass : Text) :
    (∀ u, (build (.ofList definitions) colors).resolve? baseClass = some u ↔
      Owned (definitions.map Prod.fst).eraseDups colors baseClass u ∨
        Faded (definitions.map Prod.fst).eraseDups colors baseClass u) ∧
    ¬ ((∃ u, Owned (definitions.map Prod.fst).eraseDups colors baseClass u) ∧
        ∃ u, Faded (definitions.map Prod.fst).eraseDups colors baseClass u) := by
  constructor
  · intro u
    rw [resolve?, Option.orElse_eq_or, Option.or_eq_some_iff, ← Variables.keys_ofList,
      get?_eq_some_iff, faded?_eq_some_iff]
    constructor
    · exact Or.imp id And.right
    · rintro (owned | faded)
      · exact .inl owned
      · refine .inr ⟨?_, faded⟩
        cases hg : (build (.ofList definitions) colors).get? baseClass with
        | none => rfl
        | some v => exact absurd faded (not_owned_and_faded (get?_eq_some_iff.mp hg))
  · rintro ⟨⟨u, owned⟩, v, faded⟩
    exact not_owned_and_faded owned faded

/-- Two spacing names for one class: the later one owns it, also when the first is
defined again. -/
example : ((build (.ofList [("--spacing-4", "1rem"), ("--spacing-x-4", "2rem"),
    ("--spacing-4", "3rem")]) .all).resolve? "gap-x-4").map Utility.body =
      some "gap: var(--spacing-x-4);".toList := by decide

end Table

end Utility

end UtilityLayer
