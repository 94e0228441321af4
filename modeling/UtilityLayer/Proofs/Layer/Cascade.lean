import Mathlib.Data.List.Find
import UtilityLayer.Layer.Index
import UtilityLayer.Proofs.TextSet
import UtilityLayer.Proofs.Layer.Generated
import UtilityLayer.Proofs.Rule.Selectors
import UtilityLayer.Proofs.Token
import UtilityLayer.Proofs.Utility.Authored

/-!
# Which of two rules comes last

Of two hand-authored rules of a plain class, the one that comes last in the
layer is the one that was first pushed last: a repetition further down is
dropped, by the collection of a theme and by the buffer of a pass alike. A rule
that the theme repeats after another one, or that an earlier token has brought
into the layer already, therefore stays behind the other.
-/

set_option autoImplicit false

namespace UtilityLayer

open Text Css

/-- `a` stands in the list before every `b`. -/
def ComesFirst (l : List Text) (a b : Text) : Prop := ∃ p q, l = p ++ a :: q ∧ b ∉ p

/-- `b` stands in the list after every `a`. -/
def ComesLast (l : List Text) (b a : Text) : Prop := ∃ p q, l = p ++ b :: q ∧ a ∉ q

section

variable {l m : List Text} {a b t : Text}

def isEither (a b t : Text) : Bool := t = a || t = b

theorem comesFirst_iff_find? : ComesFirst l a b ↔ l.find? (isEither a b) = some a := by
  constructor
  · rintro ⟨p, q, rfl, hb⟩
    rw [List.find?_append]
    cases hp : p.find? (isEither a b) with
    | none =>
      have met : isEither a b a = true := by simp [isEither]
      rw [Option.none_or, List.find?_cons, met]
    | some c =>
      have hc := List.find?_some hp
      have mem := List.mem_of_find?_eq_some hp
      simp only [isEither, Bool.or_eq_true, decide_eq_true_eq] at hc
      rcases hc with rfl | rfl
      · rfl
      · exact absurd mem hb
  · intro h
    obtain ⟨-, p, q, rfl, hp⟩ := List.find?_eq_some_iff_append.mp h
    refine ⟨p, q, rfl, ?_⟩
    intro hb
    have not := hp b hb
    simp [isEither] at not

theorem find?_isEither_isSome (h : a ∈ l ∨ b ∈ l) : (l.find? (isEither a b)).isSome = true := by
  rw [List.find?_isSome]
  rcases h with h | h
  · exact ⟨a, h, by simp [isEither]⟩
  · exact ⟨b, h, by simp [isEither]⟩

theorem comesFirst_append (h : a ∈ l ∨ b ∈ l) : ComesFirst (l ++ m) a b ↔ ComesFirst l a b := by
  obtain ⟨c, hc⟩ := Option.isSome_iff_exists.mp (find?_isEither_isSome h)
  rw [comesFirst_iff_find?, comesFirst_iff_find?, List.find?_append, hc, Option.some_or]

theorem comesFirst_repeat (h : t ∈ l) : ComesFirst (l ++ t :: m) a b ↔ ComesFirst (l ++ m) a b := by
  by_cases either : isEither a b t = true
  · have one : a ∈ l ∨ b ∈ l := by
      simp only [isEither, Bool.or_eq_true, decide_eq_true_eq] at either
      rcases either with rfl | rfl
      · exact .inl h
      · exact .inr h
    rw [comesFirst_append one, comesFirst_append one]
  · rw [comesFirst_iff_find?, comesFirst_iff_find?, List.find?_append, List.find?_append,
      List.find?_cons_of_neg either]

/-- Where nothing is repeated, the one that comes last is the other one. -/
theorem comesLast_iff_comesFirst (nodup : l.Nodup) (ne : a ≠ b) (ha : a ∈ l) (hb : b ∈ l) :
    ComesLast l b a ↔ ComesFirst l a b := by
  constructor
  · rintro ⟨p, q, rfl, hq⟩
    obtain ⟨-, -, apart⟩ := List.nodup_append.mp nodup
    have hp : a ∈ p := by
      rcases List.mem_append.mp ha with h | h
      · exact h
      · rcases List.mem_cons.mp h with h | h
        · exact absurd h ne
        · exact absurd h hq
    obtain ⟨p₁, p₂, rfl⟩ := List.append_of_mem hp
    refine ⟨p₁, p₂ ++ b :: q, by simp, ?_⟩
    intro hm
    exact apart b (List.mem_append_left _ hm) b List.mem_cons_self rfl
  · rintro ⟨p, q, rfl, hp⟩
    have hq : b ∈ q := by
      rcases List.mem_append.mp hb with h | h
      · exact absurd h hp
      · rcases List.mem_cons.mp h with h | h
        · exact absurd h.symm ne
        · exact h
    obtain ⟨q₁, q₂, rfl⟩ := List.append_of_mem hq
    obtain ⟨-, nodup, -⟩ := List.nodup_append.mp nodup
    have once : a ∉ q₁ ++ b :: q₂ := (List.nodup_cons.mp nodup).1
    refine ⟨p ++ a :: q₁, q₂, by simp, ?_⟩
    intro hm
    exact once (by simp [hm])

end

namespace Utility

def ownSelector (u : Utility) : Text :=
  match u.context with
  | some context => context.selector
  | none => classSelector u.className

def ruleText (u : Utility) : Text := Rule.wrap u.ownSelector u.body

/-- The rules that a theme writes for a class, in order and with repetitions. -/
def writtenRules (theme className : Text) : List Text :=
  ((writtenUtilities theme).filter fun u => u.className = className).map ruleText

theorem Collection.get_insert (c : Collection) (u : Utility) (className : Text) :
    (c.insert u).get className =
      if u ∈ c.utilities then c.get className
      else c.get className ++ [u].filter fun u => u.className = className := by
  rw [insert]
  split
  · rfl
  · exact List.filter_append _ _

/-- The collection keeps the first of equal utilities, and so the order in which
rules are first written. -/
theorem Collection.comesFirst_foldl_insert {us : List Utility} {c : Collection} {before : List Text}
    {className a b : Text} :
    ComesFirst (before ++ ((us.foldl insert c).get className).map ruleText) a b ↔
      ComesFirst (before ++ ((c.get className).map ruleText ++
        (us.filter fun u => u.className = className).map ruleText)) a b := by
  induction us generalizing c with
  | nil => simp
  | cons u us ih =>
    rw [List.foldl_cons, ih, get_insert]
    split
    · rename_i kept
      rw [List.filter_cons]
      split
      · rename_i named
        have member : u ∈ c.get className := List.mem_filter.mpr ⟨kept, named⟩
        have there : u.ruleText ∈ before ++ (c.get className).map ruleText :=
          List.mem_append_right _ (List.mem_map_of_mem member)
        rw [← List.append_assoc, ← List.append_assoc, List.map_cons, comesFirst_repeat there]
      · rfl
    · have parts : [u].filter (fun u => u.className = className) ++
          us.filter (fun u => u.className = className) =
            (u :: us).filter fun u => u.className = className := (List.filter_append _ _).symm
      rw [← parts, List.map_append, List.map_append, List.append_assoc]

end Utility

namespace Rule

theorem isAtRule_compose {table : Variant.Table} {raw : Text} {u : Utility}
    (wrapped : (compose (.parse table raw) u).isWrapped = true) :
    isAtRule (compose (.parse table raw) u).text = true := by
  obtain ⟨m, hm⟩ := Option.isSome_iff_exists.mp wrapped
  have media := isAtRule_media hm
  rw [text, hm]
  cases m with
  | nil => cases media
  | cons c m => exact media

theorem text_compose_plain {token : Token} {u : Utility} (plain : token.isUndecorated = true)
    (named : u.className = token.raw) : (compose token u).text = u.ruleText := by
  obtain ⟨variants, important⟩ := Bool.and_eq_true_iff.mp plain
  rw [List.isEmpty_iff] at variants
  rw [Bool.not_eq_true'] at important
  have body : bodyOf token u = u.body := by rw [bodyOf, important]; rfl
  rw [compose.eq_def, Utility.ruleText, Utility.ownSelector]
  cases hc : u.context with
  | some context =>
    dsimp only
    rw [plain, body]
    rfl
  | none =>
    have first : start token u = (classSelector token.raw, []) := by rw [start, hc]
    dsimp only
    rw [draft, variants, first, body, named]
    show wrap (classSelector token.raw ++ []) u.body = _
    rw [List.append_nil]

end Rule

namespace Utility

theorem not_isAtRule_of_parseList {t : Text} {xs : List Selector.Complex}
    (h : Selector.parseList t = some xs) : isAtRule t = false := by
  rw [Bool.eq_false_iff]
  intro at'
  obtain ⟨u, rfl⟩ := List.head?_eq_some_iff.mp (beq_iff_eq.mp at')
  have unread (arguments : Text → Option (List Selector.Complex)) (p : Text) :
      Selector.readBranch arguments ('@' :: p) = none := by
    obtain ⟨w, hw⟩ := trim_cons (c := '@') (by decide) p
    have none : Selector.readSimple arguments ('@' :: w) = none :=
      Selector.readSimple_of_other w (by decide) (by decide)
    rw [Selector.readBranch, hw, Selector.readComplex, Selector.readCompound,
      Selector.readSimples_of_none none]
    rfl
  obtain ⟨p, ps, hp⟩ := List.exists_cons_of_ne_nil (splitFrom_ne_nil ',' (Level.top.step '@') u)
  have branches : splitOuter ',' ('@' :: u) = ('@' :: p) :: ps := by
    rw [splitOuter, splitFrom, if_neg (by decide), hp]
  rw [Selector.parseList, Selector.readList, branches, List.mapM_cons, unread] at h
  cases h

theorem not_isAtRule_ruleText {u : Utility} (defined : Defined u) :
    isAtRule u.ruleText = false := by
  have lead {s : Text} (h : isAtRule s = false) : isAtRule (Rule.wrap s u.body) = false := by
    cases s with
    | nil => rfl
    | cons c s => exact h
  apply lead
  rw [ownSelector]
  cases hc : u.context with
  | none => rfl
  | some context =>
    obtain ⟨x, xs, parsed, -⟩ := defined.styled context hc
    exact not_isAtRule_of_parseList parsed

end Utility

namespace Layer

open Utility

theorem Buffer.comesFirst_pushAll {buffer : Buffer} {rs : List Rule} {a b : Text} :
    ComesFirst (buffer.pushAll rs).2.texts a b ↔
      ComesFirst (buffer.texts ++ rs.map Rule.text) a b := by
  induction rs generalizing buffer with
  | nil =>
    rw [List.map_nil, List.append_nil]
    rfl
  | cons r rs ih =>
    rw [pushAll, ih, texts_push, List.map_cons]
    split
    · rename_i h
      exact (comesFirst_repeat h).symm
    · rw [List.append_assoc]
      rfl

theorem Buffer.nodup_ordered (buffer : Buffer) : buffer.ordered.Nodup :=
  buffer.ordered_perm.nodup_iff.mpr buffer.distinct

theorem Buffer.comesFirst_ordered {buffer : Buffer} {a b : Text}
    (atRules : ∀ s ∈ buffer.rules, s.wrapped = true → isAtRule s.text = true)
    (ha : isAtRule a = false) (hb : isAtRule b = false) :
    ComesFirst buffer.ordered a b ↔ ComesFirst buffer.texts a b := by
  have neither : ∀ s ∈ buffer.rules, s.wrapped = true → ¬ isEither a b s.text = true := by
    intro s hs hw either
    have lead := atRules s hs hw
    simp only [isEither, Bool.or_eq_true, decide_eq_true_eq] at either
    rcases either with h | h
    · rw [h, ha] at lead
      cases lead
    · rw [h, hb] at lead
      cases lead
  have wrapped : ((buffer.rules.filter Stored.wrapped).map Stored.text).find? (isEither a b) =
      none := by
    rw [List.find?_eq_none]
    intro t ht
    obtain ⟨s, hs, rfl⟩ := List.mem_map.mp ht
    obtain ⟨hs, hw⟩ := List.mem_filter.mp hs
    exact neither s hs hw
  have unwrapped : ((buffer.rules.filter fun r => !r.wrapped).map Stored.text).find?
      (isEither a b) = buffer.texts.find? (isEither a b) := by
    rw [texts, List.find?_map, List.find?_map, List.find?_filter]
    congr 1
    apply List.find?_congr
    intro s hs
    cases hw : s.wrapped with
    | false => simp
    | true =>
      have other : isEither a b s.text = false := by
        rw [Bool.eq_false_iff]
        exact neither s hs hw
      simp [other]
  rw [comesFirst_iff_find?, comesFirst_iff_find?, ordered, List.map_append, List.find?_append,
    wrapped, unwrapped, Option.or_none]

theorem Buffer.atRules_pushAll {buffer : Buffer} {rs : List Rule}
    (h : ∀ s ∈ buffer.rules, s.wrapped = true → isAtRule s.text = true)
    (atRules : ∀ r ∈ rs, r.isWrapped = true → isAtRule r.text = true) :
    ∀ s ∈ (buffer.pushAll rs).2.rules, s.wrapped = true → isAtRule s.text = true := by
  induction rs generalizing buffer with
  | nil => exact h
  | cons r rs ih =>
    rw [pushAll]
    apply ih _ fun u hu => atRules u (by simp [hu])
    intro s hs
    rw [rules_push, List.mem_append] at hs
    rcases hs with hs | hs
    · exact h s hs
    · split at hs
      · cases hs
      · obtain rfl := List.mem_singleton.mp hs
        exact atRules r (by simp)

namespace Index

/-- The rules that a pass pushes before those that a theme wrote for a token:
those of all generated utilities, and the hand-authored ones of the tokens before
it. -/
def rulesBefore (index : Index) (classes : TextSet) (raw : Text) : List Rule :=
  let styled := index.withFate .styled classes
  styled.filterMap index.generatedRule? ++
    (styled.takeWhile fun t => t.raw ≠ raw).flatMap index.customRules

variable {index : Index} {classes : TextSet} {raw : Text}

theorem rules_eq (member : raw ∈ classes) (styled : index.fate (index.token raw) = .styled) :
    ∃ after, index.rules classes =
      index.rulesBefore classes raw ++ (index.customRules (index.token raw) ++ after) := by
  obtain ⟨xs, ys, hl⟩ := List.append_of_mem (TextSet.mem_iff.mp member)
  have nodup := classes.sorted.nodup
  rw [hl] at nodup
  have fresh : raw ∉ xs := by
    obtain ⟨-, -, apart⟩ := List.nodup_append.mp nodup
    intro h
    exact apart raw h raw List.mem_cons_self rfl
  let keep : Token → Bool := fun t => index.fate t = .styled
  have split : index.withFate .styled classes =
      (xs.map index.token).filter keep ++
        index.token raw :: (ys.map index.token).filter keep := by
    have kept : keep (index.token raw) = true := decide_eq_true styled
    rw [withFate, tokens, hl, List.map_append, List.map_cons, List.filter_append]
    rw [List.filter_cons_of_pos kept]
  have taken : (index.withFate .styled classes).takeWhile (fun t => t.raw ≠ raw) =
      (xs.map index.token).filter keep := by
    rw [split, List.takeWhile_append_of_pos]
    · rw [List.takeWhile_cons_of_neg (by simp [token, Token.parse]), List.append_nil]
    · intro t ht
      obtain ⟨x, hx, rfl⟩ := List.mem_map.mp (List.mem_filter.mp ht).1
      have ne : x ≠ raw := by
        rintro rfl
        exact fresh hx
      exact decide_eq_true ne
  refine ⟨((ys.map index.token).filter keep).flatMap index.customRules, ?_⟩
  rw [rules, rulesBefore, taken, split, List.flatMap_append, List.flatMap_cons, List.append_assoc]

theorem texts_customRules (plain : (index.token raw).isUndecorated = true)
    (understood : (index.token raw).isUnderstood = true) :
    (index.customRules (index.token raw)).map Rule.text =
      (index.custom.get raw).map Utility.ruleText := by
  have own : (index.token raw).baseClass = raw := Token.baseClass_of_plain plain understood
  rw [customRules, own, List.map_map]
  apply List.map_congr_left
  intro u hu
  have named : u.className = raw := by simpa using (List.mem_filter.mp hu).2
  exact Rule.text_compose_plain plain named

theorem atRules_generate : ∀ s ∈ (index.generate classes .empty).rules,
    s.wrapped = true → isAtRule s.text = true := by
  apply Buffer.atRules_pushAll
  · simp [Buffer.empty]
  · intro r hr
    obtain ⟨token, -, -, generated | authored⟩ := mem_rules.mp hr
    · obtain ⟨u, -, rfl⟩ := Option.map_eq_some_iff.mp generated
      exact Rule.isAtRule_compose
    · obtain ⟨u, -, rfl⟩ := List.mem_map.mp authored
      exact Rule.isAtRule_compose

section

variable {theme : Text} {colors : Colors} {r : Text}

theorem not_isAtRule_of_written (h : r ∈ writtenRules theme raw) :
    isAtRule r = false ∧ raw ≠ [] := by
  obtain ⟨u, hu, rfl⟩ := List.mem_map.mp h
  obtain ⟨written, named⟩ := List.mem_filter.mp hu
  have defined := defined_of_written written
  refine ⟨not_isAtRule_ruleText defined, ?_⟩
  rw [← show u.className = raw by simpa using named]
  exact defined.named

theorem kept_of_written (accepted : build theme colors = .ok index)
    (h : r ∈ writtenRules theme raw) : r ∈ (index.custom.get raw).map ruleText := by
  obtain ⟨u, hu, rfl⟩ := List.mem_map.mp h
  obtain ⟨written, named⟩ := List.mem_filter.mp hu
  apply List.mem_map_of_mem
  rw [Collection.eq_of_ofSheet (custom_of_build accepted)]
  exact List.mem_filter.mpr ⟨Collection.mem_ofList.mpr written, named⟩

theorem fate_of_written (accepted : build theme colors = .ok index)
    (plain : (index.token raw).isUndecorated = true)
    (understood : (index.token raw).isUnderstood = true) (h : r ∈ writtenRules theme raw) :
    index.fate (index.token raw) = .styled := by
  have own : (index.token raw).baseClass = raw := Token.baseClass_of_plain plain understood
  have some : index.custom.get raw ≠ [] := by
    intro none
    have kept := kept_of_written accepted h
    rw [none] at kept
    cases kept
  have has : index.hasUtility raw = true := by
    rw [hasUtility, Collection.contains_iff.mpr some, Bool.or_true, Bool.and_true]
    exact decide_eq_true (not_isAtRule_of_written h).2
  rw [fate, understood, own, has]
  rfl

end

/-- Two rules that a theme writes for a plain token: the second comes last in the
layer if and only if the first is pushed first. -/
theorem comesLast_iff_pushed_first {theme : Text} {colors : Colors}
    (accepted : build theme colors = .ok index) (member : raw ∈ classes)
    (plain : (index.token raw).isUndecorated = true)
    (understood : (index.token raw).isUnderstood = true) {r₁ r₂ : Text}
    (h₁ : r₁ ∈ writtenRules theme raw) (h₂ : r₂ ∈ writtenRules theme raw) (ne : r₁ ≠ r₂) :
    ComesLast (index.generate classes .empty).ordered r₂ r₁ ↔
      ComesFirst ((index.rulesBefore classes raw).map Rule.text ++ writtenRules theme raw) r₁ r₂ := by
  have collected := Collection.eq_of_ofSheet (custom_of_build accepted)
  obtain ⟨after, rules⟩ := rules_eq member (fate_of_written accepted plain understood h₁)
  have texts := texts_customRules plain understood
  have pushed {r : Text} (h : r ∈ writtenRules theme raw) :
      r ∈ (index.generate classes .empty).ordered := by
    have kept := kept_of_written accepted h
    rw [← texts] at kept
    obtain ⟨rule, hr, rfl⟩ := List.mem_map.mp kept
    exact mem_generate.mpr ⟨rule, by simp [rules, hr], rfl⟩
  rw [comesLast_iff_comesFirst (Buffer.nodup_ordered _) ne (pushed h₁) (pushed h₂),
    Buffer.comesFirst_ordered atRules_generate (not_isAtRule_of_written h₁).1
      (not_isAtRule_of_written h₂).1, generate, Buffer.comesFirst_pushAll]
  show ComesFirst ((index.rules classes).map Rule.text) r₁ r₂ ↔ _
  have either : r₁ ∈ (index.rulesBefore classes raw).map Rule.text ++
      (index.custom.get raw).map ruleText ∨ r₂ ∈ (index.rulesBefore classes raw).map Rule.text ++
      (index.custom.get raw).map ruleText :=
    .inl (List.mem_append_right _ (kept_of_written accepted h₁))
  rw [rules, List.map_append, List.map_append, texts, ← List.append_assoc,
    comesFirst_append either, collected, Collection.ofList, Collection.comesFirst_foldl_insert]
  rfl

def repeatingTheme : Text :=
  ".card \x7b color: red; \x7d .card \x7b color: blue; \x7d .card \x7b color: red; \x7d"

def redRule : Text := ".card \x7b color: red; \x7d"

def blueRule : Text := ".card \x7b color: blue; \x7d"

theorem writtenRules_repeatingTheme :
    writtenRules repeatingTheme "card" = [redRule, blueRule, redRule] := by
  decide +kernel

theorem layer_repeatingTheme :
    ∃ index, build repeatingTheme .all = .ok index ∧
      index.rulesBefore (.ofList ["card"]) "card" = [] ∧
        (index.generate (.ofList ["card"]) .empty).ordered = [redRule, blueRule] := by
  have evaluated : (build repeatingTheme .all).toOption.map (fun index =>
      (index.rulesBefore (.ofList ["card"]) "card",
        (index.generate (.ofList ["card"]) .empty).ordered)) = some ([], [redRule, blueRule]) := by
    decide +kernel
  obtain ⟨index, built, parts⟩ := exists_of_toOption evaluated
  obtain ⟨before, lines⟩ := Prod.mk.inj parts
  exact ⟨index, built, before, lines⟩

theorem red_ne_blue : redRule ≠ blueRule := by decide

theorem blue_comes_last :
    ∃ index, build repeatingTheme .all = .ok index ∧
      ComesLast (index.generate (.ofList ["card"]) .empty).ordered blueRule redRule := by
  obtain ⟨index, accepted, before, -⟩ := layer_repeatingTheme
  have member : "card".toList ∈ TextSet.ofList ["card"] := TextSet.mem_ofList.mpr (by simp)
  have red : redRule ∈ writtenRules repeatingTheme "card" := by
    rw [writtenRules_repeatingTheme]
    simp
  have blue : blueRule ∈ writtenRules repeatingTheme "card" := by
    rw [writtenRules_repeatingTheme]
    simp
  refine ⟨index, accepted, ?_⟩
  apply (comesLast_iff_pushed_first accepted member rfl rfl red blue red_ne_blue).mpr
  rw [before, writtenRules_repeatingTheme]
  exact ⟨[], [blueRule, redRule], rfl, by simp⟩

/-- The theme ends with the red rule, and the layer with the blue one. -/
theorem repeated_rule_not_last :
    ∃ index, build repeatingTheme .all = .ok index ∧ "card".toList ∈ TextSet.ofList ["card"] ∧
      (index.token "card").isUndecorated = true ∧ (index.token "card").isUnderstood = true ∧
      redRule ≠ blueRule ∧ blueRule ∈ writtenRules repeatingTheme "card" ∧
      ComesLast (writtenRules repeatingTheme "card") redRule blueRule ∧
      ¬ ComesLast (index.generate (.ofList ["card"]) .empty).ordered redRule blueRule := by
  obtain ⟨index, accepted, -, lines⟩ := layer_repeatingTheme
  have member : "card".toList ∈ TextSet.ofList ["card"] := TextSet.mem_ofList.mpr (by simp)
  rw [writtenRules_repeatingTheme]
  refine ⟨index, accepted, member, rfl, rfl, red_ne_blue, by simp, ?_, ?_⟩
  · exact ⟨[redRule, blueRule], [], rfl, by simp⟩
  · rw [lines]
    rintro ⟨p, q, whole, hq⟩
    cases p with
    | nil =>
      obtain ⟨-, rfl⟩ := List.cons.inj whole
      exact hq (by simp)
    | cons r p =>
      obtain ⟨-, rest⟩ := List.cons.inj whole
      have red : redRule ∈ [blueRule] := by rw [rest]; simp
      exact red_ne_blue (List.mem_singleton.mp red)

end Index

end Layer

end UtilityLayer
