import UtilityLayer.Proofs.TextSet
import UtilityLayer.Proofs.Keyed
import UtilityLayer.Proofs.Layer.Generated
import UtilityLayer.Proofs.Rule.Selectors
import UtilityLayer.Proofs.Token

/-!
# What a generated layer covers

A layer is read back rule by rule, and covers the bases of the classes that its
rules show. For generated rules these are the base classes of the tokens, but
for bracketed variants that change the selector or wrap the rule: with one of
those a token may show a class of the variant, or none at all.
-/

set_option autoImplicit false

namespace UtilityLayer

open Text Css Selector

namespace Utility.Table

open Theme

theorem mem_build {vars : Variables} {colors : Colors} {e : Text × Generated}
    (h : e ∈ (build vars colors).entries) : ∃ v ∈ vars.entries, e ∈ generatedBy colors v.1 := by
  have fold (gs : List (Text × Generated)) (es : List (Text × Generated))
      (h : e ∈ gs.foldl (fun es g => Keyed.set g.1 g.2 es) es) : e ∈ gs ∨ e ∈ es := by
    induction gs generalizing es with
    | nil => exact .inr h
    | cons g gs ih =>
      rcases ih _ h with h | h
      · exact .inl (List.mem_cons_of_mem g h)
      · exact (Keyed.mem_set h).imp (by rintro rfl; exact List.mem_cons_self) id
  rcases fold _ [] h with h | h
  · exact List.mem_flatMap.mp h
  · cases h

theorem context_of_build {vars : Variables} {colors : Colors} {e : Text × Generated}
    (h : e ∈ (build vars colors).entries) : e.2.utility.context = none := by
  obtain ⟨v, -, hv⟩ := mem_build h
  rw [generatedBy.eq_def] at hv
  split at hv
  · cases hv
  · obtain ⟨p, -, rfl⟩ := List.mem_map.mp hv
    rfl

theorem context_of_resolve? {vars : Variables} {colors : Colors} {baseClass : Text} {u : Utility}
    (h : (build vars colors).resolve? baseClass = some u) : u.context = none := by
  rw [resolve?, Option.orElse_eq_or, Option.or_eq_some_iff] at h
  rcases h with h | ⟨-, h⟩
  · obtain ⟨g, hg, rfl⟩ := Option.map_eq_some_iff.mp h
    exact context_of_build (Keyed.mem_of_get? hg)
  · simp only [faded?, bind, Option.bind_eq_some_iff] at h
    obtain ⟨p, -, n, -, g, -, hu⟩ := h
    split at hu
    · obtain ⟨q, -, hq⟩ := Option.bind_eq_some_iff.mp hu
      obtain rfl := Option.some.inj hq
      rfl
    · cases hu

end Utility.Table

namespace Rule

open Layer

/-- Every part of the rule is one part of a sheet. -/
structure Clean (r : Rule) : Prop where
  selector : Tidy r.selector
  nested : ∀ h ∈ r.nested, Tidy h
  media : ∀ h, r.media = some h → Tidy h
  body : Closes r.body

instance (r : Rule) : Decidable r.Clean :=
  decidable_of_iff (Tidy r.selector ∧ (∀ h ∈ r.nested, Tidy h) ∧ (∀ h ∈ r.media, Tidy h) ∧
      Closes r.body)
    ⟨fun ⟨selector, nested, media, body⟩ => ⟨selector, nested, media, body⟩,
      fun ⟨selector, nested, media, body⟩ => ⟨selector, nested, media, body⟩⟩

structure Legible (r : Rule) : Prop extends Clean r where
  styles : isAtRule r.selector = false
  wrapper : ∀ m, r.media = some m → isAtRule m = true

def block (r : Rule) : Text × Text :=
  match r.media with
  | none => (r.selector, [' '] ++ nest r.nested r.body ++ [' '])
  | some head => (head, [' '] ++ wrap r.selector (nest r.nested r.body) ++ [' '])

/-- The classes that a reader of the layer finds in the rule. -/
def shown (r : Rule) : List Text :=
  if r.media.all isGrouping then headSubjects r.selector else []

theorem printBlock_block (r : Rule) : printBlock r.block.1 r.block.2 = r.text := by
  rw [block, text]
  cases r.media with
  | none => exact (wrap_eq _ _).symm
  | some head => exact (wrap_eq _ _).symm

theorem closes_spaced {t : Text} (h : Closes t) : Closes ([' '] ++ t ++ [' ']) := by
  have space : Closes [' '] := ⟨rfl, rfl⟩
  exact (space.append h).append space

theorem Clean.block_tidy {r : Rule} (h : r.Clean) : Tidy r.block.1 ∧ Closes r.block.2 := by
  have inner := closes_nest h.nested h.body
  rw [block]
  cases hm : r.media with
  | none => exact ⟨h.selector, closes_spaced inner⟩
  | some head => exact ⟨h.media head hm, closes_spaced (closes_wrap h.selector inner)⟩

end Rule

namespace Layer

theorem not_isGrouping {head : Text} (h : isAtRule head = false) : isGrouping head = false := by
  rw [Bool.eq_false_iff] at h ⊢
  exact fun grouping => h (isAtRule_of_isGrouping grouping)

theorem readTree_spaced {opens : Text → Bool} {title body : Text} (tidy : Tidy title)
    (hc : Closes body) :
    readTree opens ([' '] ++ printBlock title body ++ [' ']) =
      .ok [nodeOf opens (.block title body)] := by
  have read := tidy.readItem hc [' ']
  rw [← skipGap_append (show [' '].all isGap = true from rfl), ← List.append_assoc] at read
  have sheet : readSheet ([' '] ++ printBlock title body ++ [' ']) = .ok [.block title body] := by
    refine readSheet_eq_ok_iff.mpr ⟨[' '], ?_, rfl⟩
    rw [readItems_of_read read, readItems_of_gap rfl]
    rfl
  rw [readTree_eq, sheet]
  rfl

theorem styledBy_leaves {r : Rule} (legible : r.Legible) :
    (nodeOf isGrouping (.block r.block.1 r.block.2)).leaves.flatMap styledBy = r.shown := by
  have own (body : Text) : (nodeOf isGrouping (.block r.selector body)).leaves.flatMap styledBy =
      headSubjects r.selector := by
    rw [nodeOf, not_isGrouping legible.styles]
    show styledBy (.block r.selector body) ++ [] = _
    rw [styledBy, startsWith_at, legible.styles, List.append_nil]
    rfl
  rw [Rule.block, Rule.shown]
  cases hm : r.media with
  | none => exact own _
  | some m =>
    have inner := Rule.closes_nest legible.nested legible.body
    show (nodeOf isGrouping (.block m _)).leaves.flatMap styledBy =
      if isGrouping m = true then _ else _
    by_cases grouping : isGrouping m = true
    · have tree : readTree isGrouping _ = _ :=
        readTree_spaced legible.selector (Rule.closes_spaced inner)
      rw [← Rule.wrap_eq] at tree
      rw [nodeOf, if_pos grouping, tree, if_pos grouping]
      show ((nodeOf isGrouping (.block r.selector _)).leaves ++ []).flatMap styledBy = _
      rw [List.append_nil]
      exact own _
    · rw [nodeOf, if_neg grouping, if_neg grouping]
      show styledBy (.block m _) ++ [] = _
      rw [styledBy, startsWith_at, legible.wrapper m hm]
      rfl

theorem shown_eq_of_text {r s : Rule} (hr : r.Legible) (hs : s.Legible) (h : r.text = s.text) :
    r.shown = s.shown := by
  have title := hr.block_tidy.1.opens
  have title' := hs.block_tidy.1.opens
  rw [← r.printBlock_block, ← s.printBlock_block, ← List.append_nil (printBlock _ _),
    ← List.append_nil (printBlock s.block.1 _), printBlock_eq, printBlock_eq] at h
  obtain ⟨heads, bodies⟩ := opens_unique title title' h
  rw [← styledBy_leaves hr, ← styledBy_leaves hs, List.append_cancel_right heads,
    List.append_cancel_right bodies]

theorem readTree_layer {name : Text} (plain : name? name = some (name, [])) {rs : List Rule}
    (clean : ∀ r ∈ rs, r.Clean) :
    readTree isGrouping (openLayer name ++ ruled (rs.map Rule.text) ++ ['}']) =
      .ok [.group ("@layer ".toList ++ name)
        (rs.map fun r => nodeOf isGrouping (.block r.block.1 r.block.2))] := by
  have texts : rs.map Rule.text = (rs.map Rule.block).map fun b => printBlock b.1 b.2 := by
    rw [List.map_map]
    exact List.map_congr_left fun r _ => r.printBlock_block.symm
  have tidy : ∀ b ∈ rs.map Rule.block, Tidy b.1 ∧ Closes b.2 := by
    intro b hb
    obtain ⟨r, hr, rfl⟩ := List.mem_map.mp hb
    exact (clean r hr).block_tidy
  obtain ⟨rest, items, blank⟩ := readItems_blocks ['\n'] rfl tidy
  have alone : ∀ t ∈ rs.map Rule.text, StandsAlone t := by
    intro t ht
    obtain ⟨r, hr, rfl⟩ := List.mem_map.mp ht
    have whole := clean r hr
    exact r.standsAlone whole.selector whole.nested whole.media whole.body
  have body : Closes (['\n'] ++ ruled (rs.map Rule.text)) :=
    Closes.append ⟨rfl, rfl⟩ (closes_ruled alone)
  have outer : readSheet (openLayer name ++ ruled (rs.map Rule.text) ++ ['}']) =
      .ok [.block ("@layer ".toList ++ name) (['\n'] ++ ruled (rs.map Rule.text))] := by
    refine readSheet_eq_block_iff.mpr ⟨layerHead name, [], opens_layerHead plain, body,
      (trim_layerHead plain).symm, ?_, readItems_of_gap rfl, rfl⟩
    rw [layer_eq]
    exact skipGap_cons (by decide) _
  have inner : readSheet (['\n'] ++ ruled (rs.map Rule.text)) =
      .ok ((rs.map Rule.block).map fun b => .block b.1 b.2) := by
    rw [texts]
    exact readSheet_eq_ok_iff.mpr ⟨rest, items, blank⟩
  have grouping : isGrouping ("@layer ".toList ++ name) = true := rfl
  rw [readTree_eq, outer]
  show Except.ok [nodeOf isGrouping _] = _
  rw [nodeOf, if_pos grouping, readTree_eq, inner]
  show Except.ok [Node.group _ (List.map _ (List.map _ (List.map _ rs)))] = _
  rw [List.map_map, List.map_map]
  rfl

theorem flatMap_leavesOf {rs : List Rule} (legible : ∀ r ∈ rs, r.Legible) :
    (leavesOf (rs.map fun r => nodeOf isGrouping (.block r.block.1 r.block.2))).flatMap styledBy =
      rs.flatMap Rule.shown := by
  induction rs with
  | nil => rfl
  | cons r rs ih =>
    rw [List.map_cons, leavesOf, List.flatMap_append, List.flatMap_cons,
      styledBy_leaves (legible r (by simp)), ih fun u hu => legible u (by simp [hu])]

/-- A reader of the layer finds what its rules show, and nothing else. -/
theorem mem_coverage_layer {name : Text} (plain : name? name = some (name, [])) {rs : List Rule}
    (legible : ∀ r ∈ rs, r.Legible)
    (uncommented : withoutComments (openLayer name ++ ruled (rs.map Rule.text) ++ ['}']) =
      openLayer name ++ ruled (rs.map Rule.text) ++ ['}']) {n : Text} :
    n ∈ coverage (openLayer name ++ ruled (rs.map Rule.text) ++ ['}']) ↔
      ∃ r ∈ rs, ∃ k ∈ r.shown, Token.baseClassOf k = n := by
  have read : coverage? (openLayer name ++ ruled (rs.map Rule.text) ++ ['}']) =
      .ok (.ofList ((rs.flatMap Rule.shown).map Token.baseClassOf)) := by
    rw [coverage?, uncommented, readTree_layer plain fun r hr => (legible r hr).toClean]
    show Except.ok (TextSet.ofList (((leavesOf _ ++ []).flatMap styledBy).map _)) = _
    rw [List.append_nil, flatMap_leavesOf legible]
  rw [coverage, read]
  show n ∈ TextSet.ofList _ ↔ _
  rw [TextSet.mem_ofList, List.mem_map]
  constructor
  · rintro ⟨k, hk, rfl⟩
    obtain ⟨r, hr, hs⟩ := List.mem_flatMap.mp hk
    exact ⟨r, hr, k, hs, rfl⟩
  · rintro ⟨r, hr, k, hs, rfl⟩
    exact ⟨k, List.mem_flatMap.mpr ⟨r, hr, hs⟩, rfl⟩

theorem Index.mem_coverage {index : Index} {classes : TextSet} {name : Text}
    (plain : name? name = some (name, [])) (legible : ∀ r ∈ index.rules classes, r.Legible)
    (uncommented : withoutComments (index.render classes name) = index.render classes name)
    {n : Text} :
    n ∈ coverage (index.render classes name) ↔
      ∃ r ∈ index.rules classes, ∃ k ∈ r.shown, Token.baseClassOf k = n := by
  have lift (ts : List Text) (made : ∀ t ∈ ts, ∃ r ∈ index.rules classes, r.text = t) :
      ∃ rs : List Rule, rs.map Rule.text = ts ∧ ∀ r ∈ rs, r ∈ index.rules classes := by
    induction ts with
    | nil => exact ⟨[], rfl, by simp⟩
    | cons t ts ih =>
      obtain ⟨r, hr, rfl⟩ := made t (by simp)
      obtain ⟨rs, rfl, hrs⟩ := ih fun u hu => made u (by simp [hu])
      exact ⟨r :: rs, rfl, List.forall_mem_cons.mpr ⟨hr, hrs⟩⟩
  obtain ⟨rs, lines, origin⟩ := lift _ fun t ht => mem_generate.mp ht
  rw [render_eq, ← lines] at uncommented ⊢
  rw [mem_coverage_layer plain (fun r hr => legible r (origin r hr)) uncommented]
  constructor
  · rintro ⟨r, hr, shows⟩
    exact ⟨r, origin r hr, shows⟩
  · rintro ⟨r, hr, shows⟩
    have line : r.text ∈ rs.map Rule.text := by
      rw [lines]
      exact mem_generate.mpr ⟨r, hr, rfl⟩
    obtain ⟨s, hs, same⟩ := List.mem_map.mp line
    rw [← shown_eq_of_text (legible s (origin s hs)) (legible r hr) same] at shows
    exact ⟨s, hs, shows⟩

theorem Tidy.trim_eq {title : Text} (h : Tidy title) : trim title = title := by
  obtain ⟨c, t, ht⟩ := List.exists_cons_of_ne_nil h.nonempty
  have first : isBlank c = false := isBlank_of_trim (h.trimmed.symm.trans ht)
  have start (u : Text) : trimStart (c :: u) = c :: u :=
    List.dropWhile_cons_of_neg (by rw [first]; exact Bool.false_ne_true)
  have whole := h.trimmed
  rw [ht, trim, List.cons_append, start, ← List.cons_append, trimEnd_concat,
    if_pos (by decide)] at whole
  rw [ht, trim, start]
  exact whole.symm

end Layer

namespace Rule

open Layer

variable {table : Variant.Table} {raw : Text} {u : Utility}

theorem Clean.legible (clean : (compose (.parse table raw) u).Clean) (h : u.context = none) :
    (compose (.parse table raw) u).Legible where
  toClean := clean
  styles := by
    obtain ⟨w, hw⟩ : ∃ w, (compose (.parse table raw) u).selector = classSelector raw ++ w :=
      selector_compose h
    rw [hw]
    rfl
  wrapper := fun _ hm => isAtRule_media hm

theorem mem_headSubjects_compose (h : u.context = none) (nonempty : raw ≠ [])
    (tame : ∀ v ∈ (Token.parse table raw).variants, v.arbitrary = true → v.Tame)
    (clean : (compose (.parse table raw) u).Clean) {n : Text} :
    n ∈ headSubjects (compose (.parse table raw) u).selector ↔ n = raw := by
  obtain ⟨w, suffix, selector⟩ := suffix_compose h tame
  have trimmed := clean.selector.trim_eq
  rw [selector] at trimmed ⊢
  exact mem_headSubjects_before_suffix nonempty suffix trimmed

end Rule

namespace Layer.Index

open Utility

/-- The base classes of the subjects of a token's generated rule. -/
def subjectBases (index : Index) (t : Token) : TextSet :=
  match index.generatedRule? t with
  | some r => .ofList ((headSubjects r.selector).map Token.baseClassOf)
  | none => .empty

variable {theme : Text} {colors : Colors} {index : Index} {classes : TextSet}

theorem mem_subjectBases {t : Token} {r : Rule} (made : index.generatedRule? t = some r)
    {n : Text} :
    n ∈ index.subjectBases t ↔ ∃ k ∈ headSubjects r.selector, Token.baseClassOf k = n := by
  rw [subjectBases, made]
  show n ∈ TextSet.ofList _ ↔ _
  rw [TextSet.mem_ofList, List.mem_map]

theorem context_of_generated (accepted : build theme colors = .ok index) {t : Token} {r : Rule}
    (made : index.generatedRule? t = some r) :
    ∃ u, index.utilities.resolve? t.baseClass = some u ∧ u.context = none ∧
      r = Rule.compose t u := by
  obtain ⟨u, resolved, rfl⟩ := Option.map_eq_some_iff.mp made
  obtain ⟨custom, -, rfl⟩ := eq_of_build accepted
  exact ⟨u, resolved, Table.context_of_resolve? resolved, rfl⟩

theorem generatedRule_of_styled (uncustomized : index.custom.utilities = []) {t : Token}
    (h : index.fate t = .styled) :
    t.baseClass ≠ [] ∧ ∃ r, index.generatedRule? t = some r := by
  have usable : index.hasUtility t.baseClass = true := by
    rw [fate] at h
    split at h
    · cases h
    · split at h
      · assumption
      · cases h
  rw [hasUtility, Collection.contains, uncustomized] at usable
  simp only [List.any_nil, Bool.or_false, Bool.and_eq_true, decide_eq_true_eq] at usable
  obtain ⟨u, hu⟩ := Option.isSome_iff_exists.mp usable.2
  exact ⟨usable.1, Rule.compose t u, by rw [generatedRule?, hu]; rfl⟩

theorem mem_rules_of_uncustomized (uncustomized : index.custom.utilities = []) {r : Rule} :
    r ∈ index.rules classes ↔
      ∃ t ∈ index.withFate .styled classes, index.generatedRule? t = some r := by
  have none (t : Token) : index.customRules t = [] := by
    rw [customRules, Collection.get, uncustomized]
    rfl
  rw [rules, List.mem_append, List.mem_filterMap, List.mem_flatMap]
  constructor
  · rintro (generated | ⟨t, -, hr⟩)
    · exact generated
    · rw [none] at hr
      cases hr
  · exact .inl

theorem legible_rules (accepted : build theme colors = .ok index)
    (uncustomized : index.custom.utilities = []) (clean : ∀ r ∈ index.rules classes, r.Clean) :
    ∀ r ∈ index.rules classes, r.Legible := by
  intro r hr
  obtain ⟨t, ht, made⟩ := (mem_rules_of_uncustomized uncustomized).mp hr
  obtain ⟨raw, -, rfl, -⟩ := mem_withFate.mp ht
  obtain ⟨u, -, context, rfl⟩ := context_of_generated accepted made
  exact (clean _ hr).legible context

theorem mem_shown_iff {r : Rule} (opened : r.media.all isGrouping = true) {k : Text} :
    k ∈ r.shown ↔ k ∈ headSubjects r.selector := by
  rw [Rule.shown, if_pos opened]

theorem headSubjects_of_shown {r : Rule} {k : Text} (h : k ∈ r.shown) :
    k ∈ headSubjects r.selector := by
  rw [Rule.shown] at h
  split at h
  · exact h
  · cases h

theorem subjectBases_of_tame (accepted : build theme colors = .ok index)
    (uncustomized : index.custom.utilities = []) (clean : ∀ r ∈ index.rules classes, r.Clean)
    {t : Token} (styled : t ∈ index.withFate .styled classes)
    (tame : ∀ v ∈ t.variants, v.arbitrary = true → v.Tame) :
    index.subjectBases t = .ofList [t.baseClass] := by
  obtain ⟨raw, -, rfl, fate⟩ := mem_withFate.mp styled
  obtain ⟨based, r, made⟩ := generatedRule_of_styled uncustomized fate
  have nonempty : raw ≠ [] := by
    rintro rfl
    exact based rfl
  have rule := clean r ((mem_rules_of_uncustomized uncustomized).mpr ⟨_, styled, made⟩)
  obtain ⟨u, -, context, rfl⟩ := context_of_generated accepted made
  have own : (index.token raw).baseClass = Token.baseClassOf raw :=
    (Token.baseClassOf_eq index.variants raw).symm
  apply TextSet.eq_of_mem_iff
  intro n
  rw [mem_subjectBases made, TextSet.mem_ofList, List.mem_singleton, own]
  constructor
  · rintro ⟨k, hk, rfl⟩
    rw [(Rule.mem_headSubjects_compose context nonempty tame rule).mp hk]
  · rintro rfl
    exact ⟨raw, (Rule.mem_headSubjects_compose context nonempty tame rule).mpr rfl, rfl⟩

section

variable {name : Text} (accepted : build theme colors = .ok index)
  (uncustomized : index.custom.utilities = []) (plain : name? name = some (name, []))
  (uncommented : withoutComments (index.render classes name) = index.render classes name)
  (clean : ∀ r ∈ index.rules classes, r.Clean)

include accepted uncustomized plain uncommented clean

/-- Whatever the layer covers is a subject of some token. -/
theorem subject_of_covered {n : Text} (h : n ∈ coverage (index.render classes name)) :
    ∃ t ∈ index.withFate .styled classes, n ∈ index.subjectBases t := by
  obtain ⟨r, hr, k, hk, base⟩ :=
    (mem_coverage plain (legible_rules accepted uncustomized clean) uncommented).mp h
  obtain ⟨t, ht, made⟩ := (mem_rules_of_uncustomized uncustomized).mp hr
  exact ⟨t, ht, (mem_subjectBases made).mpr ⟨k, headSubjects_of_shown hk, base⟩⟩

theorem subjectBases_le_coverage {t : Token} (styled : t ∈ index.withFate .styled classes)
    (grouping : ∀ v ∈ t.variants, v.arbitrary = true → v.kind = .media →
      isGrouping v.selector = true) :
    index.subjectBases t ≤ coverage (index.render classes name) := by
  intro n hn
  obtain ⟨raw, -, rfl, fate⟩ := mem_withFate.mp styled
  obtain ⟨-, r, made⟩ := generatedRule_of_styled uncustomized fate
  obtain ⟨k, hk, base⟩ := (mem_subjectBases made).mp hn
  have opened : r.media.all isGrouping = true := by
    obtain ⟨u, -, -, rfl⟩ := context_of_generated accepted made
    exact Rule.isGrouping_media grouping
  apply (mem_coverage plain (legible_rules accepted uncustomized clean) uncommented).mpr
  exact ⟨r, (mem_rules_of_uncustomized uncustomized).mpr ⟨_, styled, made⟩, k,
    (mem_shown_iff opened).mpr hk, base⟩

theorem coverage_of_tame (tame : ∀ t ∈ index.withFate .styled classes,
    ∀ v ∈ t.variants, v.arbitrary = true → v.Tame) :
    coverage (index.render classes name) =
      .ofList ((index.withFate .styled classes).map Token.baseClass) := by
  have own {t : Token} (ht : t ∈ index.withFate .styled classes) {n : Text} :
      n ∈ index.subjectBases t ↔ t.baseClass = n := by
    rw [subjectBases_of_tame accepted uncustomized clean ht (tame t ht), TextSet.mem_ofList,
      List.mem_singleton, eq_comm]
  apply TextSet.eq_of_mem_iff
  intro n
  rw [TextSet.mem_ofList, List.mem_map]
  constructor
  · intro hn
    obtain ⟨t, ht, base⟩ :=
      subject_of_covered accepted uncustomized plain uncommented clean hn
    exact ⟨t, ht, (own ht).mp base⟩
  · rintro ⟨t, ht, base⟩
    have grouping : ∀ v ∈ t.variants, v.arbitrary = true → v.kind = .media →
        isGrouping v.selector = true := fun v hv bracketed => (tame t ht v hv bracketed).media
    exact subjectBases_le_coverage accepted uncustomized plain uncommented clean ht grouping n
      ((own ht).mpr base)

/-- With tame variants throughout, a layer covers the base classes of its tokens. In
general each base class that it covers is that of a subject of a token's rule. A token
whose bracketed at-rules all group rules has its subjects covered, and one whose bracketed
variants are tame has no subject but itself. -/
theorem coverage_from_subjects :
    ((∀ t ∈ index.withFate .styled classes, ∀ v ∈ t.variants, v.arbitrary = true → v.Tame) →
      coverage (index.render classes name) =
        .ofList ((index.withFate .styled classes).map Token.baseClass)) ∧
    (∀ n ∈ coverage (index.render classes name),
      ∃ t ∈ index.withFate .styled classes, n ∈ index.subjectBases t) ∧
    ∀ t ∈ index.withFate .styled classes,
      ((∀ v ∈ t.variants, v.arbitrary = true → v.kind = .media → isGrouping v.selector = true) →
        index.subjectBases t ≤ coverage (index.render classes name)) ∧
      ((∀ v ∈ t.variants, v.arbitrary = true → v.Tame) →
        index.subjectBases t = .ofList [t.baseClass]) := by
  refine ⟨coverage_of_tame accepted uncustomized plain uncommented clean,
    fun n => subject_of_covered accepted uncustomized plain uncommented clean, ?_⟩
  intro t ht
  exact ⟨subjectBases_le_coverage accepted uncustomized plain uncommented clean ht,
    subjectBases_of_tame accepted uncustomized clean ht⟩

end

def descendantTokens : TextSet := .ofList ["[&_.icon]:bg-primary", "[&_figure]:bg-primary"]

theorem figure_token_covered :
    build colorTheme .all = .ok colorIndex ∧ colorIndex.custom.utilities = [] ∧
      name? "utilities".toList = some ("utilities".toList, []) ∧
      withoutComments (colorIndex.render descendantTokens "utilities") =
        colorIndex.render descendantTokens "utilities" ∧
      (∀ r ∈ colorIndex.rules descendantTokens, r.Clean) ∧
      "bg-primary".toList ∈ coverage (colorIndex.render descendantTokens "utilities") := by
  have plain : name? "utilities".toList = some ("utilities".toList, []) := by decide
  have uncommented : withoutComments (colorIndex.render descendantTokens "utilities") =
      colorIndex.render descendantTokens "utilities" := by
    decide +kernel
  have clean : ∀ r ∈ colorIndex.rules descendantTokens, r.Clean := by decide +kernel
  refine ⟨build_colorTheme, rfl, plain, uncommented, clean, ?_⟩
  have styled : colorIndex.token "[&_figure]:bg-primary" ∈
      colorIndex.withFate .styled descendantTokens := by
    decide +kernel
  have variants : (colorIndex.token "[&_figure]:bg-primary").variants =
      [.ofArbitrary "& figure"] := by
    decide +kernel
  have tame : (Variant.ofArbitrary "& figure").Tame := by
    constructor
    · intro hk
      cases hk
    · exact fun _ => ⟨" figure".toList, rfl, by decide, by decide⟩
    · intro hk
      cases hk
  obtain ⟨-, -, own⟩ := coverage_from_subjects build_colorTheme rfl plain uncommented clean
  obtain ⟨covers, bases⟩ := own _ styled
  rw [variants] at covers bases
  have base := bases fun v hv _ => List.mem_singleton.mp hv ▸ tame
  apply covers
  · intro v hv _ media
    obtain rfl := List.mem_singleton.mp hv
    exact tame.media media
  · rw [base]
    exact TextSet.mem_ofList.mpr List.mem_cons_self

/-- With a bracketed variant that goes on to a class, that class is covered and
the base class is not. -/
theorem icon_token_uncovered :
    ∃ index, build colorTheme .all = .ok index ∧ index.custom.utilities = [] ∧
      coverage (index.render (.ofList ["[&_.icon]:bg-primary"]) "utilities") = .ofList ["icon"] ∧
      coverage (index.render (.ofList ["[&_.icon]:bg-primary"]) "utilities") ≠
        .ofList ((index.withFate .styled (.ofList ["[&_.icon]:bg-primary"])).map
          Token.baseClass) := by
  have found : (coverage (colorIndex.render (.ofList ["[&_.icon]:bg-primary"]) "utilities")).toList =
      ["icon".toList] := by
    decide +kernel
  have bases : (colorIndex.withFate .styled (.ofList ["[&_.icon]:bg-primary"])).map
      Token.baseClass = ["bg-primary".toList] := by
    decide +kernel
  have shown : coverage (colorIndex.render (.ofList ["[&_.icon]:bg-primary"]) "utilities") =
      .ofList ["icon"] := by
    apply TextSet.eq_of_mem_iff
    intro n
    rw [TextSet.mem_iff, found, TextSet.mem_ofList]
  refine ⟨colorIndex, build_colorTheme, rfl, shown, ?_⟩
  rw [shown, bases]
  decide

end Layer.Index

end UtilityLayer
