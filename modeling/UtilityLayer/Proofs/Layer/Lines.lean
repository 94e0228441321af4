import UtilityLayer.Proofs.Layer.Coverage
import UtilityLayer.Proofs.Layer.RootTheme
import UtilityLayer.Proofs.Rule.Lines
import UtilityLayer.Proofs.Utility.Authored

/-!
# The lines of a layer

Names of theme variables have no line breaks, and bodies and selectors of
hand-authored utilities are normalized, so the text of a theme can bring a line
break into a layer only through the width of a breakpoint. A layer whose rules
are one line has two more lines than it has rules.
-/

set_option autoImplicit false

namespace UtilityLayer

open Text Css Theme

namespace Theme

variable {t : Text}

theorem oneLine_of_isSuffix (h : isSuffix t = true) : OneLine t :=
  oneLine_of (by decide) (List.all_eq_true.mp (Bool.and_eq_true_iff.mp h).2)

theorem oneLine_of_familyOfBare? {r : Family × Text} (h : familyOfBare? t = some r) :
    OneLine t := by
  rw [familyOfBare?] at h
  split at h
  · rename_i found
    obtain ⟨lead, hl, hf⟩ := List.exists_of_findSome?_eq_some found
    obtain ⟨suffix, hs, -⟩ := Option.map_eq_some_iff.mp hf
    obtain ⟨rest, shape⟩ := Option.filter_eq_some_iff.mp hs
    have leads : ∀ l ∈ familyLeads, OneLine l.1 := by decide
    rw [after?_eq_some_iff.mp rest, oneLine_append]
    exact ⟨leads lead hl, oneLine_of_isSuffix shape⟩
  · split at h
    · rename_i shape
      exact oneLine_of_isSuffix (Bool.and_eq_true_iff.mp shape).2
    · cases h

theorem oneLine_of_familyOf? {r : Family × Text} (h : familyOf? t = some r) : OneLine t := by
  rw [familyOf?] at h
  have bare := oneLine_of_familyOfBare? h
  cases hd : after? "--" t with
  | none =>
    rw [hd] at bare
    exact bare
  | some rest =>
    rw [hd] at bare
    rw [after?_eq_some_iff.mp hd, oneLine_append]
    exact ⟨by decide, bare⟩

end Theme

namespace Utility

theorem oneLine_of_mem_targets {colors : Colors} {f : Family} {target : Text × Text}
    (h : target ∈ targets colors f) : OneLine target.2 := by
  have fixed : ∀ f ≠ .color, ∀ q ∈ targets ⟨fun _ => false⟩ f, OneLine q.2 := by
    intro f
    cases f <;> decide
  by_cases hf : f = .color
  · subst hf
    obtain ⟨color, -, rfl⟩ := List.mem_map.mp h
    cases color <;> decide
  · apply fixed f hf
    cases f with
    | color => exact absurd rfl hf
    | fontFamily | fontWeight | fontSize | spacing | radius | shadow | leading | tracking
    | opacity | zIndex | breakpoint => exact h

theorem oneLine_of_mem_generate {f : Family} {suffix value : Text} {colors : Colors}
    {p : Text × Text} (one : OneLine value) (h : p ∈ generate f suffix value colors) :
    OneLine p.2 := by
  obtain ⟨⟨stem, property⟩, ht, rfl⟩ := List.mem_map.mp h
  show OneLine (declaration property value)
  rw [declaration, oneLine_append, oneLine_append, oneLine_append]
  exact ⟨⟨⟨oneLine_of_mem_targets ht, by decide⟩, one⟩, by decide⟩

theorem oneLine_reference {name : Text} (h : OneLine name) : OneLine (reference name) := by
  unfold reference
  rw [oneLine_append, oneLine_append]
  exact ⟨⟨by decide, h⟩, by decide⟩

theorem oneLine_decimal (n : Nat) : OneLine (decimal n) :=
  oneLine_of (by decide) fun _ hc => isDigit_of_mem_decimal hc

theorem oneLine_translucent {name : Text} (h : OneLine name) (n : Nat) :
    OneLine (translucent name n) := by
  unfold translucent
  rw [oneLine_append, oneLine_append, oneLine_append, oneLine_append]
  exact ⟨⟨⟨⟨by decide, oneLine_reference h⟩, by decide⟩, oneLine_decimal n⟩, by decide⟩

theorem Table.oneLine_of_mem_build {vars : Variables} {colors : Colors} {e : Text × Generated}
    (h : e ∈ (build vars colors).entries) :
    OneLine e.2.source.name ∧ OneLine e.2.utility.body := by
  obtain ⟨v, -, hv⟩ := mem_build h
  rw [generatedBy.eq_def] at hv
  split at hv
  · cases hv
  · rename_i found
    have named := oneLine_of_familyOf? found
    obtain ⟨p, hp, rfl⟩ := List.mem_map.mp hv
    exact ⟨named, oneLine_of_mem_generate (oneLine_reference named) hp⟩

theorem flat_of_plain {u : Utility} (body : OneLine u.body) (plain : u.context = none) :
    Rule.Flat u := by
  refine ⟨body, ?_⟩
  intro context hc
  rw [plain] at hc
  cases hc

theorem Table.flat_of_resolve? {vars : Variables} {colors : Colors} {baseClass : Text}
    {u : Utility} (h : (build vars colors).resolve? baseClass = some u) : Rule.Flat u := by
  refine flat_of_plain ?_ (context_of_resolve? h)
  rw [resolve?, Option.orElse_eq_or, Option.or_eq_some_iff] at h
  rcases h with h | ⟨-, h⟩
  · obtain ⟨g, hg, rfl⟩ := Option.map_eq_some_iff.mp h
    exact (oneLine_of_mem_build (Keyed.mem_of_get? hg)).2
  · simp only [faded?, bind, Option.bind_eq_some_iff] at h
    obtain ⟨p, -, n, -, g, hg, hu⟩ := h
    split at hu
    · obtain ⟨q, hq, hu⟩ := Option.bind_eq_some_iff.mp hu
      obtain rfl := Option.some.inj hu
      have named := (oneLine_of_mem_build (Keyed.mem_of_get? hg)).1
      exact oneLine_of_mem_generate (oneLine_translucent named n) (List.mem_of_find?_eq_some hq)
    · cases hu

theorem flat_of_selector {selector body : Text} {u : Utility} (hs : OneLine selector)
    (hb : OneLine body) (h : .utility u ∈ authoredBySelector selector body) : Rule.Flat u := by
  rw [authoredBySelector.eq_def] at h
  split at h
  · cases List.mem_singleton.mp h
  · cases h
  · obtain ⟨c, -, hu⟩ := List.mem_map.mp h
    obtain rfl := Authored.utility.inj hu
    rw [authoredUtility]
    split
    · exact flat_of_plain hb rfl
    · refine ⟨hb, ?_⟩
      intro context hn
      obtain rfl := Option.some.inj hn
      exact hs

theorem flat_of_block {head body : Text} {u : Utility}
    (h : .utility u ∈ authoredByBlock head body) : Rule.Flat u := by
  have normal := oneLine_normalize body
  rw [authoredByBlock] at h
  split at h
  · split at h
    · cases h
    · obtain rfl := Authored.utility.inj (List.mem_singleton.mp h)
      exact flat_of_plain normal rfl
  · split at h
    · cases h
    · rw [authoredByRule] at h
      split at h
      · cases h
      · obtain ⟨branch, -, hb⟩ := List.mem_flatMap.mp h
        exact flat_of_selector (oneLine_normalize branch) normal hb

theorem Collection.flat_of_ofSheet {theme : Text} {c : Collection} (h : ofSheet theme = .ok c)
    {u : Utility} (hu : u ∈ c.utilities) : Rule.Flat u := by
  rw [eq_of_ofSheet h, mem_ofList] at hu
  obtain ⟨head, body, hb⟩ := exists_block_of_written hu
  exact flat_of_block hb

end Utility

def Theme.isBreakpoint (v : Text × Text) : Prop :=
  (familyOf? v.1).map Prod.fst = some .breakpoint

theorem Variant.Table.mem_widths {vars : Variables} {name w : Text}
    (h : (ofVariables vars).breakpoint? name = some w) :
    (name, w) ∈ screenWidths ∨ ∃ v ∈ vars.entries, isBreakpoint v ∧ v.2 = w := by
  have fold (vs : List (Text × Text)) (table : Table)
      (h : (name, w) ∈ (vs.foldl addVariable table).breakpoints) :
      (name, w) ∈ table.breakpoints ∨ ∃ v ∈ vs, isBreakpoint v ∧ v.2 = w := by
    induction vs generalizing table with
    | nil => exact .inl h
    | cons v vs ih =>
      rcases ih _ h with h | ⟨v', hv', found⟩
      · rw [addVariable] at h
        split at h
        · rename_i suffix family
          rcases Keyed.mem_set h with he | h
          · obtain ⟨-, rfl⟩ := Prod.mk.inj he
            exact .inr ⟨v, by simp, by rw [isBreakpoint, family]; rfl, rfl⟩
          · exact .inl h
        · exact .inl h
      · exact .inr ⟨v', by simp [hv'], found⟩
  exact fold vars.entries default (Keyed.mem_of_get? h)

namespace Layer

theorem count_ruled (ts : List Text) :
    (ruled ts).count '\n' = ts.length + ts.flatten.count '\n' := by
  induction ts with
  | nil => rfl
  | cons t ts ih =>
    have step : ruled (t :: ts) = t ++ ['\n'] ++ ruled ts := rfl
    have feed : List.count '\n' ['\n'] = 1 := rfl
    rw [step, List.count_append, List.count_append, ih, List.flatten_cons, List.count_append,
      List.length_cons, feed]
    omega

theorem lineCount_layer (b : Buffer) {name : Text} (named : OneLine name) :
    lineCount (layerText b name) = b.size + 2 + b.ordered.flatten.count '\n' := by
  have opening : (openLayer name).count '\n' = 1 := by
    rw [openLayer_eq, layerHead_eq, List.count_append, List.count_append, List.count_append,
      named.count]
    decide
  have closing : List.count '\n' ['}'] = 0 := rfl
  have whole : layerText b name = openLayer name ++ ruled b.ordered ++ ['}'] := rfl
  have size : b.ordered.length = b.size := by
    rw [b.ordered_perm.length_eq, Buffer.texts, List.length_map, Buffer.size]
  rw [lineCount_eq, whole, List.count_append, List.count_append, opening, count_ruled, closing,
    size]
  omega

namespace Index

variable {theme : Text} {colors : Utility.Colors} {index : Index} {classes : TextSet}

/-- A layer has two lines more than rules exactly when no rule has a line feed. -/
theorem lineCount_render (index : Index) (classes : TextSet) {name : Text}
    (named : OneLine name) :
    lineCount (index.render classes name) = (index.generate classes .empty).size + 2 ↔
      ∀ t ∈ (index.generate classes .empty).texts, '\n' ∉ t := by
  have none : (index.generate classes .empty).ordered.flatten.count '\n' = 0 ↔
      ∀ t ∈ (index.generate classes .empty).texts, '\n' ∉ t := by
    simp only [List.count_eq_zero, List.mem_flatten, Buffer.mem_ordered, not_exists, not_and]
  rw [← none, render, lineCount_layer _ named]
  omega

theorem flat_of_rule (accepted : build theme colors = .ok index) {raw : Text} {r : Rule}
    (h : index.generatedRule? (index.token raw) = some r ∨
      r ∈ index.customRules (index.token raw)) :
    ∃ u, Rule.Flat u ∧ r = Rule.compose (index.token raw) u := by
  rcases h with generated | authored
  · obtain ⟨custom, -, rfl⟩ := eq_of_build accepted
    obtain ⟨u, hu, rfl⟩ := Option.map_eq_some_iff.mp generated
    exact ⟨u, Utility.Table.flat_of_resolve? hu, rfl⟩
  · obtain ⟨u, hu, rfl⟩ := List.mem_map.mp authored
    have held := (List.mem_filter.mp hu).1
    exact ⟨u, Utility.Collection.flat_of_ofSheet (custom_of_build accepted) held, rfl⟩

theorem oneLine_rule_iff (accepted : build theme colors = .ok index) {raw : Text}
    (plain : OneLine raw) {r : Rule}
    (h : index.generatedRule? (index.token raw) = some r ∨
      r ∈ index.customRules (index.token raw)) :
    OneLine r.text ↔ ∀ m, (index.token raw).wrapper? = some m → OneLine m := by
  obtain ⟨u, flat, rfl⟩ := flat_of_rule accepted h
  exact Rule.oneLine_compose plain flat

theorem oneLine_texts_iff (accepted : build theme colors = .ok index)
    (plain : ∀ raw ∈ classes, OneLine raw) :
    (∀ t ∈ (index.generate classes .empty).texts, OneLine t) ↔
      ∀ t ∈ index.withFate .styled classes, ∀ m, t.wrapper? = some m → OneLine m := by
  simp only [← Buffer.mem_ordered, mem_generate]
  constructor
  · intro all t ht
    obtain ⟨raw, member, rfl, styled⟩ := mem_withFate.mp ht
    obtain ⟨r, hr⟩ := exists_rule_of_styled styled
    rw [← oneLine_rule_iff accepted (plain raw member) hr]
    exact all r.text ⟨r, mem_rules.mpr ⟨raw, member, styled, hr⟩, rfl⟩
  · rintro all - ⟨r, hr, rfl⟩
    obtain ⟨raw, member, styled, hr⟩ := mem_rules.mp hr
    rw [oneLine_rule_iff accepted (plain raw member) hr]
    exact all _ (mem_withFate.mpr ⟨raw, member, rfl, styled⟩)

theorem breakpoint_of_wrapper (accepted : build theme colors = .ok index) {raw m : Text}
    (plain : OneLine raw) (wrapped : (index.token raw).wrapper? = some m) (broken : ¬ OneLine m) :
    ∃ v ∈ (Variables.ofSheet theme).entries, isBreakpoint v ∧ ¬ OneLine v.2 ∧
      Variant.isQueryOf v.2 m := by
  obtain ⟨custom, -, rfl⟩ := eq_of_build accepted
  obtain ⟨variant, hv, rfl⟩ := Option.map_eq_some_iff.mp wrapped
  have member := (List.mem_filter.mp (List.mem_of_getLast? hv)).1
  rcases Token.oneLine_or_breakpoint plain member with one | ⟨-, bp, w, found, wide, query⟩
  · exact absurd one broken
  · rcases Variant.Table.mem_widths found with fixed | ⟨v, hv, family, rfl⟩
    · have widths : ∀ e ∈ Variant.screenWidths, OneLine e.2 := by decide
      exact absurd (widths _ fixed) wide
    · exact ⟨v, hv, family, wide, query⟩

/-- Rules are one line but for the at-rules of breakpoints whose values are not. -/
theorem rules_one_line (accepted : build theme colors = .ok index)
    (plain : ∀ raw ∈ classes, OneLine raw) {name : Text} (named : OneLine name) :
    ((∀ v ∈ (Variables.ofSheet theme).entries, isBreakpoint v → OneLine v.2) →
      (∀ t ∈ (index.generate classes .empty).texts, OneLine t) ∧
        lineCount (index.render classes name) = (index.generate classes .empty).size + 2) ∧
    ((∀ t ∈ (index.generate classes .empty).texts, OneLine t) ↔
      ∀ t ∈ index.withFate .styled classes, ∀ m, t.wrapper? = some m → OneLine m) ∧
    (∀ t ∈ index.withFate .styled classes, ∀ m, t.wrapper? = some m → ¬ OneLine m →
      ∃ v ∈ (Variables.ofSheet theme).entries, isBreakpoint v ∧ ¬ OneLine v.2 ∧
        Variant.isQueryOf v.2 m) ∧
    (lineCount (index.render classes name) = (index.generate classes .empty).size + 2 ↔
      ∀ t ∈ (index.generate classes .empty).texts, '\n' ∉ t) := by
  have origin : ∀ t ∈ index.withFate .styled classes, ∀ m, t.wrapper? = some m → ¬ OneLine m →
      ∃ v ∈ (Variables.ofSheet theme).entries, isBreakpoint v ∧ ¬ OneLine v.2 ∧
        Variant.isQueryOf v.2 m := by
    intro t ht m wrapped broken
    obtain ⟨raw, member, rfl, -⟩ := mem_withFate.mp ht
    exact breakpoint_of_wrapper accepted (plain raw member) wrapped broken
  have decided := oneLine_texts_iff accepted plain
  have lines := lineCount_render index classes named
  refine ⟨?_, decided, origin, lines⟩
  intro widths
  have one : ∀ t ∈ (index.generate classes .empty).texts, OneLine t := by
    rw [decided]
    intro t ht m wrapped
    by_contra broken
    obtain ⟨v, hv, family, wide, -⟩ := origin t ht m wrapped broken
    exact wide (widths v hv family)
  refine ⟨one, lines.mpr ?_⟩
  intro t ht broken
  cases one t ht _ broken

def tabletTheme (width : Text) : Text :=
  rootTheme (" --breakpoint-tablet: ".toList ++ width ++ "; --primary: red; ".toList)

def tabletVariables (width : Text) : Variables :=
  (Variables.empty.define "--breakpoint-tablet" width).define "--primary" "red"

def tabletIndex (width : Text) : Index := .ofParts (tabletVariables width) .empty .all

def tabletTokens : TextSet := .ofList ["bg-primary", "tablet:bg-primary"]

theorem build_tabletTheme {width : Text}
    (closes : Closes (" --breakpoint-tablet: ".toList ++ width ++ "; --primary: red; ".toList))
    (plain : withoutComments (tabletTheme width) = tabletTheme width)
    (entries : (Variables.ofSheet (tabletTheme width)).entries = (tabletVariables width).entries) :
    build (tabletTheme width) .all = .ok (tabletIndex width) := by
  have vars : Variables.ofSheet (tabletTheme width) = tabletVariables width := by
    cases h : Variables.ofSheet (tabletTheme width)
    rw [h] at entries
    cases entries
    rfl
  rw [tabletIndex, ← vars]
  exact build_rootTheme closes plain .all

theorem tablet_rules_one_line :
    build (tabletTheme "40rem") .all = .ok (tabletIndex "40rem") ∧
      (∀ raw ∈ tabletTokens, OneLine raw) ∧ OneLine "utilities" ∧
      (∀ v ∈ (Variables.ofSheet (tabletTheme "40rem")).entries, isBreakpoint v → OneLine v.2) ∧
      ((tabletIndex "40rem").generate tabletTokens .empty).size = 2 ∧
      lineCount ((tabletIndex "40rem").render tabletTokens "utilities") = 4 := by
  have entries : (Variables.ofSheet (tabletTheme "40rem")).entries =
      (tabletVariables "40rem").entries := by
    decide +kernel
  have accepted : build (tabletTheme "40rem") .all = .ok (tabletIndex "40rem") :=
    build_tabletTheme ⟨by decide, by decide⟩ (by decide +kernel) entries
  have plain : ∀ raw ∈ tabletTokens, OneLine raw := by
    intro raw hr
    have each : ∀ raw ∈ tabletTokens.toList, OneLine raw := by decide
    exact each raw hr
  have widths : ∀ v ∈ (Variables.ofSheet (tabletTheme "40rem")).entries,
      isBreakpoint v → OneLine v.2 := by
    rw [entries]
    have each : ∀ v ∈ (tabletVariables "40rem").entries, OneLine v.2 := by decide
    intro v hv _
    exact each v hv
  have size : ((tabletIndex "40rem").generate tabletTokens .empty).size = 2 := by decide +kernel
  have named : OneLine "utilities".toList := by decide
  have lines := ((rules_one_line accepted plain named).1 widths).2
  rw [size] at lines
  exact ⟨accepted, plain, named, widths, size, lines⟩

def foldedWidth : Text := "calc(40rem\n+ 2rem)"

def foldedRule : Text :=
  "@media (min-width: calc(40rem\n+ 2rem)) \x7b ".toList ++
    ".tablet\\:bg-primary \x7b background-color: var(--primary); \x7d \x7d".toList

/-- The width of a breakpoint is written as the theme breaks it. -/
theorem folded_width_breaks_line :
    ∃ index, build (tabletTheme foldedWidth) .all = .ok index ∧
      (∀ raw ∈ (.ofList ["tablet:bg-primary"] : TextSet), raw.all (fun c => !isBlank c) = true) ∧
      (∃ t ∈ (index.generate (.ofList ["tablet:bg-primary"]) .empty).texts, '\n' ∈ t) ∧
      (index.generate (.ofList ["tablet:bg-primary"]) .empty).size = 1 ∧
      lineCount (index.render (.ofList ["tablet:bg-primary"]) "utilities") = 4 := by
  have accepted : build (tabletTheme foldedWidth) .all = .ok (tabletIndex foldedWidth) :=
    build_tabletTheme ⟨by decide, by decide⟩ (by decide +kernel) (by decide +kernel)
  refine ⟨tabletIndex foldedWidth, accepted, ?_, ?_, by decide +kernel, by decide +kernel⟩
  · intro raw hr
    obtain rfl := List.mem_singleton.mp (TextSet.mem_ofList.mp hr)
    decide
  · have texts : ((tabletIndex foldedWidth).generate (.ofList ["tablet:bg-primary"]) .empty).texts =
        [foldedRule] := by
      decide +kernel
    rw [texts]
    exact ⟨_, List.mem_singleton_self _, by decide⟩

end Index

end Layer

end UtilityLayer
