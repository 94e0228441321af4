import UtilityLayer.Proofs.Css.Escape
import UtilityLayer.Proofs.Layer.ReadBack
import UtilityLayer.Proofs.Layer.RootTheme

/-!
# Generated layers

The texts of a layer are those of the rules of its styled tokens. A rule stands
alone when each of its parts is one part of a sheet. A bracketed variant with a
quote is no such part: it takes the rest of the layer into a string.
-/

set_option autoImplicit false

namespace UtilityLayer

open Text Css

namespace Rule

open Layer

theorem wrap_eq (head inner : Text) :
    wrap head inner = printBlock head ([' '] ++ inner ++ [' ']) := by
  have lead : " \x7b ".toList = " \x7b".toList ++ [' '] := rfl
  have tail : " \x7d".toList = [' '] ++ "\x7d".toList := rfl
  have unfolded : wrap head inner = head ++ " \x7b ".toList ++ inner ++ " \x7d".toList := rfl
  have printed : printBlock head ([' '] ++ inner ++ [' ']) =
    head ++ " \x7b".toList ++ ([' '] ++ inner ++ [' ']) ++ "\x7d".toList := rfl
  rw [unfolded, printed, lead, tail]
  simp only [List.append_assoc]

theorem closes_wrap {head inner : Text} (tidy : Tidy head) (h : Closes inner) :
    Closes (wrap head inner) := by
  have space : Closes [' '] := ⟨rfl, rfl⟩
  have hp := printBlock_eq head ([' '] ++ inner ++ [' ']) []
  rw [List.append_nil] at hp
  rw [wrap_eq, hp]
  exact closes_block tidy.opens ((space.append h).append space)

theorem standsAlone_wrap {head inner : Text} (tidy : Tidy head) (h : Closes inner) :
    StandsAlone (wrap head inner) := by
  have space : Closes [' '] := ⟨rfl, rfl⟩
  exact standsAlone_iff.mpr ⟨head, _, wrap_eq head inner, tidy, (space.append h).append space⟩

theorem closes_nest {heads : List Text} {inner : Text} (tidy : ∀ h ∈ heads, Tidy h)
    (h : Closes inner) : Closes (nest heads inner) := by
  induction heads with
  | nil => exact h
  | cons head heads ih =>
    exact closes_wrap (tidy head (by simp)) (ih fun u hu => tidy u (by simp [hu]))

theorem standsAlone (r : Rule) (selector : Tidy r.selector) (nested : ∀ h ∈ r.nested, Tidy h)
    (media : ∀ h ∈ r.media, Tidy h) (body : Closes r.body) : StandsAlone r.text := by
  have inner := closes_nest nested body
  rw [text]
  cases hm : r.media with
  | none => exact standsAlone_wrap selector inner
  | some head => exact standsAlone_wrap (media head hm) (closes_wrap selector inner)

end Rule

namespace Layer

theorem Buffer.mem_texts_push {b : Buffer} {r : Rule} {t : Text} :
    t ∈ (b.push r).2.texts ↔ t ∈ b.texts ∨ r.text = t := by
  rw [texts_push]
  split
  · rename_i h
    constructor
    · exact .inl
    · rintro (ht | rfl)
      · exact ht
      · exact h
  · simp [eq_comm]

theorem Buffer.mem_texts_pushAll {b : Buffer} {rs : List Rule} {t : Text} :
    t ∈ (b.pushAll rs).2.texts ↔ t ∈ b.texts ∨ ∃ r ∈ rs, r.text = t := by
  induction rs generalizing b with
  | nil => simp [pushAll]
  | cons r rs ih =>
    rw [pushAll, ih, mem_texts_push]
    simp [or_assoc]

theorem Buffer.ordered_perm (b : Buffer) : b.ordered.Perm b.texts := by
  have perm := List.filter_append_perm (fun r : Stored => !r.wrapped) b.rules
  have same : (b.rules.filter fun r => !!r.wrapped) = b.rules.filter Stored.wrapped := by
    apply List.filter_congr
    intro s _
    exact Bool.not_not s.wrapped
  rw [same] at perm
  exact perm.map Stored.text

theorem Buffer.mem_ordered {b : Buffer} {t : Text} : t ∈ b.ordered ↔ t ∈ b.texts :=
  b.ordered_perm.mem_iff

namespace Index

theorem eq_of_build {theme : Text} {colors : Utility.Colors} {index : Index}
    (h : build theme colors = .ok index) :
    ∃ custom, Utility.Collection.ofSheet theme = .ok custom ∧
      index = .ofParts (.ofSheet theme) custom colors := by
  rw [build.eq_def] at h
  cases hc : Utility.Collection.ofSheet theme with
  | error e =>
    rw [hc] at h
    cases h
  | ok custom =>
    rw [hc] at h
    exact ⟨custom, rfl, (Except.ok.inj h).symm⟩

theorem custom_of_build {theme : Text} {colors : Utility.Colors} {index : Index}
    (h : build theme colors = .ok index) : Utility.Collection.ofSheet theme = .ok index.custom := by
  obtain ⟨custom, read, rfl⟩ := eq_of_build h
  exact read

theorem mem_generate {index : Index} {classes : TextSet} {t : Text} :
    t ∈ (index.generate classes .empty).ordered ↔ ∃ r ∈ index.rules classes, r.text = t := by
  rw [Buffer.mem_ordered, generate, Buffer.mem_texts_pushAll]
  simp [Buffer.empty, Buffer.texts]

theorem mem_withFate {index : Index} {classes : TextSet} {f : Fate} {t : Token} :
    t ∈ index.withFate f classes ↔ ∃ raw ∈ classes, index.token raw = t ∧ index.fate t = f := by
  simp only [withFate, tokens, List.mem_filter, List.mem_map, decide_eq_true_eq]
  constructor
  · rintro ⟨⟨raw, hr, rfl⟩, hf⟩
    exact ⟨raw, hr, rfl, hf⟩
  · rintro ⟨raw, hr, rfl, hf⟩
    exact ⟨⟨raw, hr, rfl⟩, hf⟩

/-- A rule comes from a styled token and one of the utilities of its base class. -/
theorem mem_rules {index : Index} {classes : TextSet} {r : Rule} :
    r ∈ index.rules classes ↔ ∃ raw ∈ classes, index.fate (index.token raw) = .styled ∧
      (index.generatedRule? (index.token raw) = some r ∨
        r ∈ index.customRules (index.token raw)) := by
  simp only [rules, List.mem_append, List.mem_filterMap, List.mem_flatMap, mem_withFate]
  constructor
  · rintro (⟨t, ⟨raw, hr, rfl, hf⟩, hg⟩ | ⟨t, ⟨raw, hr, rfl, hf⟩, hg⟩)
    · exact ⟨raw, hr, hf, .inl hg⟩
    · exact ⟨raw, hr, hf, .inr hg⟩
  · rintro ⟨raw, hr, hf, hg | hg⟩
    · exact .inl ⟨_, ⟨raw, hr, rfl, hf⟩, hg⟩
    · exact .inr ⟨_, ⟨raw, hr, rfl, hf⟩, hg⟩

theorem exists_rule_of_styled {index : Index} {t : Token}
    (h : index.fate t = .styled) :
    ∃ r, index.generatedRule? t = some r ∨ r ∈ index.customRules t := by
  rw [fate] at h
  split at h
  · cases h
  · split at h
    · rename_i found
      simp only [hasUtility, Bool.and_eq_true, Bool.or_eq_true] at found
      rcases found.2 with generated | authored
      · obtain ⟨u, hu⟩ := Option.isSome_iff_exists.mp generated
        exact ⟨Rule.compose t u, .inl (by rw [generatedRule?, hu]; rfl)⟩
      · have some := Utility.Collection.contains_iff.mp authored
        obtain ⟨u, us, hu⟩ := List.exists_cons_of_ne_nil some
        exact ⟨Rule.compose t u, .inr (by rw [customRules, hu]; exact List.mem_cons_self)⟩
    · cases h

/-- A layer reads back as its rules exactly when it has no comment and every rule
of its tokens stands alone. -/
theorem render_reads_back_iff (index : Index) (classes : TextSet) {name : Text}
    (plain : name? name = some (name, [])) :
    ReadsBack (index.render classes name) name (index.generate classes .empty).ordered ↔
      withoutComments (index.render classes name) = index.render classes name ∧
        ∀ r ∈ index.rules classes, StandsAlone r.text := by
  rw [render_eq, readsBack_iff plain]
  constructor
  · rintro ⟨hc, ha⟩
    exact ⟨hc, fun r hr => ha r.text (mem_generate.mpr ⟨r, hr, rfl⟩)⟩
  · rintro ⟨hc, ha⟩
    refine ⟨hc, ?_⟩
    intro t ht
    obtain ⟨r, hr, rfl⟩ := mem_generate.mp ht
    exact ha r hr

theorem color_layer_reads_back :
    name? "utilities".toList = some ("utilities".toList, []) ∧
      ReadsBack (colorIndex.render (.ofList ["bg-primary"]) "utilities") "utilities"
        (colorIndex.generate (.ofList ["bg-primary"]) .empty).ordered := by
  have plain : name? "utilities".toList = some ("utilities".toList, []) := by decide
  have rules : colorIndex.rules (.ofList ["bg-primary"]) =
      [{ selector := ".bg-primary", body := "background-color: var(--primary);" }] := by
    decide
  refine ⟨plain, (render_reads_back_iff colorIndex _ plain).mpr ⟨by decide, ?_⟩⟩
  rw [rules]
  intro r hr
  obtain rfl := List.mem_singleton.mp hr
  apply Rule.standsAlone
  · exact ⟨by decide, by decide, ⟨by decide, by decide, by decide⟩⟩
  · simp
  · simp
  · exact ⟨by decide, by decide⟩

def quoteToken : Text := "[&_']:bg-primary"

def quoteRule : Rule where
  selector := ".\\[\\&\\_\\'\\]\\:bg-primary '"
  body := "background-color: var(--primary);"

/-- A quote in a bracketed variant takes the end of its rule into a string, and no
rule of the layer is read. -/
theorem quote_breaks_layer :
    ∃ index, Index.build colorTheme .all = .ok index ∧
      ¬ ReadsBack (index.render (.ofList [quoteToken]) "utilities") "utilities"
        (index.generate (.ofList [quoteToken]) .empty).ordered := by
  refine ⟨colorIndex, build_colorTheme, ?_⟩
  intro back
  have generated : colorIndex.generatedRule? (colorIndex.token quoteToken) = some quoteRule := by
    decide
  have rule : quoteRule ∈ colorIndex.rules (.ofList [quoteToken]) :=
    mem_rules.mpr ⟨quoteToken, TextSet.mem_ofList.mpr (by simp), by decide, .inl generated⟩
  have text := mem_generate.mpr ⟨quoteRule, rule, rfl⟩
  have alone := ((readsBack_iff (by decide) _).mp back).2 _ text
  have absent : readItem (skipGap quoteRule.text) = .absent := rfl
  exact not_standsAlone_of_absent absent alone

end Index

end Layer

end UtilityLayer
