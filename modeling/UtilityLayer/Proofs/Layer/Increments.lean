import Mathlib.Data.Bool.Count
import UtilityLayer.Proofs.TextSet
import UtilityLayer.Proofs.Layer.Generated

/-!
# Generating in steps

What a pass does with a token depends on the index and the token alone, and a
buffer takes each text once. A set may therefore be generated in parts, in any
order and with repetitions: the buffer grows at its end only and comes to hold
the same rules.
-/

set_option autoImplicit false

namespace UtilityLayer.Layer

namespace Buffer

variable {b : Buffer} {r : Rule} {rs : List Rule}

theorem push_of_mem (h : r.text ∈ b.texts) : b.push r = (false, b) := by
  rw [push, dif_pos (mem_seen.mpr h)]

theorem rules_prefix_pushAll (b : Buffer) (rs : List Rule) :
    b.rules <+: (b.pushAll rs).2.rules := by
  induction rs generalizing b with
  | nil => exact List.prefix_rfl
  | cons r rs ih =>
    have step : b.rules <+: (b.push r).2.rules := by
      rw [rules_push]
      exact List.prefix_append _ _
    exact step.trans (ih (b.push r).2)

theorem pushAll_of_mem (h : ∀ r ∈ rs, r.text ∈ b.texts) : (b.pushAll rs).2 = b := by
  induction rs with
  | nil => rfl
  | cons r rs ih =>
    rw [pushAll, push_of_mem (h r (by simp))]
    exact ih fun s hs => h s (by simp [hs])

theorem size_push (b : Buffer) (r : Rule) :
    (b.push r).2.size = b.size + [(b.push r).1].count true := by
  rw [push]
  split
  · rfl
  · simp [size]

theorem size_pushAll (b : Buffer) (rs : List Rule) :
    (b.pushAll rs).2.size = b.size + (b.pushAll rs).1.count true := by
  induction rs generalizing b with
  | nil => rfl
  | cons r rs ih =>
    have step := size_push b r
    rw [List.count_singleton] at step
    rw [pushAll, ih, step, List.count_cons]
    omega

theorem length_answers (b : Buffer) (rs : List Rule) : (b.pushAll rs).1.length = rs.length := by
  induction rs generalizing b with
  | nil => rfl
  | cons r rs ih => simp only [pushAll, List.length_cons, ih]

end Buffer

namespace Index

variable {index : Index} {classes a b : TextSet} {buffer : Buffer} {raw t : Text}

/-- The rules that a pass pushes, each with the token that it is for. -/
def pushes (index : Index) (classes : TextSet) : List (Text × Rule) :=
  let styled := index.withFate .styled classes
  styled.flatMap (fun t => (index.generatedRule? t).toList.map fun r => (t.raw, r)) ++
    styled.flatMap fun t => (index.customRules t).map fun r => (t.raw, r)

theorem pushes_rules (index : Index) (classes : TextSet) :
    (index.pushes classes).map Prod.snd = index.rules classes := by
  have plain (t : Token) (rs : List Rule) : (rs.map fun r => (t.raw, r)).map Prod.snd = rs := by
    rw [List.map_map]
    exact List.map_id rs
  rw [pushes, rules, List.map_append, List.map_flatMap, List.map_flatMap]
  simp only [plain]
  rw [List.filterMap_eq_flatMap_toList]

/-- What a pass tells of a token: that it is partial, that it is unresolved, or
rules for it. -/
def Tells (index : Index) (classes : TextSet) (buffer : Buffer) (raw : Text) : Fate → Prop
  | .partly => raw ∈ (index.report classes buffer).partials
  | .unresolved => raw ∈ (index.report classes buffer).unresolved
  | .styled => ∃ r, (raw, r) ∈ index.pushes classes

theorem mem_withFate_raw {f : Fate} :
    raw ∈ (index.withFate f classes).map Token.raw ↔
      raw ∈ classes ∧ index.fate (index.token raw) = f := by
  rw [List.mem_map]
  constructor
  · rintro ⟨t, ht, rfl⟩
    obtain ⟨raw, hr, rfl, hf⟩ := mem_withFate.mp ht
    exact ⟨hr, hf⟩
  · rintro ⟨hr, hf⟩
    exact ⟨index.token raw, mem_withFate.mpr ⟨raw, hr, rfl, hf⟩, rfl⟩

theorem mem_pushes {r : Rule} :
    (raw, r) ∈ index.pushes classes ↔ raw ∈ classes ∧
      index.fate (index.token raw) = .styled ∧
        (index.generatedRule? (index.token raw) = some r ∨
          r ∈ index.customRules (index.token raw)) := by
  simp only [pushes, List.mem_append, List.mem_flatMap, List.mem_map, Option.mem_toList,
    Prod.mk.injEq, mem_withFate]
  constructor
  · rintro (⟨t, ⟨raw, hr, rfl, hf⟩, s, hs, rfl, rfl⟩ | ⟨t, ⟨raw, hr, rfl, hf⟩, s, hs, rfl, rfl⟩)
    · exact ⟨hr, hf, .inl hs⟩
    · exact ⟨hr, hf, .inr hs⟩
  · rintro ⟨hr, hf, hs | hs⟩
    · exact .inl ⟨index.token raw, ⟨raw, hr, rfl, hf⟩, r, hs, rfl, rfl⟩
    · exact .inr ⟨index.token raw, ⟨raw, hr, rfl, hf⟩, r, hs, rfl, rfl⟩

/-- A pass tells the fate of every token of the set and of no other. -/
theorem tells_iff {f : Fate} :
    index.Tells classes buffer raw f ↔ raw ∈ classes ∧ index.fate (index.token raw) = f := by
  cases f with
  | partly => exact mem_withFate_raw
  | unresolved => exact mem_withFate_raw
  | styled =>
    constructor
    · rintro ⟨r, hr⟩
      obtain ⟨member, styled, -⟩ := mem_pushes.mp hr
      exact ⟨member, styled⟩
    · rintro ⟨member, styled⟩
      obtain ⟨r, hr⟩ := exists_rule_of_styled styled
      exact ⟨r, mem_pushes.mpr ⟨member, styled, hr⟩⟩

theorem mem_iff_tells_once : raw ∈ classes ↔ ∃! f, index.Tells classes buffer raw f := by
  simp only [tells_iff]
  constructor
  · intro member
    exact ⟨_, ⟨member, rfl⟩, fun f hf => hf.2.symm⟩
  · rintro ⟨f, ⟨member, -⟩, -⟩
    exact member

theorem mem_texts_generate :
    t ∈ (index.generate classes buffer).texts ↔
      t ∈ buffer.texts ∨ ∃ r ∈ index.rules classes, r.text = t := Buffer.mem_texts_pushAll

theorem mem_rules_union {r : Rule} :
    r ∈ index.rules (a.union b) ↔ r ∈ index.rules a ∨ r ∈ index.rules b := by
  simp only [mem_rules, TextSet.mem_union]
  constructor
  · rintro ⟨raw, ha | hb, h⟩
    · exact .inl ⟨raw, ha, h⟩
    · exact .inr ⟨raw, hb, h⟩
  · rintro (⟨raw, ha, h⟩ | ⟨raw, hb, h⟩)
    · exact ⟨raw, .inl ha, h⟩
    · exact ⟨raw, .inr hb, h⟩

theorem mem_rules_of_le {r : Rule} (h : a ≤ b) (hr : r ∈ index.rules a) : r ∈ index.rules b := by
  obtain ⟨raw, member, rest⟩ := mem_rules.mp hr
  exact mem_rules.mpr ⟨raw, h raw member, rest⟩

theorem mem_texts_generate_union :
    t ∈ (index.generate b (index.generate a buffer)).texts ↔
      t ∈ (index.generate (a.union b) buffer).texts := by
  rw [mem_texts_generate, mem_texts_generate, mem_texts_generate, or_assoc]
  apply or_congr_right
  constructor
  · rintro (⟨r, hr, ht⟩ | ⟨r, hr, ht⟩)
    · exact ⟨r, mem_rules_union.mpr (.inl hr), ht⟩
    · exact ⟨r, mem_rules_union.mpr (.inr hr), ht⟩
  · rintro ⟨r, hr, ht⟩
    rcases mem_rules_union.mp hr with hr | hr
    · exact .inl ⟨r, hr, ht⟩
    · exact .inr ⟨r, hr, ht⟩

theorem generate_of_le {c : TextSet} (h : c ≤ a.union b) :
    index.generate c (index.generate b (index.generate a buffer)) =
      index.generate b (index.generate a buffer) := by
  apply Buffer.pushAll_of_mem
  intro r hr
  exact mem_texts_generate_union.mpr (mem_texts_generate.mpr (.inr ⟨r, mem_rules_of_le h hr, rfl⟩))

theorem size_generate (index : Index) (classes : TextSet) (buffer : Buffer) :
    (index.generate classes buffer).size =
      buffer.size + (index.report classes buffer).emitted := Buffer.size_pushAll _ _

theorem emitted_add_duplicates (index : Index) (classes : TextSet) (buffer : Buffer) :
    (index.report classes buffer).emitted + (index.report classes buffer).duplicates =
      (index.pushes classes).length := by
  rw [← List.length_map Prod.snd, pushes_rules, ← Buffer.length_answers buffer]
  exact List.count_true_add_count_false _

/-- A pass tells one thing of each of its tokens and counts every rule that it
pushes once. Passes over parts of a set leave the rules of the whole set, each
behind those stored before it, and a pass over tokens that are generated already
emits nothing. -/
theorem generate_in_steps (index : Index) (a b : TextSet) (buffer : Buffer) :
    (∀ raw, raw ∈ a ↔ ∃! f, index.Tells a buffer raw f) ∧
      (index.generate a buffer).size = buffer.size + (index.report a buffer).emitted ∧
      (index.report a buffer).emitted + (index.report a buffer).duplicates =
        (index.pushes a).length ∧
      index.generate a buffer = (buffer.pushAll ((index.pushes a).map Prod.snd)).2 ∧
      (∀ t, t ∈ (index.generate b (index.generate a buffer)).texts ↔
        t ∈ (index.generate (a.union b) buffer).texts) ∧
      buffer.rules <+: (index.generate a buffer).rules ∧
      ∀ c ≤ a.union b,
        index.generate c (index.generate b (index.generate a buffer)) =
            index.generate b (index.generate a buffer) ∧
          (index.report c (index.generate b (index.generate a buffer))).emitted = 0 := by
  refine ⟨fun _ => mem_iff_tells_once, size_generate index a buffer,
    emitted_add_duplicates index a buffer, ?_, fun _ => mem_texts_generate_union,
    Buffer.rules_prefix_pushAll _ _, ?_⟩
  · rw [pushes_rules]
    rfl
  · intro c hc
    have same : index.generate c (index.generate b (index.generate a buffer)) =
        index.generate b (index.generate a buffer) := generate_of_le hc
    have grown := size_generate index c (index.generate b (index.generate a buffer))
    rw [same] at grown
    exact ⟨same, by omega⟩

theorem colors_in_steps :
    TextSet.ofList ["bg-primary"] ≤
        (TextSet.ofList ["bg-primary"]).union (.ofList ["text-primary"]) ∧
      colorIndex.generate (.ofList ["bg-primary"]) (colorIndex.generate (.ofList ["text-primary"])
          (colorIndex.generate (.ofList ["bg-primary"]) .empty)) =
        colorIndex.generate (.ofList ["text-primary"])
          (colorIndex.generate (.ofList ["bg-primary"]) .empty) ∧
      (colorIndex.report (.ofList ["bg-primary"]) (colorIndex.generate (.ofList ["text-primary"])
        (colorIndex.generate (.ofList ["bg-primary"]) .empty))).emitted = 0 := by
  have le := TextSet.le_union_left (.ofList ["bg-primary"]) (.ofList ["text-primary"])
  obtain ⟨-, -, -, -, -, -, again⟩ :=
    generate_in_steps colorIndex (.ofList ["bg-primary"]) (.ofList ["text-primary"]) .empty
  exact ⟨le, again _ le⟩

end Index

end UtilityLayer.Layer
