import Mathlib.Data.List.Nodup
import UtilityLayer.Proofs.Layer.ReadBack
import UtilityLayer.Proofs.Layer.Generated
import UtilityLayer.Proofs.Text.Join

/-!
# What a layer is made of

A buffer that rules are pushed into one after the other holds the first rule of
each text, in the order of these pushes. A layer written from it has a line that
opens it, one for every rule outside at-rules, one for every rule inside, each
group in the order of the pushes, and a line that closes it.
-/

set_option autoImplicit false

namespace UtilityLayer.Layer

open Text

/-- The rules whose text none of those before them has. -/
def firstPushes : List Rule → List Rule
  | [] => []
  | r :: rs => r :: (firstPushes rs).filter fun q => q.text ≠ r.text

/-- The texts of some rules, those outside at-rules first. -/
def layered (rs : List Rule) : List Text :=
  ((rs.filter fun r => !r.isWrapped) ++ rs.filter Rule.isWrapped).map Rule.text

def layerLines (name : Text) (rs : List Rule) : List Text :=
  ("@layer ".toList ++ name ++ " \x7b".toList) :: (layered rs ++ ["\x7d".toList])

namespace Buffer

/-- A buffer grows by the first rule of each text that it does not hold. -/
theorem rules_pushAll (b : Buffer) (rs : List Rule) :
    (b.pushAll rs).2.rules =
      b.rules ++ ((firstPushes rs).filter fun r => r.text ∉ b.texts).map Stored.ofRule := by
  induction rs generalizing b with
  | nil => exact (List.append_nil b.rules).symm
  | cons r rs ih =>
    have later : (firstPushes rs).filter (fun q => q.text ∉ (b.push r).2.texts) =
        ((firstPushes rs).filter fun q => q.text ≠ r.text).filter fun q => q.text ∉ b.texts := by
      rw [List.filter_filter]
      apply List.filter_congr
      intro q _
      simp [mem_texts_push, eq_comm]
    rw [pushAll, ih, later, rules_push, firstPushes, List.append_assoc]
    by_cases held : r.text ∈ b.texts
    · rw [if_pos held, List.filter_cons_of_neg (by simp [held]), List.nil_append]
    · rw [if_neg held, List.filter_cons_of_pos (by simp [held])]
      rfl

theorem rules_ofPushes (rs : List Rule) :
    (empty.pushAll rs).2.rules = (firstPushes rs).map Stored.ofRule := by
  have every : (firstPushes rs).filter (fun r => r.text ∉ empty.texts) = firstPushes rs :=
    List.filter_eq_self.mpr fun r _ => by simp [texts, empty]
  rw [rules_pushAll, every]
  rfl

theorem pushAll_concat (b : Buffer) (rs : List Rule) (r : Rule) :
    (b.pushAll (rs ++ [r])).2 = ((b.pushAll rs).2.push r).2 := by
  rw [pushAll_append]
  rfl

theorem texts_ofPushes (rs : List Rule) :
    (empty.pushAll rs).2.texts = (rs.map Rule.text).eraseDups := by
  induction rs using List.reverseRecOn with
  | nil => rfl
  | append_singleton rs r ih =>
    rw [pushAll_concat, texts_push, ih, List.map_append, List.eraseDups_append, List.map_cons,
      List.map_nil]
    by_cases held : r.text ∈ rs.map Rule.text
    · have known : [r.text].removeAll (rs.map Rule.text) = [] := by
        rw [List.removeAll, List.filter_cons_of_neg (by simpa using held), List.filter_nil]
      rw [if_pos (List.mem_eraseDups.mpr held), known]
      exact (List.append_nil _).symm
    · have new : [r.text].removeAll (rs.map Rule.text) = [r.text] := by
        rw [List.removeAll, List.filter_cons_of_pos (by simpa using held), List.filter_nil]
      rw [if_neg fun h => held (List.mem_eraseDups.mp h)]
      exact congrArg (_ ++ List.eraseDups ·) new.symm

theorem mem_seen_push {b : Buffer} {r : Rule} {t : Text} :
    t ∈ (b.push r).2.seen ↔ t ∈ b.seen ∨ t = r.text := by
  rw [push]
  split
  · rename_i known
    constructor
    · exact .inl
    · rintro (seen | rfl)
      · exact seen
      · exact known
  · rw [or_comm]
    exact TextSet.mem_insert

theorem mem_seen_pushAll {b : Buffer} {rs : List Rule} {t : Text} :
    t ∈ (b.pushAll rs).2.seen ↔ t ∈ b.seen ∨ t ∈ rs.map Rule.text := by
  induction rs generalizing b with
  | nil => simp [pushAll]
  | cons r rs ih => rw [pushAll, ih, mem_seen_push, List.map_cons, List.mem_cons, or_assoc]

theorem answer_pushAll (b : Buffer) (before : List Rule) (r : Rule) (after : List Rule) :
    (b.pushAll (before ++ r :: after)).1[before.length]? =
      some ((b.pushAll before).2.push r).1 := by
  induction before generalizing b with
  | nil => rfl
  | cons q before ih =>
    rw [List.cons_append, pushAll, List.length_cons, List.getElem?_cons_succ, ih, pushAll]

theorem ordered_ofPushes (rs : List Rule) :
    (empty.pushAll rs).2.ordered = layered (firstPushes rs) := by
  rw [ordered, rules_ofPushes, layered, List.filter_map, List.filter_map, ← List.map_append,
    List.map_map]
  rfl

end Buffer

theorem layerText_eq_join (b : Buffer) (name : Text) :
    layerText b name = join ['\n'] (("@layer ".toList ++ name ++ " \x7b".toList) ::
      (b.ordered ++ ["\x7d".toList])) := by
  have opening : openLayer name = "@layer ".toList ++ name ++ " \x7b".toList ++ ['\n'] := by
    rw [List.append_assoc]
    rfl
  rw [← List.cons_append, join_concat, List.flatMap_cons, ← opening]
  rfl

theorem not_mem_layerLines {name : Text} {rs : List Rule} (named : '\n' ∉ name)
    (whole : ∀ r ∈ rs, '\n' ∉ r.text) : ∀ line ∈ layerLines name (firstPushes rs), '\n' ∉ line := by
  have opening : '\n' ∉ "@layer ".toList ++ name ++ " \x7b".toList := by
    simp only [List.mem_append, not_or]
    exact ⟨⟨by decide, named⟩, by decide⟩
  intro line hl
  rcases List.mem_cons.mp hl with rfl | hl
  · exact opening
  · rcases List.mem_append.mp hl with hl | hl
    · rw [← Buffer.ordered_ofPushes, Buffer.mem_ordered, Buffer.mem_texts_pushAll] at hl
      rcases hl with hl | ⟨r, hr, rfl⟩
      · cases hl
      · exact whole r hr
    · obtain rfl := List.mem_singleton.mp hl
      decide

/-- A push answers `false` for a text that was pushed before and no other, and
the run keeps the answer at its place. The set of a buffer holds the pushed texts,
its list the same texts in the order of their first pushes, and a layer has a line
for each of them, the rules whose first push was unwrapped first. -/
theorem layer_of_pushes (rs : List Rule) (name : Text) :
    (∀ before r after, rs = before ++ r :: after →
      (Buffer.empty.pushAll rs).1[before.length]? =
          some ((Buffer.empty.pushAll before).2.push r).1 ∧
        (((Buffer.empty.pushAll before).2.push r).1 = false ↔ ∃ q ∈ before, q.text = r.text)) ∧
    (∀ t, t ∈ (Buffer.empty.pushAll rs).2.seen ↔ t ∈ rs.map Rule.text) ∧
    (Buffer.empty.pushAll rs).2.texts = (rs.map Rule.text).eraseDups ∧
    (firstPushes rs).map Rule.text = (rs.map Rule.text).eraseDups ∧
    layerText (Buffer.empty.pushAll rs).2 name = join ['\n'] (layerLines name (firstPushes rs)) ∧
    (∀ t, (layered (firstPushes rs)).count t = if t ∈ rs.map Rule.text then 1 else 0) ∧
    ('\n' ∉ name → (∀ r ∈ rs, '\n' ∉ r.text) →
      pieces (· == '\n') (layerText (Buffer.empty.pushAll rs).2 name) =
        layerLines name (firstPushes rs)) := by
  have lines : layerText (Buffer.empty.pushAll rs).2 name =
      join ['\n'] (layerLines name (firstPushes rs)) := by
    rw [layerText_eq_join, Buffer.ordered_ofPushes, layerLines]
  have first : (firstPushes rs).map Rule.text = (Buffer.empty.pushAll rs).2.texts := by
    rw [Buffer.texts, Buffer.rules_ofPushes, List.map_map]
    rfl
  refine ⟨?_, ?_, Buffer.texts_ofPushes rs, first.trans (Buffer.texts_ofPushes rs), lines, ?_, ?_⟩
  · rintro before r after rfl
    refine ⟨Buffer.answer_pushAll .empty before r after, ?_⟩
    rw [Buffer.push_answer, Buffer.mem_texts_pushAll]
    simp [Buffer.texts, Buffer.empty]
  · intro t
    rw [Buffer.mem_seen_pushAll]
    exact or_iff_right List.not_mem_nil
  · intro t
    have distinct : (layered (firstPushes rs)).Nodup := by
      rw [← Buffer.ordered_ofPushes, (Buffer.ordered_perm _).nodup_iff]
      exact (Buffer.empty.pushAll rs).2.distinct
    have member : t ∈ layered (firstPushes rs) ↔ t ∈ rs.map Rule.text := by
      rw [← Buffer.ordered_ofPushes, Buffer.mem_ordered, Buffer.texts_ofPushes, List.mem_eraseDups]
    rw [distinct.count]
    exact if_congr member rfl rfl
  · intro named whole
    rw [lines]
    exact pieces_join_of_forall '\n' (List.cons_ne_nil _ _) (not_mem_layerLines named whole)

end UtilityLayer.Layer
