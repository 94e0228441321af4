import UtilityLayer.Proofs.Selector.Pieces
import UtilityLayer.Utility.Authored

/-!
# Where hand-authored utilities come from

A utility of a theme names a class, and one with a selector of its own has its
class among those that the selector styles.
-/

set_option autoImplicit false

namespace UtilityLayer.Utility

open Text Css Selector

theorem exists_of_toOption {ε α β : Type} {result : Except ε α} {view : α → β} {b : β}
    (h : result.toOption.map view = some b) : ∃ a, result = .ok a ∧ view a = b := by
  cases result with
  | error e => cases h
  | ok a => exact ⟨a, rfl, Option.some.inj h⟩

/-- The utilities that a theme writes, in order and with repetitions. -/
def writtenUtilities (theme : Text) : List Utility := (authored theme).filterMap Authored.utility?

structure Defined (u : Utility) : Prop where
  named : u.className ≠ []
  styled : ∀ context, u.context = some context →
    ∃ x xs, parseList context.selector = some (x :: xs) ∧ u.className ∈ x.subjects.classes

theorem defined_of_selector {selector body : Text} {u : Utility}
    (h : .utility u ∈ authoredBySelector selector body) : Defined u := by
  rw [authoredBySelector.eq_def] at h
  split at h
  · rw [List.mem_singleton] at h
    cases h
  · cases h
  · rename_i x xs hp
    obtain ⟨c, hc, hu⟩ := List.mem_map.mp h
    obtain rfl := Authored.utility.inj hu
    have found : c ∈ namesOfBranches (x :: xs) :=
      List.mem_append_left _ (Complex.subjects_subset hc)
    have carries := parseList_carries hp
    have nonempty := carries.nonempty c (carries.named c found)
    rw [authoredUtility]
    split
    · refine ⟨nonempty, ?_⟩
      intro context hn
      cases hn
    · refine ⟨nonempty, ?_⟩
      intro context hs
      obtain rfl := Option.some.inj hs
      exact ⟨x, xs, hp, hc⟩

theorem defined_of_rule {head body : Text} {u : Utility}
    (h : .utility u ∈ authoredByRule head body) : Defined u := by
  rw [authoredByRule] at h
  split at h
  · cases h
  · obtain ⟨branch, -, hb⟩ := List.mem_flatMap.mp h
    exact defined_of_selector hb

theorem defined_of_block {head body : Text} {u : Utility}
    (h : .utility u ∈ authoredByBlock head body) : Defined u := by
  rw [authoredByBlock] at h
  split at h
  · split at h
    · cases h
    · rename_i nonempty
      obtain rfl := Authored.utility.inj (List.mem_singleton.mp h)
      refine ⟨nonempty, ?_⟩
      intro context hn
      cases hn
  · split at h
    · cases h
    · exact defined_of_rule h

theorem mem_flatMap_authoredByNode {leaves : List Node} {u : Utility} :
    .utility u ∈ leaves.flatMap authoredByNode ↔
      ∃ head body, .block head body ∈ leaves ∧ .utility u ∈ authoredByBlock head body := by
  rw [List.mem_flatMap]
  constructor
  · rintro ⟨node, leaf, written⟩
    cases node with
    | block head body => exact ⟨head, body, leaf, written⟩
    | bare text => cases written
    | group head inner => cases written
    | broken head error => cases written
  · rintro ⟨head, body, leaf, written⟩
    exact ⟨.block head body, leaf, written⟩

theorem mem_filterMap_utility {as : List Authored} {u : Utility} :
    u ∈ as.filterMap Authored.utility? ↔ .utility u ∈ as := by
  rw [List.mem_filterMap]
  constructor
  · rintro ⟨a, ha, hu⟩
    cases a with
    | unsupported s => cases hu
    | utility v => exact Option.some.inj hu ▸ ha
  · exact fun h => ⟨_, h, rfl⟩

theorem exists_block_of_written {theme : Text} {u : Utility} (h : u ∈ writtenUtilities theme) :
    ∃ head body, .utility u ∈ authoredByBlock head body := by
  rw [writtenUtilities, mem_filterMap_utility, authored.eq_def] at h
  split at h
  · cases h
  · obtain ⟨head, body, -, written⟩ := mem_flatMap_authoredByNode.mp h
    exact ⟨head, body, written⟩

theorem defined_of_written {theme : Text} {u : Utility} (h : u ∈ writtenUtilities theme) :
    Defined u := by
  obtain ⟨head, body, hb⟩ := exists_block_of_written h
  exact defined_of_block hb

namespace Collection

theorem mem_foldl_insert {us : List Utility} {c : Collection} {u : Utility} :
    u ∈ (us.foldl insert c).utilities ↔ u ∈ c.utilities ∨ u ∈ us := by
  induction us generalizing c with
  | nil => simp
  | cons v us ih => rw [List.foldl_cons, ih, mem_insert, List.mem_cons, or_assoc]

theorem mem_ofList {us : List Utility} {u : Utility} :
    u ∈ (ofList us).utilities ↔ u ∈ us := by
  rw [ofList, mem_foldl_insert]
  simp [empty]

theorem eq_of_ofSheet {theme : Text} {c : Collection} (h : ofSheet theme = .ok c) :
    c = ofList (writtenUtilities theme) := by
  rw [ofSheet.eq_def] at h
  split at h
  · cases h
  · split at h
    · cases h
    · exact (Except.ok.inj h).symm

theorem defined_of_ofSheet {theme : Text} {c : Collection} (h : ofSheet theme = .ok c)
    {u : Utility} (hu : u ∈ c.utilities) : Defined u := by
  rw [eq_of_ofSheet h, mem_ofList] at hu
  exact defined_of_written hu

end Collection

end UtilityLayer.Utility
