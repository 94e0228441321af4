import UtilityLayer.Proofs.Css.Concatenation

/-!
# Where the blocks of a text stand

Every block among the leaves of a tree stands in the text that the tree was read
from, at any depth: behind a part that leaves the reader outside strings, with its
head as written, which trimming brings to the title.
-/

set_option autoImplicit false

namespace UtilityLayer.Css

open Text

variable {opens : Text → Bool} {a b t h head body : Text} {sts : List Statement} {ns : List Node}

theorem mem_leavesOf {ns : List Node} {leaf : Node} :
    leaf ∈ leavesOf ns ↔ ∃ n ∈ ns, leaf ∈ n.leaves := by
  induction ns with
  | nil => simp [leavesOf]
  | cons n ns ih => simp [leavesOf, ih]

def HasBlock (t h body : Text) : Prop :=
  ∃ p q, t = p ++ (h ++ '{' :: (body ++ '}' :: q)) ∧ Scan.outside.run p = .outside ∧
    Opens h ∧ Closes body

theorem HasBlock.within (block : HasBlock t h body) (outside : Scan.outside.run a = .outside)
    (b : Text) : HasBlock (a ++ (t ++ b)) h body := by
  obtain ⟨p, q, rfl, before, opens, closes⟩ := block
  refine ⟨a ++ p, q ++ b, by simp, ?_, opens, closes⟩
  rw [Scan.run_append, outside, before]

theorem Spells.hasBlock (spelled : Spells a (.block head body)) :
    ∃ h, trim h = head ∧ HasBlock a h body := by
  cases spelled with
  | @block gap h body blank leads inner =>
    obtain ⟨signs, c, u, rfl, -⟩ := leads
    have outside := (avoids_of_calm (calm_of_blank (blank_of_gap blank))).2
    exact ⟨_, rfl, gap, [], rfl, outside, opens_iff.mpr ⟨by simp, signs⟩, closes_iff.mpr inner⟩

theorem IsSheet.hasBlock (sheet : IsSheet t sts) (member : .block head body ∈ sts) :
    ∃ h, trim h = head ∧ HasBlock t h body := by
  obtain ⟨run, rest, rfl, spelled, -⟩ := sheet
  have found : ∃ h, trim h = head ∧ HasBlock run h body := by
    induction spelled with
    | nil => cases member
    | @cons a u st sts first others ih =>
      rcases List.mem_cons.mp member with rfl | later
      · obtain ⟨h, title, block⟩ := first.hasBlock
        exact ⟨h, title, block.within (a := []) rfl u⟩
      · obtain ⟨h, title, block⟩ := ih later
        have placed := block.within first.closes.outside []
        rw [List.append_nil] at placed
        exact ⟨h, title, placed⟩
  obtain ⟨h, title, block⟩ := found
  exact ⟨h, title, block.within (a := []) rfl rest⟩

theorem HasBlock.trans {outer : Text} (block : HasBlock t outer a) (inner : HasBlock a h body) :
    HasBlock t h body := by
  obtain ⟨p, q, rfl, before, opens, -⟩ := block
  have outside : Scan.outside.run (p ++ (outer ++ ['{'])) = .outside := by
    rw [Scan.run_append, before, Scan.run_append, opens.outside]
    rfl
  have placed := inner.within outside ('}' :: q)
  simpa using placed

theorem hasBlock_of_leaf (read : readTree opens t = .ok ns) (leaf : .block head body ∈ leavesOf ns) :
    ∃ h, trim h = head ∧ HasBlock t h body := by
  induction hn : t.length using Nat.strongRecOn generalizing t ns with
  | ind n ih =>
    obtain ⟨sts, sheet, rfl⟩ := readTree_eq_ok_iff.mp read
    obtain ⟨node, member, found⟩ := mem_leavesOf.mp leaf
    obtain ⟨st, written, rfl⟩ := List.mem_map.mp member
    cases st with
    | bare text =>
      have plain := List.mem_singleton.mp found
      cases plain
    | block title inner =>
      obtain ⟨h, same, outer⟩ := sheet.hasBlock written
      have shorter := readSheet_body_length (readSheet_eq_ok_iff_isSheet.mpr sheet) written
      rw [nodeOf] at found
      split at found
      · cases hr : readTree opens inner with
        | error e =>
          rw [hr] at found
          cases List.mem_singleton.mp found
        | ok ns =>
          rw [hr] at found
          obtain ⟨h', same', deeper⟩ := ih inner.length (by omega) hr found rfl
          exact ⟨h', same', outer.trans deeper⟩
      · obtain ⟨rfl, rfl⟩ := Node.block.inj (List.mem_singleton.mp found)
        exact ⟨_, same, outer⟩

end UtilityLayer.Css
