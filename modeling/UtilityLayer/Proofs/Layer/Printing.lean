import Mathlib.Data.List.Forall2
import UtilityLayer.Proofs.Css.Strings
import UtilityLayer.Proofs.Layer.ReadBack

/-!
# Printing a tree and reading it back

The titles of a tree are trimmed, and printing puts a space behind those of
blocks only. A part printed for a node is read as that node exactly when its
bare statements still end where their semicolons stand and none of its blocks
has an empty title. Reading goes wrong at the first part that does not stand, and
parts behind it cannot make up for it.
-/

set_option autoImplicit false

namespace UtilityLayer

open Text Css

namespace Css

variable {t head : Text}

structure Title (t : Text) : Prop where
  trimmed : trim t = t
  avoids : avoids endsHead .outside t = true
  unquoted : (Scan.outside.run t).quote = none

theorem title_trim (h : Opens head) : Title (trim head) := by
  obtain ⟨a, z, whole, ha, hz⟩ := exists_trim head
  obtain ⟨avoided, outside⟩ := avoids_of_calm (calm_of_blank ha)
  have parts := h.avoids
  rw [whole, avoids_append, avoids_append, outside, Bool.and_eq_true, Bool.and_eq_true] at parts
  have ends := h.outside
  rw [whole, Scan.run_append, Scan.run_append, outside] at ends
  have quotes : ∀ q, (Scan.outside.run (trim head)).quote = some q → isQuote q = true :=
    isQuote_of_run (by simp [Scan.outside]) _
  refine ⟨trim_trim head, parts.1.2, ?_⟩
  rw [← quote_run_blank quotes hz, ends]
  rfl

namespace Title

theorem opens_space (h : Title t) : Opens (t ++ [' ']) := by
  refine ⟨by simp, ?_, run_concat h.unquoted (by decide) rfl⟩
  rw [avoids_append, h.avoids]
  simp [Css.avoids, endsHead]

theorem closes_semicolon (h : Title t) : Closes (t ++ [';']) := by
  refine ⟨?_, run_concat h.unquoted (by decide) rfl⟩
  rw [nesting_append, nesting_of_avoids h.avoids]
  simp [nesting]

end Title

end Css

namespace Layer

variable {covered : TextSet} {part text head body : Text} {n : Node} {parts : List Text}
  {inner ns : List Node}

theorem tidy_of_title (h : Title head) (nonempty : head ≠ []) : Tidy head :=
  ⟨nonempty, (trim_concat h.trimmed (by decide)).symm, h.opens_space⟩

theorem closes_printBlock (h : Title head) (closed : Closes body) :
    Closes (printBlock head body) := by
  have whole := printBlock_eq head body []
  rw [List.append_nil] at whole
  rw [whole]
  exact closes_block h.opens_space closed

/-- A leaf that is written as it is read. -/
def Stands : Node → Prop
  | .bare text => Opens text
  | .block head _ => head ≠ []
  | .group _ _ => True
  | .broken _ _ => True

instance : DecidablePred Stands
  | .bare text => inferInstanceAs (Decidable (Opens text))
  | .block head _ => inferInstanceAs (Decidable (head ≠ []))
  | .group _ _ => .isTrue trivial
  | .broken _ _ => .isTrue trivial

/-- What is printed for a node. Whatever stands behind it, it is read as that node
only if all leaves stand. -/
structure Prints (part : Text) (n : Node) : Prop where
  closes : Closes part
  spells : (∀ leaf ∈ n.leaves, Stands leaf) → ∃ st, Spells part st ∧ nodeOf isGrouping st = n
  aligned : ∀ rest st r, readItem (skipGap (part ++ rest)) = .read st r →
    nodeOf isGrouping st = n → (∀ leaf ∈ n.leaves, Stands leaf) ∧ r = rest

theorem opens_of_aligned (h : Title text) {rest r : Text}
    (read : readItem (skipGap (text ++ ';' :: rest)) = .read (.bare text) r) : Opens text := by
  obtain ⟨head, opens, title, same⟩ := readItem_eq_bare_iff.mp read
  obtain ⟨a, z, whole, ha, hz⟩ := exists_trim head
  rw [← title] at whole
  cases text with
  | nil =>
    have blank := trim_eq_nil_iff.mp title.symm
    obtain ⟨c, u, rfl⟩ := List.exists_cons_of_ne_nil opens.nonempty
    obtain ⟨rfl, -⟩ := List.cons.inj same
    exact absurd (List.all_eq_true.mp blank ';' (by simp)) (by decide)
  | cons c u =>
    have first := isBlank_of_trim title.symm
    rw [List.cons_append, skipGap_cons first, whole] at same
    obtain rfl : a = [] := by
      rw [List.append_assoc a, List.append_assoc a] at same
      exact eq_nil_of_blank_append ha first same.symm
    rw [List.nil_append, ← List.cons_append, List.append_assoc] at same
    have tail := List.append_cancel_left same
    cases z with
    | nil =>
      rw [List.nil_append, List.append_nil] at whole
      rwa [whole] at opens
    | cons d z =>
      obtain ⟨rfl, -⟩ := List.cons.inj tail
      exact absurd (List.all_eq_true.mp hz ';' (by simp)) (by decide)

theorem spells_bare (h : Title text) (opens : Opens text) : Spells (text ++ [';']) (.bare text) := by
  obtain ⟨c, u, hu⟩ := List.exists_cons_of_ne_nil opens.nonempty
  have first : isGap c = false := by
    rw [Bool.eq_false_iff]
    intro gap
    have plain := isBlank_of_trim (h.trimmed.trans hu)
    rw [isBlank_of_isGap gap] at plain
    cases plain
  have leads : Leads text := ⟨(opens_iff.mp opens).2, c, u, hu, first⟩
  have spelled : Spells ([] ++ (text ++ [';'])) (.bare (trim text)) := .bare rfl leads
  rwa [h.trimmed] at spelled

theorem prints_bare (h : Title text) : Prints (text ++ [';']) (.bare text) where
  closes := h.closes_semicolon
  spells := by
    intro stands
    have opens : Opens text := stands (.bare text) (by simp [Node.leaves])
    exact ⟨.bare text, spells_bare h opens, rfl⟩
  aligned := by
    intro rest st r read same
    obtain rfl : st = .bare text := by
      cases st with
      | bare u => exact congrArg Statement.bare (Node.bare.inj same)
      | block head body =>
        rw [nodeOf] at same
        split at same
        · split at same <;> cases same
        · cases same
    have joined : text ++ [';'] ++ rest = text ++ ';' :: rest := by simp
    rw [joined] at read
    have opens := opens_of_aligned h read
    have again := readItem_eq_read_iff.mpr ⟨_, joined.symm, spells_bare h opens⟩
    obtain ⟨-, rfl⟩ := Item.read.inj (read.symm.trans again)
    refine ⟨?_, rfl⟩
    intro leaf hl
    obtain rfl := List.mem_singleton.mp hl
    exact opens

theorem spells_block (tidy : Tidy head) (closed : Closes body) :
    Spells (printBlock head body) (.block head body) := by
  obtain ⟨a, whole, spelled⟩ := readItem_eq_read_iff.mp (tidy.readItem closed [])
  rw [List.append_nil, List.append_nil] at whole
  rwa [whole]

theorem prints_block (h : Title head) (closed : Closes body) (plain : isGrouping head = false) :
    Prints (printBlock head body) (.block head body) where
  closes := closes_printBlock h closed
  spells := by
    intro stands
    have nonempty : head ≠ [] := stands (.block head body) (by simp [Node.leaves])
    refine ⟨.block head body, spells_block (tidy_of_title h nonempty) closed, ?_⟩
    rw [nodeOf, plain]
    rfl
  aligned := by
    intro rest st r read _
    cases head with
    | nil =>
      have absent : readItem (skipGap (printBlock [] body ++ rest)) = .absent := rfl
      rw [absent] at read
      cases read
    | cons c u =>
      have again := (tidy_of_title h (by simp)).readItem closed rest
      obtain ⟨-, rfl⟩ := Item.read.inj (read.symm.trans again)
      refine ⟨?_, rfl⟩
      intro leaf hl
      obtain rfl := List.mem_singleton.mp hl
      exact List.cons_ne_nil c u

theorem exists_lines_cons (part : Text) (parts : List Text) :
    ∃ gap : Text, gap.all isGap = true ∧ lines (part :: parts) = part ++ (gap ++ lines parts) := by
  cases parts with
  | nil => exact ⟨[], rfl, by simp [lines, join]⟩
  | cons q parts => exact ⟨['\n'], rfl, by simp [lines, join, List.intercalate_cons_cons]⟩

theorem closes_lines (h : List.Forall₂ Prints parts ns) : Closes (lines parts) := by
  induction h with
  | nil => exact .nil
  | @cons part n parts ns first others ih =>
    obtain ⟨gap, hg, whole⟩ := exists_lines_cons part parts
    rw [whole]
    exact first.closes.append ((closes_of_calm (calm_of_blank (blank_of_gap hg))).append ih)

/-- Printed parts, one in each line, are read as their nodes exactly when all leaves
stand. -/
theorem readTree_lines (h : List.Forall₂ Prints parts ns) {gap z : Text}
    (hg : gap.all isGap = true) (hz : isBlankText z = true) :
    readTree isGrouping (gap ++ lines parts ++ z) = .ok ns ↔
      ∀ leaf ∈ leavesOf ns, Stands leaf := by
  rw [readTree_eq_ok_iff]
  induction h generalizing gap with
  | nil =>
    refine iff_of_true ⟨[], isSheet_nil_iff.mpr ?_, rfl⟩ (by simp [leavesOf])
    have none : lines [] = [] := rfl
    rw [none, List.append_nil, isBlankText, List.all_append, Bool.and_eq_true]
    exact ⟨blank_of_gap hg, hz⟩
  | @cons part n parts ns first others ih =>
    obtain ⟨between, hb, whole⟩ := exists_lines_cons part parts
    have text : gap ++ lines (part :: parts) ++ z =
        gap ++ (part ++ (between ++ lines parts ++ z)) := by
      rw [whole]
      simp only [List.append_assoc]
    have all : (∀ leaf ∈ leavesOf (n :: ns), Stands leaf) ↔
        (∀ leaf ∈ n.leaves, Stands leaf) ∧ ∀ leaf ∈ leavesOf ns, Stands leaf := by
      rw [leavesOf]
      exact List.forall_mem_append
    rw [text, all]
    constructor
    · rintro ⟨sts, sheet, same⟩
      cases sts with
      | nil => cases same
      | cons st sts =>
        obtain ⟨own, rest⟩ := List.cons.inj same
        obtain ⟨r, read, remaining⟩ := isSheet_cons_iff.mp sheet
        rw [skipGap_append hg] at read
        obtain ⟨stands, rfl⟩ := first.aligned _ st r read own.symm
        exact ⟨stands, (ih hb).mp ⟨sts, remaining, rest⟩⟩
    · rintro ⟨stands, later⟩
      obtain ⟨sts, sheet, rfl⟩ := (ih hb).mpr later
      obtain ⟨st, spelled, rfl⟩ := first.spells stands
      refine ⟨st :: sts, ?_, rfl⟩
      have led := sheet.cons (spelled.prepend (blank_of_gap hg))
      rwa [List.append_assoc] at led

theorem prints_group (h : Title head) (grouping : isGrouping head = true)
    (printed : List.Forall₂ Prints parts inner) :
    Prints (printBlock head (' ' :: lines parts ++ [' '])) (.group head inner) := by
  have nonempty : head ≠ [] := by
    rintro rfl
    cases grouping
  have tidy := tidy_of_title h nonempty
  have closed : Closes (' ' :: lines parts ++ [' ']) :=
    Closes.append (Closes.append (a := [' ']) ⟨rfl, rfl⟩ (closes_lines printed)) ⟨rfl, rfl⟩
  have back : readTree isGrouping (' ' :: lines parts ++ [' ']) = .ok inner ↔
      ∀ leaf ∈ leavesOf inner, Stands leaf :=
    readTree_lines printed (show [' '].all isGap = true from rfl)
      (show isBlankText [' '] = true from rfl)
  refine ⟨closes_printBlock h closed, ?_, ?_⟩
  · intro stands
    refine ⟨.block head (' ' :: lines parts ++ [' ']), spells_block tidy closed, ?_⟩
    rw [nodeOf, if_pos grouping, back.mpr stands]
  · intro rest st r read same
    obtain ⟨rfl, rfl⟩ := Item.read.inj (read.symm.trans (tidy.readItem closed rest))
    refine ⟨?_, rfl⟩
    rw [nodeOf, if_pos grouping] at same
    split at same
    · cases same
    · rename_i found
      obtain ⟨-, rfl⟩ := Node.group.inj same
      exact back.mp found

end Layer

end UtilityLayer
