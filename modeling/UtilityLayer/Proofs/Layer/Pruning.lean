import UtilityLayer.Layer.Events
import UtilityLayer.Proofs.Css.Comment
import UtilityLayer.Proofs.Css.Blocks
import UtilityLayer.Proofs.Layer.Printing
import UtilityLayer.Proofs.Utility.Authored

/-!
# Pruning a critical stylesheet

A pruned stylesheet reads as the tree of the critical one without its covered
rules and without the groups that they leave empty, provided that it has no
comment in it and that all remaining statements stand; pruning it again then
changes nothing. A text that cannot be read at every level stays as it is.
-/

set_option autoImplicit false

namespace UtilityLayer

open Text Css

namespace Css

/-- The text is a stylesheet, and so are the bodies of the blocks that are opened,
at every level. -/
inductive Readable (opens : Text → Bool) : Text → Prop
  | intro {t : Text} {sts : List Statement} (sheet : IsSheet t sts)
      (inner : ∀ head body, .block head body ∈ sts → opens head = true → Readable opens body) :
      Readable opens t

theorem firstError_eq_none_iff {leaves : List Node} :
    firstError leaves = none ↔ ∀ leaf ∈ leaves, leaf.error? = none := by
  rw [firstError, List.findSome?_eq_none_iff]

theorem readable_of_readTree {opens : Text → Bool} {t : Text} {ns : List Node}
    (h : readTree opens t = .ok ns) (unbroken : firstError (leavesOf ns) = none) :
    Readable opens t := by
  rw [firstError_eq_none_iff] at unbroken
  induction hn : t.length using Nat.strongRecOn generalizing t ns with
  | ind n ih =>
    obtain ⟨sts, sheet, rfl⟩ := readTree_eq_ok_iff.mp h
    refine .intro sheet ?_
    intro head body member opened
    have shorter := readSheet_body_length (readSheet_eq_ok_iff_isSheet.mpr sheet) member
    have found : ∀ leaf ∈ (nodeOf opens (.block head body)).leaves, leaf.error? = none := by
      intro leaf hl
      exact unbroken leaf (mem_leavesOf.mpr ⟨_, List.mem_map_of_mem member, hl⟩)
    rw [nodeOf, if_pos opened] at found
    cases hr : readTree opens body with
    | error e =>
      rw [hr] at found
      cases found _ List.mem_cons_self
    | ok inner =>
      rw [hr] at found
      exact ih body.length (by omega) hr found rfl

/-- What holds of a text holds of its beginnings, and of what follows a beginning
that leaves the reader outside. -/
structure Inherited (keeps : Text → Prop) : Prop where
  left : ∀ a b, keeps (a ++ b) → keeps a
  right : ∀ a b, Scan.outside.run a = .outside → keeps (a ++ b) → keeps b

end Css

namespace Layer

variable {covered : TextSet}

mutual

def Sound (keeps : Text → Prop) : Node → Prop
  | .bare text => Title text ∧ keeps text
  | .block head body =>
    Title head ∧ keeps head ∧ isGrouping head = false ∧ Closes body ∧ keeps body
  | .group head inner => Title head ∧ keeps head ∧ isGrouping head = true ∧ SoundAll keeps inner
  | .broken _ _ => False

def SoundAll (keeps : Text → Prop) : List Node → Prop
  | [] => True
  | n :: ns => Sound keeps n ∧ SoundAll keeps ns

end

mutual

def remainingOf (covered : TextSet) : Node → List Node
  | .bare text => [.bare text]
  | .block head body => if isCovered covered head then [] else [.block head body]
  | .group head inner =>
    match remaining covered inner with
    | [] => []
    | n :: ns => [.group head (n :: ns)]
  | .broken _ _ => []

/-- The tree without its covered rules and without groups left empty. -/
def remaining (covered : TextSet) : List Node → List Node
  | [] => []
  | n :: ns => remainingOf covered n ++ remaining covered ns

end

section Reading

variable {keeps : Text → Prop} {t : Text} {ns : List Node}

theorem keeps_trim (inherited : Inherited keeps) {head : Text} (h : keeps head) :
    keeps (trim head) := by
  obtain ⟨a, z, whole, ha, -⟩ := exists_trim head
  rw [whole, List.append_assoc] at h
  exact inherited.left _ _ (inherited.right _ _ (avoids_of_calm (calm_of_blank ha)).2 h)

theorem sound_of_spells (inherited : Inherited keeps) {a : Text} {st : Statement}
    (spelled : Spells a st) (h : keeps a)
    (inner : ∀ head body, st = .block head body → isGrouping head = true → keeps body →
      ∃ ns, readTree isGrouping body = .ok ns ∧ SoundAll keeps ns) :
    Sound keeps (nodeOf isGrouping st) := by
  have skip {gap rest : Text} (blank : gap.all isGap = true) (h : keeps (gap ++ rest)) :
      keeps rest :=
    inherited.right _ _ (avoids_of_calm (calm_of_blank (blank_of_gap blank))).2 h
  have opens {head : Text} (leads : Leads head) : Opens head := by
    obtain ⟨signs, c, u, rfl, -⟩ := leads
    exact opens_iff.mpr ⟨by simp, signs⟩
  cases spelled with
  | @bare gap head blank leads =>
    exact ⟨title_trim (opens leads), keeps_trim inherited (inherited.left _ _ (skip blank h))⟩
  | @block gap head body blank leads signs =>
    have rest := skip blank h
    have title := title_trim (opens leads)
    have headKept := keeps_trim inherited (inherited.left _ _ rest)
    have bodyKept : keeps body := by
      have braced : head ++ '{' :: (body ++ ['}']) = (head ++ ['{']) ++ (body ++ ['}']) := by simp
      rw [braced] at rest
      have outside : Scan.outside.run (head ++ ['{']) = .outside := by
        rw [Scan.run_append, (opens leads).outside]
        rfl
      exact inherited.left _ _ (inherited.right _ _ outside rest)
    rw [nodeOf]
    split
    · rename_i grouping
      obtain ⟨ns, read, sound⟩ := inner _ _ rfl grouping bodyKept
      rw [read]
      exact ⟨title, headKept, grouping, sound⟩
    · rename_i plain
      exact ⟨title, headKept, Bool.eq_false_iff.mpr plain, closes_iff.mpr signs, bodyKept⟩

/-- A readable text has a sound tree. -/
theorem exists_sound (inherited : Inherited keeps) (readable : Readable isGrouping t)
    (h : keeps t) : ∃ ns, readTree isGrouping t = .ok ns ∧ SoundAll keeps ns := by
  induction readable with
  | @intro t sts sheet inner ih =>
    refine ⟨sts.map (nodeOf isGrouping), readTree_eq_ok_iff.mpr ⟨sts, sheet, rfl⟩, ?_⟩
    obtain ⟨run, rest, rfl, spelled, -⟩ := sheet
    have kept := inherited.left _ _ h
    clear h
    induction spelled with
    | nil => trivial
    | @cons a u st sts first others next =>
      refine ⟨sound_of_spells inherited first (inherited.left _ _ kept) ?_, next ?_ ?_ ?_⟩
      · rintro head body rfl grouping bodyKept
        exact ih head body List.mem_cons_self grouping bodyKept
      · exact fun head body member => inner head body (List.mem_cons_of_mem _ member)
      · exact fun head body member => ih head body (List.mem_cons_of_mem _ member)
      · exact inherited.right _ _ first.closes.outside kept

end Reading

mutual

theorem error?_of_sound {keeps : Text → Prop} :
    ∀ n, Sound keeps n → ∀ leaf ∈ n.leaves, leaf.error? = none
  | .bare _, _, _, hl => by
    obtain rfl := List.mem_singleton.mp hl
    rfl
  | .block _ _, _, _, hl => by
    obtain rfl := List.mem_singleton.mp hl
    rfl
  | .group _ inner, sound, leaf, hl => error?_of_soundAll inner sound.2.2.2 leaf hl
  | .broken _ _, sound, _, _ => sound.elim

theorem error?_of_soundAll {keeps : Text → Prop} :
    ∀ ns, SoundAll keeps ns → ∀ leaf ∈ leavesOf ns, leaf.error? = none
  | [], _, _, hl => by cases hl
  | n :: ns, sound, leaf, hl => by
    rcases List.mem_append.mp hl with hl | hl
    · exact error?_of_sound n sound.1 leaf hl
    · exact error?_of_soundAll ns sound.2 leaf hl

end

theorem printBlock_ne_nil (head body : Text) : printBlock head body ≠ [] := by simp [printBlock]

theorem ne_nil_of_mem_keptOf {part : Text} {n : Node} (h : part ∈ keptOf covered n) :
    part ≠ [] := by
  cases n with
  | bare text =>
    obtain rfl := List.mem_singleton.mp h
    simp
  | block head body =>
    rw [keptOf] at h
    split at h
    · cases h
    · obtain rfl := List.mem_singleton.mp h
      exact printBlock_ne_nil _ _
  | group head inner =>
    rw [keptOf] at h
    split at h
    · cases h
    · obtain rfl := List.mem_singleton.mp h
      exact printBlock_ne_nil _ _
  | broken head e => cases h

theorem lines_eq_nil_iff (covered : TextSet) (ns : List Node) :
    lines (keptOfAll covered ns) = [] ↔ keptOfAll covered ns = [] := by
  have nonempty : ∀ part ∈ keptOfAll covered ns, part ≠ [] := by
    induction ns with
    | nil => simp [keptOfAll]
    | cons n ns ih =>
      intro part hp
      rcases List.mem_append.mp hp with hp | hp
      · exact ne_nil_of_mem_keptOf hp
      · exact ih part hp
  cases hk : keptOfAll covered ns with
  | nil => exact iff_of_true rfl rfl
  | cons part parts =>
    rw [hk] at nonempty
    obtain ⟨gap, -, whole⟩ := exists_lines_cons part parts
    rw [whole]
    simp [nonempty part]

mutual

theorem keptOf_eq_nil_iff : ∀ n, keptOf covered n = [] ↔ remainingOf covered n = []
  | .bare _ => by simp [keptOf, remainingOf]
  | .block head _ => by
    rw [keptOf, remainingOf]
    split <;> simp
  | .group head inner => by
    have same := (lines_eq_nil_iff covered inner).trans (keptOfAll_eq_nil_iff inner)
    rw [keptOf, remainingOf]
    split
    · rename_i empty
      rw [same.mp empty]
      exact iff_of_true rfl rfl
    · rename_i kept
      rw [same] at kept
      split
      · rename_i empty
        exact absurd empty kept
      · simp
  | .broken _ _ => by simp [keptOf, remainingOf]

theorem keptOfAll_eq_nil_iff : ∀ ns, keptOfAll covered ns = [] ↔ remaining covered ns = []
  | [] => by simp [keptOfAll, remaining]
  | n :: ns => by
    rw [keptOfAll, remaining, List.append_eq_nil_iff, List.append_eq_nil_iff, keptOf_eq_nil_iff n,
      keptOfAll_eq_nil_iff ns]

end

theorem group_cases (covered : TextSet) (head : Text) (inner : List Node) :
    (remaining covered inner = [] ∧ keptOf covered (.group head inner) = [] ∧
        remainingOf covered (.group head inner) = []) ∨
      (keptOf covered (.group head inner) =
          [printBlock head (' ' :: lines (keptOfAll covered inner) ++ [' '])] ∧
        remainingOf covered (.group head inner) = [.group head (remaining covered inner)]) := by
  have same := (lines_eq_nil_iff covered inner).trans (keptOfAll_eq_nil_iff inner)
  rw [keptOf, remainingOf]
  split
  · rename_i empty
    have none := same.mp empty
    exact .inl ⟨none, rfl, by rw [none]⟩
  · rename_i kept
    rw [same] at kept
    obtain ⟨n, ns, hr⟩ := List.exists_cons_of_ne_nil kept
    exact .inr ⟨rfl, by rw [hr]⟩

mutual

theorem prints_keptOf (covered : TextSet) {keeps : Text → Prop} :
    ∀ n, Sound keeps n → List.Forall₂ Prints (keptOf covered n) (remainingOf covered n)
  | .bare _, sound => .cons (prints_bare sound.1) .nil
  | .block head _, ⟨title, _, plain, closed, _⟩ => by
    rw [keptOf, remainingOf]
    split
    · exact .nil
    · exact .cons (prints_block title closed plain) .nil
  | .group head inner, ⟨title, _, grouping, sound⟩ => by
    rcases group_cases covered head inner with ⟨-, hk, hr⟩ | ⟨hk, hr⟩
    · rw [hk, hr]
      exact .nil
    · rw [hk, hr]
      exact .cons (prints_group title grouping (prints_keptOfAll covered inner sound)) .nil
  | .broken _ _, sound => sound.elim

theorem prints_keptOfAll (covered : TextSet) {keeps : Text → Prop} :
    ∀ ns, SoundAll keeps ns → List.Forall₂ Prints (keptOfAll covered ns) (remaining covered ns)
  | [], _ => .nil
  | n :: ns, sound =>
    List.rel_append (prints_keptOf covered n sound.1) (prints_keptOfAll covered ns sound.2)

end

theorem keptOfAll_append (ns ms : List Node) :
    keptOfAll covered (ns ++ ms) = keptOfAll covered ns ++ keptOfAll covered ms := by
  induction ns with
  | nil => rfl
  | cons n ns ih => rw [List.cons_append, keptOfAll, keptOfAll, ih, List.append_assoc]

mutual

theorem keptOfAll_remainingOf :
    ∀ n, keptOfAll covered (remainingOf covered n) = keptOf covered n
  | .bare _ => rfl
  | .block head body => by
    by_cases hc : isCovered covered head = true
    · simp [keptOf, remainingOf, keptOfAll, hc]
    · simp [keptOf, remainingOf, keptOfAll, hc]
  | .group head inner => by
    rcases group_cases covered head inner with ⟨-, hk, hr⟩ | ⟨-, hr⟩
    · rw [hk, hr]
      rfl
    · rw [hr, keptOfAll, keptOfAll, List.append_nil, keptOf, keptOf, keptOfAll_remaining inner]
  | .broken _ _ => rfl

theorem keptOfAll_remaining :
    ∀ ns, keptOfAll covered (remaining covered ns) = keptOfAll covered ns
  | [] => rfl
  | n :: ns => by
    rw [remaining, keptOfAll_append, keptOfAll_remainingOf n, keptOfAll_remaining ns, keptOfAll]

end

mutual

theorem leavesOf_remainingOf (covered : TextSet) {keeps : Text → Prop} : ∀ n, Sound keeps n →
    leavesOf (remainingOf covered n) =
      n.leaves.filter fun leaf => (droppedHead? covered leaf).isNone
  | .bare _, _ => rfl
  | .block head body, _ => by
    by_cases hc : isCovered covered head = true
    · simp [remainingOf, leavesOf, Node.leaves, droppedHead?, hc]
    · simp [remainingOf, leavesOf, Node.leaves, droppedHead?, hc]
  | .group head inner, sound => by
    have below := leavesOf_remaining covered inner sound.2.2.2
    rw [Node.leaves, ← below]
    rcases group_cases covered head inner with ⟨none, -, hr⟩ | ⟨-, hr⟩
    · rw [hr, none]
    · rw [hr]
      exact List.append_nil _
  | .broken _ _, sound => sound.elim

theorem leavesOf_remaining (covered : TextSet) {keeps : Text → Prop} : ∀ ns, SoundAll keeps ns →
    leavesOf (remaining covered ns) =
      (leavesOf ns).filter fun leaf => (droppedHead? covered leaf).isNone
  | [], _ => rfl
  | n :: ns, sound => by
    rw [remaining, leavesOf_append, leavesOf_remainingOf covered n sound.1,
      leavesOf_remaining covered ns sound.2, leavesOf, List.filter_append]

end

section Slashes

theorem count_gap {gap : Text} (h : gap.all isGap = true) : gap.count '/' = 0 := by
  rw [List.count_eq_zero]
  intro slash
  exact absurd (List.all_eq_true.mp h '/' slash) (by decide)

theorem count_trim_le (t : Text) : (trim t).count '/' ≤ t.count '/' := by
  obtain ⟨a, z, whole, -, -⟩ := exists_trim t
  have parts := congrArg (List.count '/') whole
  rw [List.count_append, List.count_append] at parts
  omega

theorem count_printBlock (head body : Text) :
    (printBlock head body).count '/' = head.count '/' + body.count '/' := by
  have open' : List.count '/' " \x7b".toList = 0 := by decide
  have close : List.count '/' "\x7d".toList = 0 := by decide
  rw [printBlock, List.count_append, List.count_append, List.count_append, open', close]
  omega

theorem count_lines (parts : List Text) :
    (lines parts).count '/' = parts.flatten.count '/' := by
  induction parts with
  | nil => rfl
  | cons part parts ih =>
    obtain ⟨gap, hg, whole⟩ := exists_lines_cons part parts
    rw [whole, List.count_append, List.count_append, count_gap hg, ih, List.flatten_cons,
      List.count_append]
    omega

theorem count_keptOf_le {a : Text} {st : Statement} (spelled : Spells a st)
    (inner : ∀ head body ns, st = .block head body → readTree isGrouping body = .ok ns →
      (keptOfAll covered ns).flatten.count '/' ≤ body.count '/') :
    (keptOf covered (nodeOf isGrouping st)).flatten.count '/' ≤ a.count '/' := by
  cases spelled with
  | @bare gap head blank leads =>
    have title := count_trim_le head
    simp only [nodeOf, keptOf, List.flatten_cons, List.flatten_nil, List.append_nil,
      List.count_append]
    omega
  | @block gap head body blank leads signs =>
    have title := count_trim_le head
    have whole : (gap ++ (head ++ '{' :: (body ++ ['}']))).count '/' =
        gap.count '/' + head.count '/' + body.count '/' := by
      simp only [List.count_append, List.count_cons, List.count_nil]
      simp
      omega
    rw [whole, nodeOf]
    split
    · cases hr : readTree isGrouping body with
      | error e => exact Nat.zero_le _
      | ok ns =>
        have below := inner _ _ ns rfl hr
        rcases group_cases covered (trim head) ns with ⟨-, hk, -⟩ | ⟨hk, -⟩
        · rw [hk]
          exact Nat.zero_le _
        · have spaces : List.count '/' (' ' :: lines (keptOfAll covered ns) ++ [' ']) =
              (lines (keptOfAll covered ns)).count '/' := by
            simp
          rw [hk, List.flatten_cons, List.flatten_nil, List.append_nil, count_printBlock, spaces,
            count_lines]
          omega
    · rw [keptOf]
      split
      · exact Nat.zero_le _
      · rw [List.flatten_cons, List.flatten_nil, List.append_nil, count_printBlock]
        omega

theorem count_keptOfAll_le {t : Text} {ns : List Node} (h : readTree isGrouping t = .ok ns) :
    (keptOfAll covered ns).flatten.count '/' ≤ t.count '/' := by
  induction hn : t.length using Nat.strongRecOn generalizing t ns with
  | ind n ih =>
    obtain ⟨sts, sheet, rfl⟩ := readTree_eq_ok_iff.mp h
    have inner : ∀ st ∈ sts, ∀ head body ns, st = .block head body →
        readTree isGrouping body = .ok ns →
        (keptOfAll covered ns).flatten.count '/' ≤ body.count '/' := by
      rintro st member head body ns rfl read
      have shorter := readSheet_body_length (readSheet_eq_ok_iff_isSheet.mpr sheet) member
      exact ih body.length (by omega) read rfl
    obtain ⟨run, rest, rfl, spelled, -⟩ := sheet
    have first : (keptOfAll covered (sts.map (nodeOf isGrouping))).flatten.count '/' ≤
        run.count '/' := by
      clear h hn ih
      induction spelled with
      | nil => exact Nat.zero_le _
      | @cons a u st sts first others next =>
        have own := count_keptOf_le first (inner st List.mem_cons_self)
        have later := next fun st' member => inner st' (List.mem_cons_of_mem st member)
        rw [List.map_cons, keptOfAll, List.flatten_append, List.count_append, List.count_append]
        omega
    rw [List.count_append]
    omega

end Slashes

section Quiet

theorem inherited_clear : Inherited Clear :=
  ⟨fun _ _ h => h.left, fun _ _ outside h => h.right outside⟩

theorem quiet_of_calm {t : Text} (h : t.all (fun c => !isQuote c && c != '/') = true) :
    Quiet t := by
  induction t with
  | nil => exact ⟨rfl, rfl⟩
  | cons c t ih =>
    obtain ⟨hc, ht⟩ : (isQuote c = false ∧ c ≠ '/') ∧
        t.all (fun c => !isQuote c && c != '/') = true := by
      simpa using h
    have first : Quiet [c] := by
      constructor
      · rw [stripFrom_cons (by simp) fun _ opens => hc.2 opens.1]
        rfl
      · show (if isQuote c then CommentScan.inString c else .outside) = .outside
        rw [hc.1]
        rfl
    refine first.append (ih ht) ?_
    intro slash
    exact absurd (Option.some.inj slash) hc.2

theorem quiet_printBlock {head body : Text} (hh : Quiet head) (hb : Quiet body) :
    Quiet (printBlock head body) := by
  have opening : Quiet " \x7b".toList := quiet_of_calm (by decide)
  have closing : Quiet "\x7d".toList := quiet_of_calm (by decide)
  have opened : Quiet (head ++ " \x7b".toList) := hh.append opening fun _ => by decide
  have filled : Quiet (head ++ " \x7b".toList ++ body) := by
    refine opened.append hb ?_
    intro slash
    have brace : (head ++ " \x7b".toList).getLast? = some '{' := by
      rw [List.getLast?_append]
      rfl
    rw [brace] at slash
    cases slash
  exact filled.append closing fun _ => by decide

theorem quiet_lines {parts : List Text} (h : ∀ part ∈ parts, Quiet part) :
    Quiet (lines parts) := by
  induction parts with
  | nil => exact ⟨rfl, rfl⟩
  | cons part parts ih =>
    obtain ⟨first, others⟩ := List.forall_mem_cons.mp h
    cases parts with
    | nil =>
      rw [lines, join, List.intercalate_singleton]
      exact first
    | cons q parts =>
      have feed : Quiet ['\n'] := quiet_of_calm (by decide)
      have rest : Quiet (['\n'] ++ lines (q :: parts)) :=
        feed.append (ih others) fun slash => by cases slash
      rw [lines, join, List.intercalate_cons_cons, List.append_assoc]
      exact first.append rest fun _ => by simp

mutual

theorem quiet_keptOf : ∀ n, Sound Clear n → ∀ part ∈ keptOf covered n, Quiet part
  | .bare text, ⟨title, clear⟩, part, hp => by
    obtain rfl := List.mem_singleton.mp hp
    exact (clear.quiet title.unquoted).append (quiet_of_calm (by decide)) fun _ => by decide
  | .block head body, ⟨title, clear, _, closed, clearBody⟩, part, hp => by
    rw [keptOf] at hp
    split at hp
    · cases hp
    · obtain rfl := List.mem_singleton.mp hp
      have unquoted : (Scan.outside.run body).quote = none := by rw [closed.outside]; rfl
      exact quiet_printBlock (clear.quiet title.unquoted) (clearBody.quiet unquoted)
  | .group head inner, ⟨title, clear, _, sound⟩, part, hp => by
    rcases group_cases covered head inner with ⟨-, hk, -⟩ | ⟨hk, -⟩
    · rw [hk] at hp
      cases hp
    · rw [hk] at hp
      obtain rfl := List.mem_singleton.mp hp
      have space : Quiet [' '] := quiet_of_calm (by decide)
      have below := quiet_lines (quiet_keptOfAll inner sound)
      have left : Quiet ([' '] ++ lines (keptOfAll covered inner)) :=
        space.append below fun slash => by cases slash
      exact quiet_printBlock (clear.quiet title.unquoted) (left.append space fun _ => by decide)
  | .broken _ _, sound, _, _ => sound.elim

theorem quiet_keptOfAll : ∀ ns, SoundAll Clear ns → ∀ part ∈ keptOfAll covered ns, Quiet part
  | [], _, _, hp => by cases hp
  | n :: ns, sound, part, hp => by
    rcases List.mem_append.mp hp with hp | hp
    · exact quiet_keptOf n sound.1 part hp
    · exact quiet_keptOfAll ns sound.2 part hp

end

end Quiet

section Pruning

variable {critical : Text} {ns : List Node}

theorem criticalTree_eq_ok_iff :
    criticalTree critical = .ok ns ↔
      readTree isGrouping (withoutComments critical) = .ok ns ∧ firstError (leavesOf ns) = none := by
  rw [criticalTree]
  split
  · rename_i read
    rw [read]
    simp
  · rename_i ms read
    rw [read]
    split
    · rename_i broken
      constructor
      · intro h
        cases h
      · rintro ⟨same, unbroken⟩
        obtain rfl := Except.ok.inj same
        rw [broken] at unbroken
        cases unbroken
    · rename_i unbroken
      constructor
      · intro h
        obtain rfl := Except.ok.inj h
        exact ⟨rfl, unbroken⟩
      · exact fun h => h.1

theorem pruneCritical_of_unreadable
    (h : ¬ Readable isGrouping (withoutComments critical)) :
    pruneCritical covered critical = critical := by
  rw [pruneCritical]
  cases hc : criticalTree critical with
  | error e => rfl
  | ok ns =>
    obtain ⟨read, unbroken⟩ := criticalTree_eq_ok_iff.mp hc
    exact absurd (readable_of_readTree read unbroken) h

theorem pruneCritical_eq (covered : TextSet)
    (read : readTree isGrouping (withoutComments critical) = .ok ns)
    (unbroken : firstError (leavesOf ns) = none) :
    pruneCritical covered critical = lines (keptOfAll covered ns) := by
  rw [pruneCritical, criticalTree_eq_ok_iff.mpr ⟨read, unbroken⟩]

/-- What is printed reads as what remains exactly when it has no comment in it and
the leaves stand. -/
theorem reads_back_iff {keeps : Text → Prop} (sound : SoundAll keeps ns) :
    readTree isGrouping (withoutComments (lines (keptOfAll covered ns))) =
        .ok (remaining covered ns) ↔
      withoutComments (lines (keptOfAll covered ns)) = lines (keptOfAll covered ns) ∧
        ∀ leaf ∈ leavesOf (remaining covered ns), Stands leaf := by
  have printed := prints_keptOfAll covered ns sound
  have back : readTree isGrouping (lines (keptOfAll covered ns)) = .ok (remaining covered ns) ↔
      ∀ leaf ∈ leavesOf (remaining covered ns), Stands leaf := by
    have spaced := readTree_lines printed (show ([] : Text).all isGap = true from rfl)
      (show isBlankText [] = true from rfl)
    rwa [List.nil_append, List.append_nil] at spaced
  constructor
  · intro read
    have slashes : (keptOfAll covered (remaining covered ns)).flatten.count '/' ≤
        (withoutComments (lines (keptOfAll covered ns))).count '/' := count_keptOfAll_le read
    rw [keptOfAll_remaining, ← count_lines] at slashes
    have bare := withoutComments_eq_self slashes
    rw [bare] at read
    exact ⟨bare, back.mp read⟩
  · rintro ⟨bare, stands⟩
    rw [bare]
    exact back.mpr stands

/-- A text that is not readable at every level stays as it is. Of a readable one the
pruned text is read, comments taken out, as what remains of its tree exactly when
it has no comment in it and the leaves that remain stand; pruning it again then
changes nothing. It has no comment if the readable text has none left in it and no
quote is escaped there outside strings. -/
theorem pruneCritical_reads_back (covered : TextSet) (critical : Text) :
    (¬ Readable isGrouping (withoutComments critical) →
      pruneCritical covered critical = critical) ∧
    (Readable isGrouping (withoutComments critical) →
      ∃ ns, readTree isGrouping (withoutComments critical) = .ok ns ∧
        leavesOf (remaining covered ns) =
          (leavesOf ns).filter (fun leaf => (droppedHead? covered leaf).isNone) ∧
        (readTree isGrouping (withoutComments (pruneCritical covered critical)) =
            .ok (remaining covered ns) ↔
          withoutComments (pruneCritical covered critical) = pruneCritical covered critical ∧
            ∀ leaf ∈ leavesOf (remaining covered ns), Stands leaf) ∧
        (readTree isGrouping (withoutComments (pruneCritical covered critical)) =
            .ok (remaining covered ns) →
          pruneCritical covered (pruneCritical covered critical) =
            pruneCritical covered critical) ∧
        (Clear (withoutComments critical) →
          withoutComments (pruneCritical covered critical) = pruneCritical covered critical)) := by
  refine ⟨pruneCritical_of_unreadable, ?_⟩
  intro readable
  have anything : Inherited fun _ => True := ⟨fun _ _ _ => trivial, fun _ _ _ _ => trivial⟩
  obtain ⟨ns, read, sound⟩ := exists_sound anything readable trivial
  have unbroken := firstError_eq_none_iff.mpr (error?_of_soundAll ns sound)
  have pruned := pruneCritical_eq covered read unbroken
  have left := leavesOf_remaining covered ns sound
  refine ⟨ns, read, left, ?_, ?_, ?_⟩
  · rw [pruned]
    exact reads_back_iff sound
  · intro back
    have unbroken' : firstError (leavesOf (remaining covered ns)) = none := by
      rw [firstError_eq_none_iff, left]
      intro leaf hl
      exact error?_of_soundAll ns sound leaf (List.mem_filter.mp hl).1
    rw [pruneCritical_eq covered back unbroken', keptOfAll_remaining, pruned]
  · intro clear
    obtain ⟨ms, again, clearly⟩ := exists_sound inherited_clear readable clear
    obtain rfl := Except.ok.inj (read.symm.trans again)
    rw [pruned]
    exact (quiet_lines (quiet_keptOfAll ns clearly)).kept

def printedCritical : Text :=
  "@media print \x7b .md\\:p-4 \x7b padding: 1rem; \x7d .card \x7b color: red; \x7d \x7d"

theorem readable_printedCritical : Readable isGrouping (withoutComments printedCritical) := by
  have evaluated : (criticalTree printedCritical).toOption.map List.length = some 1 := by
    decide +kernel
  obtain ⟨ns, tree, -⟩ := Utility.exists_of_toOption evaluated
  obtain ⟨read, unbroken⟩ := criticalTree_eq_ok_iff.mp tree
  exact readable_of_readTree read unbroken

theorem printedCritical_reads_back :
    Readable isGrouping (withoutComments printedCritical) ∧
      ∃ ns, readTree isGrouping (withoutComments printedCritical) = .ok ns ∧
        readTree isGrouping (withoutComments (pruneCritical (.ofList ["p-4"]) printedCritical)) =
          .ok (remaining (.ofList ["p-4"]) ns) ∧
        pruneCritical (.ofList ["p-4"]) (pruneCritical (.ofList ["p-4"]) printedCritical) =
          pruneCritical (.ofList ["p-4"]) printedCritical := by
  obtain ⟨ns, read, -, back, once, quiet⟩ :=
    (pruneCritical_reads_back (.ofList ["p-4"]) printedCritical).2 readable_printedCritical
  have clear : Clear (withoutComments printedCritical) := ⟨by decide, by decide⟩
  have evaluated : (readTree isGrouping (withoutComments printedCritical)).toOption.map
      (fun ns => decide (∀ leaf ∈ leavesOf (remaining (.ofList ["p-4"]) ns), Stands leaf)) =
        some true := by
    decide +kernel
  rw [read] at evaluated
  have stands := of_decide_eq_true (Option.some.inj evaluated)
  have whole := back.mpr ⟨quiet clear, stands⟩
  exact ⟨readable_printedCritical, ns, read, whole, once whole⟩

def escapedSpace : Text := "@import x\\ ; .b \x7b color: red; \x7d"

def escapedQuote : Text :=
  ".it\\'s \x7b color: red; \x7d .b /* x */ \x7b color: blue; \x7d"

/-- Trimming takes the escaped space from a bare statement, and its semicolon is
escaped and takes the next rule in. Behind an escaped quote a comment stays, and
goes when the text is pruned again. -/
theorem pruning_changes_more :
    (∃ ns, criticalTree escapedSpace = .ok ns ∧
      readTree isGrouping (withoutComments (pruneCritical .empty escapedSpace)) ≠
        .ok (remaining .empty ns)) ∧
    (∃ ns, criticalTree escapedQuote = .ok ns ∧
      pruneCritical (.ofList ["it's"]) (pruneCritical (.ofList ["it's"]) escapedQuote) ≠
        pruneCritical (.ofList ["it's"]) escapedQuote) := by
  constructor
  · have before : (criticalTree escapedSpace).toOption.map
        (fun ns => (remaining .empty ns).length) = some 2 := by
      decide +kernel
    have after : (readTree isGrouping (withoutComments
        (pruneCritical .empty escapedSpace))).toOption.map List.length = some 1 := by
      decide +kernel
    obtain ⟨ns, tree, two⟩ := Utility.exists_of_toOption before
    obtain ⟨ms, read, one⟩ := Utility.exists_of_toOption after
    refine ⟨ns, tree, ?_⟩
    rw [read]
    intro same
    rw [Except.ok.inj same, two] at one
    cases one
  · have tree : (criticalTree escapedQuote).toOption.map List.length = some 2 := by decide +kernel
    obtain ⟨ns, tree, -⟩ := Utility.exists_of_toOption tree
    exact ⟨ns, tree, by decide +kernel⟩

end Pruning

end Layer

end UtilityLayer
