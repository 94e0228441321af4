import Mathlib.Data.List.Chain
import UtilityLayer.Proofs.Css.Comment

/-!
# Stripping comments twice

A text is made of pieces with comments between them, and the pieces are what is
left of it. None of them holds a comment. A comment can only come about where two
pieces meet, one that ends with a slash and one that begins with a star, and
stripping the result again takes it away.
-/

set_option autoImplicit false

namespace UtilityLayer.Css

open Text

/-- A slash and a star, closed by the first star and slash behind them. -/
def IsComment (c : Text) : Prop :=
  ∃ body : Text, c = '/' :: '*' :: (body ++ ['*', '/']) ∧ holds "*/" (body ++ ['*']) = false

/-- Read from `m` on, the text is the pieces with comments between them, and
perhaps a comment that is never closed behind the last. -/
inductive Commented : CommentScan → Text → List Text → Prop
  | last {m : CommentScan} {p : Text} (kept : uncommented m p = true) : Commented m p [p]
  | unclosed {m : CommentScan} {p body : Text} (kept : uncommented m p = true)
      (outside : m.run p = .outside) (never : holds "*/" body = false) :
      Commented m (p ++ '/' :: '*' :: body) [p]
  | comment {m : CommentScan} {p c t : Text} {ps : List Text} (kept : uncommented m p = true)
      (outside : m.run p = .outside) (between : IsComment c) (rest : Commented .outside t ps) :
      Commented m (p ++ (c ++ t)) (p :: ps)

/-- Two pieces that make the beginning of a comment where they meet. -/
def opensBetween (p q : Text) : Prop := p.getLast? = some '/' ∧ q.head? = some '*'

variable {m : CommentScan} {c : Char} {a b t body : Text} {ps : List Text}

/-! ## Comments -/

theorem holds_close_cons :
    holds "*/" (c :: t) = false ↔ ¬ closesComment c t ∧ holds "*/" t = false := by
  rw [holds, Bool.or_eq_false_iff]
  apply and_congr_left
  intro _
  cases t with
  | nil => by_cases star : c = '*' <;> simp [startsWith, after?, closesComment, star, eq_comm]
  | cons d t =>
    by_cases star : c = '*' <;> by_cases slash : d = '/' <;>
      simp [startsWith, after?, closesComment, star, slash, eq_comm]

theorem stripFrom_inComment_cons (h : ¬ closesComment c t) :
    stripFrom .inComment (c :: t) = stripFrom .inComment t := by
  rw [stripFrom]
  rintro t rfl rfl
  exact h ⟨rfl, rfl⟩

theorem stripFrom_unclosed (never : holds "*/" body = false) : stripFrom .inComment body = [] := by
  induction body with
  | nil => rfl
  | cons c body ih =>
    obtain ⟨first, later⟩ := holds_close_cons.mp never
    rw [stripFrom_inComment_cons first, ih later]

theorem stripFrom_closed (first : holds "*/" (body ++ ['*']) = false) (t : Text) :
    stripFrom .inComment (body ++ '*' :: '/' :: t) = stripFrom .outside t := by
  induction body with
  | nil => rw [List.nil_append, stripFrom]
  | cons c body ih =>
    obtain ⟨open', later⟩ := holds_close_cons.mp first
    have goesOn : ¬ closesComment c (body ++ '*' :: '/' :: t) := by
      rintro ⟨star, slash⟩
      apply open'
      cases body with
      | nil => cases slash
      | cons d body => exact ⟨star, slash⟩
    rw [List.cons_append, stripFrom_inComment_cons goesOn, ih later]

theorem exists_close (t : Text) :
    holds "*/" t = false ∨
      ∃ body rest, t = body ++ '*' :: '/' :: rest ∧ holds "*/" (body ++ ['*']) = false := by
  induction t with
  | nil => exact .inl rfl
  | cons c t ih =>
    by_cases closes : closesComment c t
    · obtain ⟨rfl, slash⟩ := closes
      obtain ⟨rest, rfl⟩ := List.head?_eq_some_iff.mp slash
      exact .inr ⟨[], rest, rfl, by decide⟩
    · rcases ih with never | ⟨body, rest, rfl, first⟩
      · exact .inl (holds_close_cons.mpr ⟨closes, never⟩)
      · refine .inr ⟨c :: body, rest, rfl, holds_close_cons.mpr ⟨?_, first⟩⟩
        rintro ⟨star, slash⟩
        apply closes
        cases body with
        | nil => cases slash
        | cons d body => exact ⟨star, slash⟩

/-! ## Pieces -/

theorem Commented.cons (h : Commented (m.step c) t ps) (plain : m = .outside → ¬ opensComment c t) :
    ∃ qs, Commented m (c :: t) qs := by
  have first {p rest : Text} (kept : uncommented (m.step c) p = true) (whole : t = p ++ rest) :
      uncommented m (c :: p) = true := by
    refine uncommented_cons.mpr ⟨?_, kept⟩
    rintro outside ⟨slash, star⟩
    obtain ⟨p, rfl⟩ := List.head?_eq_some_iff.mp star
    exact plain outside ⟨slash, by rw [whole]; rfl⟩
  cases h with
  | last kept => exact ⟨_, .last (first kept (List.append_nil t).symm)⟩
  | unclosed kept outside never => exact ⟨_, .unclosed (first kept rfl) outside never⟩
  | comment kept outside between rest =>
    exact ⟨_, .comment (first kept rfl) outside between rest⟩

/-- Every text is made of pieces and comments. -/
theorem exists_commented (clear : m ≠ .inComment) (t : Text) : ∃ ps, Commented m t ps := by
  induction ht : t.length using Nat.strong_induction_on generalizing m t with
  | _ n ih =>
    subst ht
    cases t with
    | nil => exact ⟨[[]], .last rfl⟩
    | cons c t =>
      by_cases opens : m = .outside ∧ opensComment c t
      · obtain ⟨rfl, rfl, star⟩ := opens
        obtain ⟨u, rfl⟩ := List.head?_eq_some_iff.mp star
        rcases exists_close u with never | ⟨body, rest, rfl, first⟩
        · exact ⟨[[]], .unclosed (p := []) rfl rfl never⟩
        · obtain ⟨ps, made⟩ := ih rest.length (by simp; omega) clear rest rfl
          have comment : IsComment ('/' :: '*' :: (body ++ ['*', '/'])) := ⟨body, rfl, first⟩
          have whole := Commented.comment (p := []) (m := .outside) rfl rfl comment made
          exact ⟨_, by simpa using whole⟩
      · obtain ⟨ps, made⟩ := ih t.length (by simp) (CommentScan.step_ne_inComment clear c) t rfl
        exact made.cons fun outside comment => opens ⟨outside, comment⟩

theorem Commented.stripFrom_eq (h : Commented m t ps) (clear : m ≠ .inComment) :
    stripFrom m t = ps.flatten := by
  have behind {m : CommentScan} {p u : Text} (clear : m ≠ .inComment)
      (kept : uncommented m p = true) (outside : m.run p = .outside) :
      stripFrom m (p ++ '/' :: '*' :: u) = p ++ stripFrom .inComment u := by
    rw [stripFrom_append clear ((stripFrom_eq_self_iff clear).mpr kept) (by simp), outside,
      stripFrom]
  induction h with
  | last kept => rw [(stripFrom_eq_self_iff clear).mpr kept, List.flatten_singleton]
  | unclosed kept outside never =>
    rw [behind clear kept outside, stripFrom_unclosed never, List.append_nil,
      List.flatten_singleton]
  | comment kept outside between rest ih =>
    obtain ⟨body, rfl, first⟩ := between
    rw [List.cons_append, List.cons_append, behind clear kept outside, List.append_assoc,
      List.cons_append, List.singleton_append, stripFrom_closed first, ih (by simp),
      List.flatten_cons]

/-! ## Where pieces meet -/

theorem outside_of_slash (h : m = .outside ∨ m.Quotes) (outside : m.step '/' = .outside) :
    m = .outside := by
  rcases h with rfl | ⟨q, quote, rfl | rfl⟩
  · rfl
  · simp only [isQuote, Bool.or_eq_true, beq_iff_eq] at quote
    rcases quote with rfl | rfl <;> cases outside
  · cases outside

theorem uncommented_append (h : m = .outside ∨ m.Quotes) (kept : uncommented m a = true)
    (outside : m.run a = .outside) :
    uncommented m (a ++ b) = true ↔ ¬ opensBetween a b ∧ uncommented .outside b = true := by
  induction a generalizing m with
  | nil =>
    obtain rfl : m = .outside := outside
    simp [opensBetween]
  | cons c a ih =>
    rw [uncommented_cons] at kept
    obtain ⟨plain, keptRest⟩ := kept
    have rest := ih (CommentScan.step_cases h c) keptRest outside
    rw [List.cons_append, uncommented_cons, rest]
    cases a with
    | nil =>
      have slash : c = '/' → m = .outside := by
        rintro rfl
        exact outside_of_slash h outside
      have alone : ¬ opensBetween [] b := fun joint => nomatch joint.1
      have last : opensBetween [c] b ↔ opensComment c b := by
        rw [opensBetween, List.getLast?_singleton, Option.some.injEq, opensComment]
      rw [last, List.nil_append]
      constructor
      · rintro ⟨opens, -, later⟩
        exact ⟨fun comment => opens (slash comment.1) comment, later⟩
      · rintro ⟨opens, later⟩
        exact ⟨fun _ => opens, alone, later⟩
    | cons d a =>
      have joint : opensBetween (c :: d :: a) b ↔ opensBetween (d :: a) b := by
        rw [opensBetween, List.getLast?_cons_cons, opensBetween]
      rw [joint]
      exact and_iff_right plain

theorem head?_flatten_eq (ps : List Text) :
    ps.flatten.head? = (ps.filter (· ≠ [])).head?.bind List.head? := by
  induction ps with
  | nil => rfl
  | cons p ps ih =>
    cases p with
    | nil => simpa using ih
    | cons c p => simp

/-- The pieces of a text hold no comment together exactly when none begins where
two of them meet. -/
theorem Commented.uncommented_flatten (made : Commented m t ps) (h : m = .outside ∨ m.Quotes) :
    uncommented m ps.flatten = true ↔
      (ps.filter (· ≠ [])).IsChain fun p q => ¬ opensBetween p q := by
  have single {m : CommentScan} {p : Text} (kept : uncommented m p = true) :
      uncommented m [p].flatten = true ↔
        ([p].filter (· ≠ [])).IsChain fun p q => ¬ opensBetween p q := by
    cases p <;> simp [kept]
  induction made with
  | last kept => exact single kept
  | unclosed kept outside never => exact single kept
  | @comment m p c t ps kept outside between rest ih =>
    have later : uncommented .outside ps.flatten = true ↔
        (ps.filter (· ≠ [])).IsChain fun p q => ¬ opensBetween p q := ih (.inl rfl)
    rw [List.flatten_cons, uncommented_append h kept outside, later]
    cases p with
    | nil => simp [opensBetween]
    | cons d p =>
      have next : opensBetween (d :: p) ps.flatten ↔
          ∃ q ∈ (ps.filter (· ≠ [])).head?, opensBetween (d :: p) q := by
        simp only [opensBetween, head?_flatten_eq, Option.bind_eq_some_iff]
        constructor
        · rintro ⟨slash, q, hq, star⟩
          exact ⟨q, hq, slash, star⟩
        · rintro ⟨q, hq, slash, star⟩
          exact ⟨slash, q, hq, star⟩
      rw [List.filter_cons_of_pos (by simp), List.isChain_cons, next]
      simp

/-- Every text is made of pieces and comments. However it is, the pieces are what is
left of it, and nothing changes when comments are stripped again exactly if no
piece ends with a slash where the next one begins with a star. -/
theorem withoutComments_twice_iff (t : Text) :
    (∃ ps, Commented .outside t ps) ∧
      ∀ ps, Commented .outside t ps → withoutComments t = ps.flatten ∧
        (withoutComments (withoutComments t) = withoutComments t ↔
          (ps.filter (· ≠ [])).IsChain fun p q => ¬ opensBetween p q) := by
  refine ⟨exists_commented (by simp) t, fun ps made => ?_⟩
  have left : withoutComments t = ps.flatten := made.stripFrom_eq (by simp)
  refine ⟨left, ?_⟩
  rw [left, ← made.uncommented_flatten (.inl rfl)]
  exact stripFrom_eq_self_iff (by simp)

theorem ratio_stripped_once :
    Commented .outside "8px //* of */ 2" ["8px /".toList, " 2".toList] ∧
      withoutComments "8px //* of */ 2" = "8px / 2".toList ∧
      withoutComments (withoutComments "8px //* of */ 2") = withoutComments "8px //* of */ 2" := by
  have comment : IsComment "/* of */" := ⟨" of ".toList, rfl, by decide⟩
  have made : Commented .outside "8px //* of */ 2" ["8px /".toList, " 2".toList] :=
    .comment (p := "8px /".toList) (by decide) (by decide) comment (.last (by decide))
  obtain ⟨left, settled⟩ := (withoutComments_twice_iff _).2 _ made
  refine ⟨made, left, settled.mpr ?_⟩
  simp [opensBetween]

/-- Where a slash and a star meet over a comment, another comment comes about. -/
theorem joined_comment_stripped :
    withoutComments "//**/*x*/" = "/*x*/".toList ∧
      withoutComments (withoutComments "//**/*x*/") = [] := by
  decide

end UtilityLayer.Css
