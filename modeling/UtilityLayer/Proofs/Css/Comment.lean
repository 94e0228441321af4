import UtilityLayer.Css.Scan

/-!
# What comments take away

Every comment begins with a slash. A text that keeps all its slashes has no
comment and stays as it is. What is taken from the text after it depends only on
whether the comment reader is in a string by then, and it is where the reader of
statements is unless a quote is escaped outside strings.
-/

set_option autoImplicit false

namespace UtilityLayer.Css

theorem count_stripFrom_le (m : CommentScan) (t : Text) :
    (stripFrom m t).count '/' ≤ t.count '/' := by
  fun_induction stripFrom m t with
  | case1 => exact Nat.le_refl _
  | case2 q c t ih =>
    rw [List.count_cons, List.count_cons]
    omega
  | case3 q c t ih =>
    rw [List.count_cons, List.count_cons]
    omega
  | case4 t ih =>
    rw [List.count_cons, List.count_cons]
    omega
  | case5 c t hn ih =>
    rw [List.count_cons, List.count_cons]
    omega
  | case6 t ih =>
    rw [List.count_cons, List.count_cons]
    omega
  | case7 c t hn ih =>
    rw [List.count_cons]
    omega

theorem stripFrom_eq_self {m : CommentScan} {t : Text} (outside : m ≠ .inComment)
    (h : t.count '/' ≤ (stripFrom m t).count '/') : stripFrom m t = t := by
  fun_induction stripFrom m t with
  | case1 => rfl
  | case2 q c t ih =>
    rw [List.count_cons, List.count_cons] at h
    have hs : (if c = '\\' then CommentScan.afterEscape q
        else if c = q then .outside else .inString q) ≠ .inComment := by
      split
      · simp
      · split <;> simp
    rw [ih hs (by omega)]
  | case3 q c t ih =>
    rw [List.count_cons, List.count_cons] at h
    rw [ih (by simp) (by omega)]
  | case4 t ih =>
    have hle := count_stripFrom_le .inComment t
    simp only [List.count_cons] at h
    simp at h
    omega
  | case5 c t hn ih =>
    rw [List.count_cons, List.count_cons] at h
    rw [ih (by split <;> simp) (by omega)]
  | case6 t ih => exact absurd rfl outside
  | case7 c t hn ih => exact absurd rfl outside

theorem withoutComments_eq_self {t : Text}
    (h : t.count '/' ≤ (withoutComments t).count '/') : withoutComments t = t :=
  stripFrom_eq_self (by simp) h

namespace CommentScan

/-- Where the comment reader stands after a character that begins no comment. -/
def step : CommentScan → Char → CommentScan
  | .outside, c => if isQuote c then .inString c else .outside
  | .inString q, c => if c = '\\' then .afterEscape q else if c = q then .outside else .inString q
  | .afterEscape q, _ => .inString q
  | .inComment, _ => .inComment

def run (m : CommentScan) (t : Text) : CommentScan := t.foldl step m

def Quotes (m : CommentScan) : Prop :=
  ∃ q, isQuote q = true ∧ (m = .inString q ∨ m = .afterEscape q)

variable {m : CommentScan}

theorem step_cases (h : m = .outside ∨ m.Quotes) (c : Char) :
    m.step c = .outside ∨ (m.step c).Quotes := by
  rcases h with rfl | ⟨q, quote, rfl | rfl⟩
  · rw [step]
    split
    · rename_i quote
      exact .inr ⟨c, quote, .inl rfl⟩
    · exact .inl rfl
  · rw [step]
    split
    · exact .inr ⟨q, quote, .inr rfl⟩
    · split
      · exact .inl rfl
      · exact .inr ⟨q, quote, .inl rfl⟩
  · exact .inr ⟨q, quote, .inl rfl⟩

theorem run_cases (h : m = .outside ∨ m.Quotes) (t : Text) :
    m.run t = .outside ∨ (m.run t).Quotes := by
  induction t generalizing m with
  | nil => exact h
  | cons c t ih => exact ih (step_cases h c)

end CommentScan

theorem CommentScan.step_ne_inComment {m : CommentScan} (clear : m ≠ .inComment) (c : Char) :
    m.step c ≠ .inComment := by
  cases m with
  | inComment => exact absurd rfl clear
  | outside =>
    rw [step]
    split <;> simp
  | inString q =>
    rw [step]
    split
    · simp
    · split <;> simp
  | afterEscape q => simp [step]

def opensComment (c : Char) (t : Text) : Prop := c = '/' ∧ t.head? = some '*'

def closesComment (c : Char) (t : Text) : Prop := c = '*' ∧ t.head? = some '/'

theorem stripFrom_cons {m : CommentScan} (clear : m ≠ .inComment) {c : Char} {t : Text}
    (h : m = .outside → ¬ opensComment c t) :
    stripFrom m (c :: t) = c :: stripFrom (m.step c) t := by
  cases m with
  | inComment => exact absurd rfl clear
  | inString q => rfl
  | afterEscape q => rfl
  | outside =>
    rw [stripFrom, CommentScan.step]
    rintro u rfl rfl
    exact h rfl ⟨rfl, rfl⟩

theorem not_opensComment {c : Char} {t : Text} (h : stripFrom .outside (c :: t) = c :: t) :
    ¬ opensComment c t := by
  rintro ⟨rfl, star⟩
  obtain ⟨u, rfl⟩ := List.head?_eq_some_iff.mp star
  have fewer := count_stripFrom_le .inComment u
  have same := congrArg (List.count '/') h
  rw [stripFrom, List.count_cons_self, List.count_cons_of_ne (by decide)] at same
  omega

theorem stripFrom_cons_eq_iff {m : CommentScan} (clear : m ≠ .inComment) {c : Char} {t : Text} :
    stripFrom m (c :: t) = c :: t ↔
      (m = .outside → ¬ opensComment c t) ∧ stripFrom (m.step c) t = t := by
  constructor
  · intro h
    have plain : m = .outside → ¬ opensComment c t := by
      rintro rfl
      exact not_opensComment h
    rw [stripFrom_cons clear plain] at h
    exact ⟨plain, (List.cons.inj h).2⟩
  · rintro ⟨plain, rest⟩
    rw [stripFrom_cons clear plain, rest]

/-- No slash and star stand together outside strings. -/
def uncommented : CommentScan → Text → Bool
  | _, [] => true
  | m, c :: t =>
    !(m == .outside && c == '/' && t.head? == some '*') && uncommented (m.step c) t

theorem uncommented_cons {m : CommentScan} {c : Char} {t : Text} :
    uncommented m (c :: t) = true ↔
      (m = .outside → ¬ opensComment c t) ∧ uncommented (m.step c) t = true := by
  have begins : (m = .outside → ¬ opensComment c t) ↔
      (!(m == .outside && c == '/' && t.head? == some '*')) = true := by
    by_cases outside : m = .outside
    · by_cases slash : c = '/' <;> simp [opensComment, outside, slash]
    · simp [outside]
  rw [uncommented, Bool.and_eq_true, begins]

theorem stripFrom_eq_self_iff {m : CommentScan} (clear : m ≠ .inComment) {t : Text} :
    stripFrom m t = t ↔ uncommented m t = true := by
  induction t generalizing m with
  | nil => cases m <;> simp [stripFrom, uncommented]
  | cons c t ih =>
    rw [stripFrom_cons_eq_iff clear, uncommented_cons,
      ih (CommentScan.step_ne_inComment clear c)]

/-- Behind a text that is kept, the comment reader goes on from where the text
leaves it, if no comment begins between the two. -/
theorem stripFrom_append {m : CommentScan} {a b : Text} (clear : m ≠ .inComment)
    (bare : stripFrom m a = a) (joint : a.getLast? = some '/' → b.head? ≠ some '*') :
    stripFrom m (a ++ b) = a ++ stripFrom (m.run a) b := by
  induction a generalizing m with
  | nil => rfl
  | cons c t ih =>
    obtain ⟨plain, rest⟩ := (stripFrom_cons_eq_iff clear).mp bare
    have later : t.getLast? = some '/' → b.head? ≠ some '*' := by
      intro slash
      apply joint
      obtain ⟨u, rfl⟩ := List.getLast?_eq_some_iff.mp slash
      rw [← List.cons_append, List.getLast?_concat]
    have opens : m = .outside → ¬ opensComment c (t ++ b) := by
      rintro outside ⟨rfl, star⟩
      cases t with
      | nil => exact joint rfl star
      | cons d t => exact plain outside ⟨rfl, star⟩
    rw [List.cons_append, stripFrom_cons clear opens,
      ih (CommentScan.step_ne_inComment clear c) rest later]
    rfl

theorem stripFrom_of_append {m : CommentScan} {a b : Text} (clear : m ≠ .inComment)
    (bare : stripFrom m (a ++ b) = a ++ b) :
    stripFrom m a = a ∧ stripFrom (m.run a) b = b := by
  induction a generalizing m with
  | nil => exact ⟨by cases m <;> rfl, bare⟩
  | cons c t ih =>
    rw [List.cons_append] at bare
    obtain ⟨plain, rest⟩ := (stripFrom_cons_eq_iff clear).mp bare
    obtain ⟨first, second⟩ := ih (CommentScan.step_ne_inComment clear c) rest
    refine ⟨(stripFrom_cons_eq_iff clear).mpr ⟨?_, first⟩, second⟩
    rintro outside ⟨rfl, star⟩
    obtain ⟨u, rfl⟩ := List.head?_eq_some_iff.mp star
    exact plain outside ⟨rfl, rfl⟩

/-- The comment reader keeps the text and is outside strings behind it. -/
structure Quiet (t : Text) : Prop where
  kept : stripFrom .outside t = t
  outside : CommentScan.outside.run t = .outside

theorem Quiet.append {a b : Text} (ha : Quiet a) (hb : Quiet b)
    (joint : a.getLast? = some '/' → b.head? ≠ some '*') : Quiet (a ++ b) where
  kept := by rw [stripFrom_append (by simp) ha.kept joint, ha.outside, hb.kept]
  outside := by
    rw [CommentScan.run, List.foldl_append]
    exact (congrArg (List.foldl CommentScan.step · b) ha.outside).trans hb.outside

def Scan.commentScan (s : Scan) : CommentScan :=
  match s.quote with
  | none => .outside
  | some q => if s.escaped then .afterEscape q else .inString q

/-- Some quote is escaped outside strings. -/
def escapesQuote : Scan → Text → Bool
  | _, [] => false
  | s, c :: t => (s.escaped && s.quote.isNone && isQuote c) || escapesQuote (s.step c) t

theorem commentScan_step {s : Scan} {c : Char}
    (h : (s.escaped && s.quote.isNone && isQuote c) = false) :
    (s.step c).commentScan = s.commentScan.step c := by
  obtain ⟨escaped, quote⟩ := s
  cases quote with
  | none =>
    cases escaped with
    | true =>
      have unquoted : isQuote c = false := h
      simp [Scan.step, Scan.commentScan, CommentScan.step, unquoted]
    | false =>
      by_cases hb : c = '\\'
      · subst hb
        rfl
      · by_cases hq : isQuote c = true
        · simp [Scan.step, Scan.commentScan, CommentScan.step, hb, hq]
        · simp [Scan.step, Scan.commentScan, CommentScan.step, hb, hq]
  | some q =>
    cases escaped with
    | true => rfl
    | false =>
      by_cases hb : c = '\\'
      · simp [Scan.step, Scan.commentScan, CommentScan.step, hb]
      · by_cases hc : c = q
        · subst hc
          simp [Scan.step, Scan.commentScan, CommentScan.step, hb, Scan.outside]
        · simp [Scan.step, Scan.commentScan, CommentScan.step, hb, hc]

theorem commentScan_run {s : Scan} {t : Text} (h : escapesQuote s t = false) :
    (s.run t).commentScan = s.commentScan.run t := by
  induction t generalizing s with
  | nil => rfl
  | cons c t ih =>
    rw [escapesQuote, Bool.or_eq_false_iff] at h
    have rest := ih h.2
    rw [commentScan_step h.1] at rest
    exact rest

theorem escapesQuote_append (s : Scan) (a b : Text) :
    escapesQuote s (a ++ b) = (escapesQuote s a || escapesQuote (s.run a) b) := by
  induction a generalizing s with
  | nil => rfl
  | cons c a ih => rw [List.cons_append, escapesQuote, escapesQuote, ih, Bool.or_assoc]; rfl

/-- A text without comments and without quotes escaped outside strings. -/
structure Clear (t : Text) : Prop where
  kept : withoutComments t = t
  unescaped : escapesQuote .outside t = false

namespace Clear

variable {a b : Text}

theorem left (h : Clear (a ++ b)) : Clear a := by
  have unescaped := h.unescaped
  rw [escapesQuote_append, Bool.or_eq_false_iff] at unescaped
  exact ⟨(stripFrom_of_append (by simp) h.kept).1, unescaped.1⟩

theorem quiet (h : Clear a) (unquoted : (Scan.outside.run a).quote = none) : Quiet a := by
  refine ⟨h.kept, ?_⟩
  have same := commentScan_run h.unescaped
  rw [Scan.commentScan, unquoted] at same
  exact same.symm

theorem right (outside : Scan.outside.run a = .outside) (h : Clear (a ++ b)) : Clear b := by
  have unescaped := h.unescaped
  rw [escapesQuote_append, Bool.or_eq_false_iff, outside] at unescaped
  have kept := (stripFrom_of_append (by simp) h.kept).2
  rw [(h.left.quiet (by rw [outside]; rfl)).outside] at kept
  exact ⟨kept, unescaped.2⟩

end Clear

end UtilityLayer.Css
