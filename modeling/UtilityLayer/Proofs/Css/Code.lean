import UtilityLayer.Proofs.Css.Comment

/-!
# The code of a text

What is left of a text when its comments are gone and a backslash escapes outside
strings as well as inside. A part of the code is the code of a part of the text.
The comment reader, which knows escapes inside strings only, finds the same
comments unless a quote or the beginning of a comment is escaped outside strings.
-/

set_option autoImplicit false

namespace UtilityLayer.Css

/-- The code behind a place: in a comment, or in code where the reader of
statements stands at `some s`. -/
def codeFrom : Option Scan → Text → Text
  | _, [] => []
  | none, '*' :: '/' :: t => codeFrom (some .outside) t
  | none, _ :: t => codeFrom none t
  | some ⟨false, none⟩, '/' :: '*' :: t => codeFrom none t
  | some s, c :: t => c :: codeFrom (some (s.step c)) t

def code (t : Text) : Text := codeFrom (some .outside) t

variable {s : Scan} {m : Option Scan} {c : Char} {t u v : Text}

theorem codeFrom_cons (h : s = .outside → ¬ opensComment c t) :
    codeFrom (some s) (c :: t) = c :: codeFrom (some (s.step c)) t := by
  rw [codeFrom]
  rintro t rfl rfl rfl
  exact h rfl ⟨rfl, rfl⟩

theorem codeFrom_none (h : ¬ closesComment c t) :
    codeFrom none (c :: t) = codeFrom none t := by
  rw [codeFrom]
  rintro t rfl rfl
  exact h ⟨rfl, rfl⟩

theorem codeFrom_eq_append (h : codeFrom m t = u ++ v) :
    ∃ a b, t = a ++ b ∧ codeFrom m a = u ∧
      codeFrom (some ((m.getD .outside).run u)) b = v ∧ b.head? = v.head? := by
  cases v with
  | nil =>
    refine ⟨t, [], (List.append_nil t).symm, by rw [h, List.append_nil], ?_, rfl⟩
    rw [codeFrom]
  | cons d v =>
    fun_induction codeFrom m t generalizing u with
    | case1 => simp at h
    | case2 t ih =>
      obtain ⟨a, b, rfl, first, second, head⟩ := ih h
      exact ⟨'*' :: '/' :: a, b, rfl, by rw [codeFrom, first], second, head⟩
    | case3 c t more ih =>
      obtain ⟨a, b, rfl, first, second, head⟩ := ih h
      refine ⟨c :: a, b, rfl, ?_, second, head⟩
      rw [codeFrom_none, first]
      rintro ⟨star, slash⟩
      obtain ⟨a, rfl⟩ := List.head?_eq_some_iff.mp slash
      exact more _ star rfl
    | case4 t ih =>
      obtain ⟨a, b, rfl, first, second, head⟩ := ih h
      exact ⟨'/' :: '*' :: a, b, rfl, by rw [codeFrom, first], second, head⟩
    | case5 s c t more ih =>
      have kept : codeFrom (some s) (c :: t) = c :: codeFrom (some (s.step c)) t := by
        rw [codeFrom]
        exact more
      cases u with
      | nil =>
        rw [List.nil_append] at h
        refine ⟨[], c :: t, rfl, by rw [codeFrom], kept.trans h, ?_⟩
        exact congrArg Option.some (List.cons.inj h).1
      | cons e u =>
        obtain ⟨rfl, later⟩ := List.cons.inj h
        obtain ⟨a, b, rfl, first, second, head⟩ := ih later
        refine ⟨c :: a, b, rfl, ?_, second, head⟩
        rw [codeFrom_cons, first]
        rintro outside ⟨slash, star⟩
        obtain ⟨a, rfl⟩ := List.head?_eq_some_iff.mp star
        exact more _ outside slash rfl

theorem code_eq_append (outside : Scan.outside.run u = .outside) (h : code t = u ++ v) :
    ∃ a b, t = a ++ b ∧ code a = u ∧ code b = v ∧ b.head? = v.head? := by
  have parts := codeFrom_eq_append h
  rwa [Option.getD_some, outside] at parts

theorem code_eq_append_cons (outside : Scan.outside.run u = .outside)
    (free : Scan.outside.free c = true) (plain : c ≠ '/') (h : code t = u ++ c :: v) :
    ∃ a b, t = a ++ c :: b ∧ code a = u ∧ code b = v := by
  obtain ⟨a, b, rfl, first, second, head⟩ := code_eq_append outside h
  obtain ⟨b, rfl⟩ := List.head?_eq_some_iff.mp head
  have kept : code (c :: b) = c :: codeFrom (some (Scan.outside.step c)) b :=
    codeFrom_cons fun _ comment => plain comment.1
  rw [kept, Scan.step_of_free free] at second
  exact ⟨a, b, rfl, first, (List.cons.inj second).2⟩

def escapesMark : Option Scan → Text → Bool
  | _, [] => false
  | none, '*' :: '/' :: t => escapesMark (some .outside) t
  | none, _ :: t => escapesMark none t
  | some ⟨false, none⟩, '/' :: '*' :: t => escapesMark none t
  | some s, c :: t =>
    (s.escaped && s.quote.isNone && (isQuote c || c == '/' && t.head? == some '*')) ||
      escapesMark (some (s.step c)) t

theorem stripFrom_eq_codeFrom (h : escapesMark m t = false) :
    stripFrom (m.elim .inComment Scan.commentScan) t = codeFrom m t := by
  fun_induction codeFrom m t with
  | case1 m => cases hm : m.elim .inComment Scan.commentScan <;> rw [stripFrom]
  | case2 t ih => exact ih h
  | case3 c t more ih =>
    rw [escapesMark] at h
    · rw [Option.elim_none, stripFrom]
      · exact ih h
      · exact more
    · exact more
  | case4 t ih => exact ih h
  | case5 s c t more ih =>
    rw [escapesMark, Bool.or_eq_false_iff] at h
    · obtain ⟨plain, later⟩ := h
      have clear : s.commentScan ≠ .inComment := by
        rw [Scan.commentScan]
        split
        · simp
        · split <;> simp
      have bare : s.commentScan = .outside → ¬ opensComment c t := by
        rintro outside ⟨slash, star⟩
        obtain ⟨escaped, _ | q⟩ := s
        · cases escaped with
          | true => simp [slash, star] at plain
          | false =>
            obtain ⟨u, rfl⟩ := List.head?_eq_some_iff.mp star
            exact more u rfl slash rfl
        · cases escaped <;> cases outside
      have quotes : (s.escaped && s.quote.isNone && isQuote c) = false := by
        cases hq : isQuote c with
        | false => exact Bool.and_false _
        | true => simpa [hq] using plain
      rw [Option.elim_some, stripFrom_cons clear bare, ← commentScan_step quotes]
      exact congrArg (c :: ·) (ih later)
    · exact more

theorem withoutComments_eq_code (h : escapesMark (some .outside) t = false) :
    withoutComments t = code t := stripFrom_eq_codeFrom h

end UtilityLayer.Css
