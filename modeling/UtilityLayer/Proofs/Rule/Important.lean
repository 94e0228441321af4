import UtilityLayer.Proofs.Rule.Segments
import UtilityLayer.Proofs.Text.Holds

/-!
# Every declaration marked once

The marks of a printed body: a declaration without a mark outside its strings
gets one behind its value, and every declaration gets its semicolon. This is
what is done to a body as long as its values and selectors end where they end
when a backslash in a string is a character like any other, and no string holds
the only mark of its declaration.
-/

set_option autoImplicit false

namespace UtilityLayer.Rule

open Text Css

/-- How values are written: a backslash escapes inside strings. -/
def values : Reading := { segments with escapes := true }

/-! ## Marks -/

section Marks

def markText : Text := "!important"

/-- How often the mark occurs outside strings, a backslash in a string escaping
the character after it. -/
def marksFrom : CommentScan → Text → Nat
  | _, [] => 0
  | m, c :: t =>
    (if m == .outside && startsWith markText (c :: t) then 1 else 0) + marksFrom (m.step c) t

def marks (value : Text) : Nat := marksFrom .outside value

def marked (value : Text) : Text :=
  if marks value = 0 then trimEnd value ++ importantMark ++ blankTail value else value

variable {m : CommentScan} {a b value : Text}

theorem marksFrom_append (apart : ∀ c ∈ b.head?, c ∉ markText) (m : CommentScan) (a : Text) :
    marksFrom m (a ++ b) = marksFrom m a + marksFrom (m.run a) b := by
  induction a generalizing m with
  | nil => rw [List.nil_append, marksFrom, Nat.zero_add]; rfl
  | cons c a ih =>
    rw [List.cons_append, marksFrom, marksFrom, ← List.cons_append, startsWith_append apart, ih,
      Nat.add_assoc]
    rfl

theorem marksFrom_of_not_holds (h : holds markText a = false) (m : CommentScan) :
    marksFrom m a = 0 := by
  induction a generalizing m with
  | nil => rfl
  | cons c t ih =>
    rw [holds, Bool.or_eq_false_iff] at h
    rw [marksFrom, h.1, ih h.2]
    simp

theorem apart_of_blank (blank : isBlankText a = true) : ∀ c ∈ a.head?, c ∉ markText := by
  intro c hc hm
  have solid : markText.all (fun d => !isBlank d) = true := by decide
  have hb := List.all_eq_true.mp solid c hm
  rw [Bool.not_eq_true'] at hb
  exact not_mem_of_blank hb blank (List.mem_of_mem_head? hc)

theorem not_holds_of_blank (blank : isBlankText a = true) : holds markText a = false :=
  holds_of_not_mem (c := '!') (by decide) (not_mem_of_blank (by decide) blank)

theorem holds_trimEnd (value : Text) : holds markText (trimEnd value) = holds markText value := by
  have blank := isBlankText_blankTail value
  have whole := holds_append (apart_of_blank blank) (trimEnd value)
  rw [trimEnd_append_blankTail, not_holds_of_blank blank, Bool.or_false] at whole
  exact whole.symm

theorem marks_trimEnd (value : Text) : marks (trimEnd value) = marks value := by
  have blank := isBlankText_blankTail value
  have whole := marksFrom_append (apart_of_blank blank) .outside (trimEnd value)
  rw [trimEnd_append_blankTail, marksFrom_of_not_holds (not_holds_of_blank blank)] at whole
  exact whole.symm

theorem quotes_of_blank (inside : m.Quotes) (blank : isBlankText a = true) :
    (m.run a).Quotes := by
  induction a generalizing m with
  | nil => exact inside
  | cons c a ih =>
    rw [isBlankText, List.all_cons, Bool.and_eq_true] at blank
    obtain ⟨q, quote, rfl | rfl⟩ := inside
    · have escape : c ≠ '\\' := by
        rintro rfl
        exact absurd blank.1 (by decide)
      have other : c ≠ q := by
        rintro rfl
        simp only [isQuote, Bool.or_eq_true, beq_iff_eq] at quote
        rcases quote with rfl | rfl
        · exact absurd blank.1 (by decide)
        · exact absurd blank.1 (by decide)
      have stays : (CommentScan.inString q).step c = .inString q := by
        rw [CommentScan.step, if_neg escape, if_neg other]
      exact ih ⟨q, quote, .inl stays⟩ blank.2
    · exact ih ⟨q, quote, .inl rfl⟩ blank.2

theorem run_trimEnd (closed : CommentScan.outside.run value = .outside) :
    CommentScan.outside.run (trimEnd value) = .outside := by
  rcases CommentScan.run_cases (.inl rfl) (trimEnd value) with h | h
  · exact h
  · have inside := quotes_of_blank h (isBlankText_blankTail value)
    rw [CommentScan.run, CommentScan.run, ← List.foldl_append, trimEnd_append_blankTail,
      ← CommentScan.run, closed] at inside
    obtain ⟨q, -, h | h⟩ := inside
    · cases h
    · cases h

theorem marks_marked (closed : CommentScan.outside.run value = .outside) :
    marks (marked value) = max 1 (marks value) := by
  rw [marked]
  split
  · rename_i unmarked
    have blank := isBlankText_blankTail value
    have behind : marksFrom .outside (importantMark ++ blankTail value) = 1 := by
      rw [marksFrom_append (apart_of_blank blank),
        marksFrom_of_not_holds (not_holds_of_blank blank)]
      decide
    have front : ∀ c ∈ (importantMark ++ blankTail value).head?, c ∉ markText := by
      rintro c ⟨⟩
      decide
    rw [List.append_assoc, marks, marksFrom_append front, run_trimEnd closed, behind, ← marks,
      marks_trimEnd, unmarked]
    rfl
  · omega

theorem markSegment_of_not_mem {segment : Text} (colon : ':' ∉ segment) (followed : Bool) :
    markSegment segment followed = segment := by
  have kept : ':' ∉ trimEnd segment := mt (mem_trimEnd_iff (by decide) segment).mp colon
  rw [markSegment, if_pos (.inr kept)]

theorem markSegment_of_mem {segment : Text} (colon : ':' ∈ segment) (followed : Bool) :
    markSegment segment followed =
      trimEnd segment ++ (if holds markText segment then [] else importantMark) ++
        (if followed then [] else [';']) ++ blankTail segment := by
  have kept : ':' ∈ trimEnd segment := (mem_trimEnd_iff (by decide) segment).mpr colon
  have some : ¬ (trimEnd segment = [] ∨ ':' ∉ trimEnd segment) := by
    rw [not_or, not_not]
    exact ⟨List.ne_nil_of_mem kept, kept⟩
  have sought : holds ("!important" : Text) (trimEnd segment) = holds markText segment :=
    holds_trimEnd segment
  rw [markSegment, if_neg some, sought]

theorem markSegment_declaration {front : Text} (bare : '!' ∉ front) (value : Text)
    (followed : Bool) :
    markSegment (front ++ ':' :: value) followed =
      front ++ ':' :: (trimEnd value ++ (if holds markText value then [] else importantMark) ++
        (if followed then [] else [';']) ++ blankTail value) := by
  have found : holds markText (front ++ ':' :: value) = holds markText value := by
    have colon : ∀ c ∈ (':' :: value).head?, c ∉ markText := by
      rintro c ⟨⟩
      decide
    have first : startsWith markText (':' :: value) = startsWith markText [] :=
      startsWith_append colon []
    have none : startsWith markText [] = false := by decide
    rw [holds_append colon, holds_of_not_mem (c := '!') (by decide) bare, Bool.false_or, holds,
      first, none, Bool.false_or]
  rw [markSegment_of_mem (by simp), found, trimEnd_append_cons (by decide),
    blankTail_append_cons (by decide)]
  simp only [List.append_assoc, List.cons_append]

end Marks

/-! ## Bodies -/

/-- Every declaration marked and ended; the blanks behind a last value stay
behind its semicolon. -/
def important : Body → Body
  | .done tail => .done tail
  | .unended lead name value =>
    .declaration lead name (marked (trimEnd value)) (.done (blankTail value))
  | .declaration lead name value rest => .declaration lead name (marked value) (important rest)
  | .block head inner rest => .block head (important inner) (important rest)

/-- Strings and parentheses of every value are closed, escapes read, and no mark
of the syntax stands outside them. -/
abbrev Written (b : Body) : Prop := b.Each (fun d => values.Closed d.2) fun _ => True

/-- Values and selectors are closed too when no backslash escapes, and no value
has its only mark in a string. -/
abbrev Plain (b : Body) : Prop :=
  b.Each (fun d => segments.Closed d.2 ∧ (holds markText d.2 = true → marks d.2 ≠ 0))
    segments.Closed

section Bodies

variable {b : Body} {lead name value rest : Text}

theorem closed_declaration (blank : isBlankText lead = true) (word : name.all isWordChar = true)
    (closed : segments.Closed value) : segments.Closed (lead ++ name ++ ':' :: value) := by
  have front := Reading.closed_front segments_marks (by decide) blank word
  rw [← List.singleton_append, ← List.append_assoc]
  exact front.append closed

theorem marked_of_holds (only : holds markText value = true → marks value ≠ 0) :
    marked value =
      trimEnd value ++ (if holds markText value then [] else importantMark) ++ blankTail value := by
  rw [marked]
  cases h : holds markText value with
  | true => rw [if_neg (only h), if_pos rfl, List.append_nil, trimEnd_append_blankTail]
  | false =>
    have unmarked : marks value = 0 := marksFrom_of_not_holds h _
    rw [if_pos unmarked, if_neg Bool.false_ne_true]

theorem markSegment_ended_iff (bare : '!' ∉ lead ++ name) :
    markSegment (lead ++ name ++ ':' :: value) true = lead ++ name ++ ':' :: marked value ↔
      (holds markText value = true → marks value ≠ 0) := by
  rw [markSegment_declaration bare, if_pos rfl, List.append_nil]
  constructor
  · intro same found unmarked
    rw [marked, if_pos unmarked, if_pos found] at same
    have mark : importantMark.length = 11 := by decide
    have lengths := congrArg List.length same
    simp only [List.length_append, List.length_cons, List.length_nil, mark] at lengths
    omega
  · intro only
    rw [marked_of_holds only]

theorem markSegment_unended (bare : '!' ∉ lead ++ name)
    (only : holds markText value = true → marks value ≠ 0) :
    markSegment (lead ++ name ++ ':' :: value) false =
      lead ++ name ++ ':' :: (marked (trimEnd value) ++ ';' :: blankTail value) := by
  have only' : holds markText (trimEnd value) = true → marks (trimEnd value) ≠ 0 := by
    rw [holds_trimEnd, marks_trimEnd]
    exact only
  have trimmed := marked_of_holds only'
  rw [trimEnd_trimEnd, blankTail_trimEnd, List.append_nil, holds_trimEnd] at trimmed
  rw [markSegment_declaration bare, trimmed, if_neg Bool.false_ne_true]
  simp only [List.append_assoc, List.cons_append, List.nil_append]

theorem markSegment_of_blank (blank : isBlankText rest = true) : markSegment rest false = rest :=
  markSegment_of_not_mem (not_mem_of_blank (by decide) blank) false

/-- Inside a block and at the end of the text, a body is replaced by its marked
one whatever follows. -/
theorem markImportant_print_append (plain : Plain b) (leaves : Leaves rest) :
    markImportant (b.print ++ rest) = (important b).print ++ markImportant rest := by
  induction b generalizing rest with
  | done tail =>
    rw [Body.print, markImportant_append (closed_of_blank plain.laid) leaves,
      markSegment_of_blank plain.laid]
    rfl
  | unended lead name value =>
    obtain ⟨blank, word, ends, only⟩ := plain.of_unended
    have closed := closed_declaration blank word ends
    have bare : '!' ∉ lead ++ name := not_mem_front blank word (by decide)
    rw [Body.print, markImportant_append closed leaves, markSegment_unended bare only]
    simp only [important, Body.print]
  | declaration lead name value after ih =>
    obtain ⟨⟨blank, word, ends, only⟩, plain⟩ := plain.of_declaration
    have closed := closed_declaration blank word ends
    have bare : '!' ∉ lead ++ name := not_mem_front blank word (by decide)
    rw [important, Body.print_declaration_append, Body.print_declaration_append,
      markImportant_append_cons closed rfl, if_neg (by decide), beq_self_eq_true,
      (markSegment_ended_iff bare).mpr only, ih plain leaves]
  | block head inner after ihi iha =>
    obtain ⟨closed, plainInner, plainAfter⟩ := plain.of_block
    have brace : markImportant ('}' :: (after.print ++ rest)) =
        '}' :: markImportant (after.print ++ rest) := markImportant_append_cons .nil rfl _
    rw [important, Body.print_block_append, Body.print_block_append,
      markImportant_append_cons closed rfl, if_pos rfl, ihi plainInner (.inr ⟨_, rfl⟩), brace,
      iha plainAfter leaves]

theorem ended_important (b : Body) : (important b).ended = true := by
  induction b with
  | done tail => rfl
  | unended lead name value => rfl
  | declaration lead name value after ih => exact ih
  | block head inner after ihi iha => rw [important, Body.ended, ihi, iha]; rfl

theorem marks_important (closed : ∀ d ∈ b.declared, CommentScan.outside.run d.2 = .outside) :
    (important b).declared.map (fun d => marks d.2) =
      b.declared.map fun d => max 1 (marks d.2) := by
  induction b with
  | done tail => rfl
  | unended lead name value =>
    have trimmed := run_trimEnd (closed (name, value) List.mem_cons_self)
    simp only [important, Body.declared, List.map_cons, List.map_nil, marks_marked trimmed,
      marks_trimEnd]
  | declaration lead name value after ih =>
    have first := marks_marked (closed (name, value) List.mem_cons_self)
    have others := ih fun d hd => closed d (List.mem_cons_of_mem _ hd)
    simp only [important, Body.declared, List.map_cons, first, others]
  | block head inner after ihi iha =>
    have inside := ihi fun d hd => closed d (List.mem_append_left _ hd)
    have others := iha fun d hd => closed d (List.mem_append_right _ hd)
    simp only [important, Body.declared, List.map_append, inside, others]

/-- Of a printed body exactly the marks and semicolons that its declarations
lack are added. -/
theorem markImportant_print (written : Written b) (plain : Plain b) :
    markImportant b.print = (important b).print ∧ (important b).ended = true ∧
      (important b).declared.map (fun d => marks d.2) =
        b.declared.map fun d => max 1 (marks d.2) := by
  refine ⟨?_, ended_important b, marks_important ?_⟩
  · have alone := markImportant_print_append plain (.inl rfl)
    rwa [List.append_nil, markImportant_of_closed .nil, show markSegment [] false = [] from rfl,
      List.append_nil] at alone
  · intro d hd
    have strings := commentScan_place_run (r := values) rfl .top d.2
    rw [(written.declared d hd).closed] at strings
    exact strings.symm

end Bodies

def figure : Body :=
  .declaration [] "content" " \"a;b\"" <| .declaration " " "margin" " 0 !important" <|
    .block " & h1 " (.unended " " "background" " url(c;d) ") (.done [])

theorem figure_marked : Written figure ∧ Plain figure ∧
    markImportant figure.print = (important figure).print := by
  have written : Written figure := ⟨by decide, by decide, by decide⟩
  have plain : Plain figure := ⟨by decide, by decide, by decide⟩
  exact ⟨written, plain, (markImportant_print written plain).1⟩

example : (important figure).print =
    ("content: \"a;b\" !important; margin: 0 !important; & h1 \x7b background: url(c;d) !important; \x7d" :
      Text) := by decide

def quoted : Body :=
  .declaration [] "content" " \"\\\"\"" (.declaration " " "color" " red" (.done []))

theorem escaped_quote_unmarked :
    Written quoted ∧ markImportant quoted.print ≠ (important quoted).print := by
  refine ⟨⟨by decide, by decide, by decide⟩, ?_⟩
  decide +kernel

/-- A mark in a string counts. -/
example : markImportant "content: \"!important\";" = ("content: \"!important\";" : Text) := by
  decide +kernel

end UtilityLayer.Rule
