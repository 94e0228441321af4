import UtilityLayer.Proofs.Rule.Important

/-!
# Settled segments

Marking inserts marks and semicolons and leaves every character of the body where
it stands, however malformed the body is. A segment is settled if it is no
declaration, or has its mark and is ended by a semicolon: marking leaves settled
segments alone. Where strings and parentheses are closed at the end of a body, its
marked form has settled segments only, and marking it once more changes nothing.
-/

set_option autoImplicit false

namespace UtilityLayer.Rule

open Text Css

/-! ## What is inserted -/

/-- A part of a marked body: text of the author, or what marking inserts. -/
inductive MarkedPart where
  | own (text : Text)
  | mark
  | semicolon
  deriving DecidableEq, Repr

namespace MarkedPart

def text : MarkedPart → Text
  | own t => t
  | mark => importantMark
  | semicolon => [';']

/-- What is left of the part when all that was inserted is deleted. -/
def kept : MarkedPart → Text
  | own t => t
  | mark => []
  | semicolon => []

end MarkedPart

/-- The second text is the first with marks and semicolons inserted. -/
def OnlyMarked (body out : Text) : Prop :=
  ∃ parts : List MarkedPart,
    parts.flatMap MarkedPart.kept = body ∧ parts.flatMap MarkedPart.text = out

namespace OnlyMarked

theorem part (p : MarkedPart) : OnlyMarked p.kept p.text := ⟨[p], by simp, by simp⟩

theorem own (t : Text) : OnlyMarked t t := part (.own t)

theorem append {a b x y : Text} (first : OnlyMarked a x) (second : OnlyMarked b y) :
    OnlyMarked (a ++ b) (x ++ y) := by
  obtain ⟨ps, rfl, rfl⟩ := first
  obtain ⟨qs, rfl, rfl⟩ := second
  exact ⟨ps ++ qs, List.flatMap_append, List.flatMap_append⟩

theorem segment (t : Text) (followed : Bool) : OnlyMarked t (markSegment t followed) := by
  by_cases colon : ':' ∈ t
  · have mark : OnlyMarked [] (if holds markText t then [] else importantMark) := by
      split
      · exact own []
      · exact part .mark
    have semicolon : OnlyMarked [] (if followed then [] else [';']) := by
      split
      · exact own []
      · exact part .semicolon
    have whole := (((own (trimEnd t)).append mark).append semicolon).append (own (blankTail t))
    rwa [List.append_nil, List.append_nil, trimEnd_append_blankTail,
      ← markSegment_of_mem colon] at whole
  · rw [markSegment_of_not_mem colon]
    exact own t

theorem marked (s : Segment) : OnlyMarked s.source s.marked := by
  rw [Segment.source, Segment.marked]
  split
  · exact own _
  · exact (segment s.text _).append (own _)

end OnlyMarked

theorem onlyMarked_markImportant (body : Text) : OnlyMarked body (markImportant body) := by
  have each (ss : List Segment) :
      OnlyMarked (ss.flatMap Segment.source) (ss.flatMap Segment.marked) := by
    induction ss with
    | nil => exact .own []
    | cons s ss ih => exact (OnlyMarked.marked s).append ih
  have all := each (segmentsOf body)
  rwa [source_segmentsOf, ← markImportant_eq] at all

/-! ## Settled segments -/

section Settled

variable {body t rest : Text} {c : Char}

def Segment.Settled (s : Segment) : Prop :=
  ':' ∈ s.text → s.ending ≠ some '{' → holds markText s.text = true ∧ s.ending = some ';'

theorem Segment.Settled.marked_eq {s : Segment} (h : s.Settled) : s.marked = s.source := by
  rw [marked, source]
  split
  · rfl
  · rename_i head
    by_cases colon : ':' ∈ s.text
    · obtain ⟨mark, ended⟩ := h colon head
      rw [markSegment_of_mem colon, if_pos mark, ended]
      simp [trimEnd_append_blankTail]
    · rw [markSegment_of_not_mem colon]

def AllSettled (t : Text) : Prop := ∀ s ∈ segmentsOf t, s.Settled

theorem AllSettled.markImportant_eq (h : AllSettled t) : markImportant t = t := by
  have each : (segmentsOf t).flatMap Segment.marked = (segmentsOf t).flatMap Segment.source :=
    List.flatMap_congr fun s hs => (h s hs).marked_eq
  rw [Rule.markImportant_eq, each, source_segmentsOf]

theorem allSettled_of_closed (closed : segments.Closed t) (settled : Segment.Settled ⟨t, none⟩) :
    AllSettled t := by
  rw [AllSettled, segmentsOf_of_closed closed, List.forall_mem_singleton]
  exact settled

theorem allSettled_append_cons (closed : segments.Closed t) (stop : endsSegment c = true)
    (settled : Segment.Settled ⟨t, some c⟩) (others : AllSettled rest) :
    AllSettled (t ++ c :: rest) := by
  rw [AllSettled, segmentsOf_append_cons closed stop, List.forall_mem_cons]
  exact ⟨settled, others⟩

theorem closed_trimEnd_mark (closed : segments.Closed t) :
    segments.Closed (trimEnd t ++ if holds markText t then [] else importantMark) ∧
      holds markText (trimEnd t ++ if holds markText t then [] else importantMark) = true := by
  have tail := plain_of_blank (isBlankText_blankTail t)
  have trimmed : segments.Closed (trimEnd t) := by
    rw [← trimEnd_append_blankTail t] at closed
    exact closed.of_append_plain tail
  cases found : holds markText t with
  | true =>
    rw [if_pos rfl, List.append_nil, holds_trimEnd]
    exact ⟨trimmed, found⟩
  | false =>
    have mark : segments.Closed importantMark := by decide
    have apart : ∀ c ∈ importantMark.head?, c ∉ markText := by
      rintro c ⟨⟩
      decide
    rw [if_neg Bool.false_ne_true, holds_append apart]
    exact ⟨trimmed.append mark, Bool.or_eq_true_iff.mpr (.inr (by decide))⟩

theorem allSettled_ended (closed : segments.Closed t) (others : AllSettled rest) :
    AllSettled (markSegment t true ++ ';' :: rest) := by
  by_cases colon : ':' ∈ t
  · obtain ⟨front, mark⟩ := closed_trimEnd_mark closed
    have blank := isBlankText_blankTail t
    rw [markSegment_of_mem colon, if_pos rfl, List.append_nil]
    apply allSettled_append_cons (front.append (closed_of_blank blank)) rfl _ others
    intro _ _
    have found : holds markText (blankTail t) = false := not_holds_of_blank blank
    rw [holds_append (apart_of_blank blank), mark]
    exact ⟨rfl, rfl⟩
  · rw [markSegment_of_not_mem colon]
    exact allSettled_append_cons closed rfl (fun mem => absurd mem colon) others

/-- A segment in front of the end of its block or of the body: its blanks become a
segment of their own if it gets a semicolon. -/
theorem allSettled_unended (closed : segments.Closed t)
    (behind : ∀ u, segments.Closed u → ':' ∉ u → AllSettled (u ++ rest)) :
    AllSettled (markSegment t false ++ rest) := by
  by_cases colon : ':' ∈ t
  · obtain ⟨front, mark⟩ := closed_trimEnd_mark closed
    have blank := isBlankText_blankTail t
    rw [markSegment_of_mem colon, if_neg Bool.false_ne_true, List.append_assoc, List.append_assoc,
      List.singleton_append]
    apply allSettled_append_cons front rfl (fun _ _ => ⟨mark, rfl⟩)
    exact behind _ (closed_of_blank blank) (not_mem_of_blank (by decide) blank)
  · rw [markSegment_of_not_mem colon]
    exact behind t closed colon

theorem step_of_endsSegment (stop : endsSegment c = true) : segments.step .top c = .top := by
  simp only [endsSegment, Bool.or_eq_true, beq_iff_eq] at stop
  rcases stop with (rfl | rfl) | rfl <;> decide

theorem allSettled_markImportant (closed : segments.run .top body = .top) :
    AllSettled (markImportant body) := by
  fun_induction markImportant body with
  | case1 body segment h =>
    obtain ⟨whole, inside, -⟩ := of_splitSegment h
    rw [List.append_nil] at whole
    obtain rfl := whole
    have last : AllSettled (markSegment body false ++ []) := by
      apply allSettled_unended ⟨inside, closed⟩
      intro u hu colon
      rw [List.append_nil]
      exact allSettled_of_closed hu fun mem => absurd mem colon
    rwa [List.append_nil] at last
  | case2 body segment c rest h ih =>
    obtain ⟨rfl, inside, ends⟩ := of_splitSegment h
    have cut := ends c rfl
    rw [Reading.cuts, Bool.and_eq_true, beq_iff_eq] at cut
    obtain ⟨top, stop⟩ := cut
    have front : segments.Closed segment := ⟨inside, top⟩
    have others : AllSettled (markImportant rest) := by
      rw [Reading.run_append, top] at closed
      have behind : segments.run (segments.step .top c) rest = .top := closed
      rw [step_of_endsSegment stop] at behind
      exact ih behind
    have ending : (c = ';' ∨ c = '}') ∨ c = '{' := by
      simpa [segments, endsSegment] using stop
    rcases ending with (rfl | rfl) | rfl
    · rw [if_neg (by decide)]
      exact allSettled_ended front others
    · rw [if_neg (by decide)]
      apply allSettled_unended front
      intro u hu colon
      exact allSettled_append_cons hu rfl (fun mem => absurd mem colon) others
    · rw [if_pos rfl]
      exact allSettled_append_cons front rfl (fun _ head => absurd rfl head) others

/-- Marking only inserts marks and semicolons. Where the strings and parentheses of
a body are closed at its end, marking again changes nothing: every segment of the
result with a colon, unless it is the head of a block, has its mark and a semicolon
behind it. -/
theorem markImportant_conservative (body : Text) :
    OnlyMarked body (markImportant body) ∧
      (segments.run .top body = .top →
        markImportant (markImportant body) = markImportant body ∧
          ∀ s ∈ segmentsOf (markImportant body), ':' ∈ s.text → s.ending ≠ some '{' →
            holds markText s.text = true ∧ s.ending = some ';') := by
  refine ⟨onlyMarked_markImportant body, fun closed => ?_⟩
  have settled := allSettled_markImportant closed
  exact ⟨settled.markImportant_eq, settled⟩

def crooked : Text :=
  ") color: red \x7d : url(x;\x7d) ; &:hover \x7b \"\x7d\" : 0  "

theorem crooked_marked_once : segments.run .top crooked = .top ∧
    OnlyMarked crooked (markImportant crooked) ∧
    markImportant (markImportant crooked) = markImportant crooked ∧
    ∃ s ∈ segmentsOf (markImportant crooked), s.text = " \"\x7d\" : 0 !important".toList ∧
      holds markText s.text = true ∧ s.ending = some ';' := by
  have closed : segments.run .top crooked = .top := by decide
  have last : (⟨" \"\x7d\" : 0 !important".toList, some ';'⟩ : Segment) ∈
      segmentsOf (markImportant crooked) := by decide +kernel
  obtain ⟨only, again⟩ := markImportant_conservative crooked
  obtain ⟨same, settled⟩ := again closed
  exact ⟨closed, only, same, _, last, rfl, settled _ last (by decide) (by decide)⟩

/-- Inside a string that is never closed a semicolon ends nothing, and another one
is put behind it. -/
example : markImportant "content: \"a" = ("content: \"a !important;" : Text) ∧
    markImportant "content: \"a !important;" = ("content: \"a !important;;" : Text) := by
  decide +kernel

end Settled

end UtilityLayer.Rule
