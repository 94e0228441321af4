import UtilityLayer.Proofs.Css.Body
import UtilityLayer.Rule.Important

/-!
# Segments of a body

The segments of a body with the characters that end them make up the body, and it
is marked segment by segment. A segment whose strings and parentheses are closed is
read off whatever stands behind it.
-/

set_option autoImplicit false

namespace UtilityLayer.Rule

open Text Css

def segments : Reading where
  opens c := c == '('
  closes c := c == ')'
  stops := endsSegment
  escapes := false

theorem splitSegment_eq (depth : Nat) (quote : Option Char) (t : Text) :
    splitSegment depth quote t = segments.split (.within depth quote) t := by
  apply Reading.eq_split rfl
  case quotes =>
    intro c h
    simp only [isQuote, Bool.or_eq_true, beq_iff_eq] at h
    rcases h with rfl | rfl <;> decide
  case nil =>
    intro d q
    cases q <;> rfl
  case string =>
    intro d q c t
    rw [splitSegment]
  case stop =>
    intro d c t h
    rw [splitSegment]
    exact if_pos h
  case go =>
    intro d c t h
    have goes : ¬ (endsSegment c = true ∧ d = 0) := h
    rw [splitSegment, if_neg goes]
    simp [segments]

/-- A segment and the character that ends it, unless the body ends there. -/
structure Segment where
  text : Text
  ending : Option Char
  deriving DecidableEq, Repr

/-- The segments that the marking of a body goes through. -/
def segmentsOf (body : Text) : List Segment :=
  match _h : splitSegment 0 none body with
  | (segment, []) => [⟨segment, none⟩]
  | (segment, c :: rest) => ⟨segment, some c⟩ :: segmentsOf rest
termination_by body.length
decreasing_by
  have := splitSegment_length_le 0 none body
  rw [_h] at this
  simp at this
  omega

namespace Segment

def source (s : Segment) : Text := s.text ++ s.ending.toList

def marked (s : Segment) : Text :=
  (if s.ending = some '{' then s.text else markSegment s.text (s.ending == some ';')) ++
    s.ending.toList

end Segment

section Segments

variable {body t rest : Text} {c : Char}

theorem segments_marks (c : Char) (h : segments.plain c = false) : c ∈ syntaxMarks := by
  simp only [Reading.plain, segments, endsSegment, isQuote, Bool.and_eq_false_iff,
    Bool.not_eq_false', Bool.or_eq_true, beq_iff_eq] at h
  rcases h with (((rfl | rfl) | rfl) | rfl) | ((rfl | rfl) | rfl) <;> decide

theorem plain_of_blank (blank : isBlankText t = true) : ∀ c ∈ t, segments.plain c = true := by
  intro c hc
  cases h : segments.plain c with
  | true => rfl
  | false => exact absurd hc (not_mem_lead blank (segments_marks c h))

theorem closed_of_blank (blank : isBlankText t = true) : segments.Closed t :=
  Reading.closed_of_plain (plain_of_blank blank)

theorem of_splitSegment (h : splitSegment 0 none body = (t, rest)) :
    body = t ++ rest ∧ segments.uncut .top t = true ∧
      ∀ c ∈ rest.head?, segments.cuts (segments.run .top t) c = true :=
  Reading.of_split ((splitSegment_eq 0 none body).symm.trans h)

theorem splitSegment_of_closed (closed : segments.Closed t) (ends : segments.Ends rest) :
    splitSegment 0 none (t ++ rest) = (t, rest) := by
  rw [splitSegment_eq]
  exact closed.split_eq ends

theorem splitSegment_eq_iff (stop : endsSegment c = true) :
    splitSegment 0 none (t ++ c :: rest) = (t, c :: rest) ↔ segments.Closed t := by
  rw [splitSegment_eq]
  exact Reading.Closed.iff_split_eq stop

theorem segmentsOf_of_split_nil (h : splitSegment 0 none body = (t, [])) :
    segmentsOf body = [⟨t, none⟩] := by
  rw [segmentsOf]
  split
  · rename_i s hs
    rw [h] at hs
    rw [(Prod.mk.inj hs).1]
  · rename_i s d r hs
    rw [h] at hs
    cases hs

theorem segmentsOf_of_split_cons (h : splitSegment 0 none body = (t, c :: rest)) :
    segmentsOf body = ⟨t, some c⟩ :: segmentsOf rest := by
  rw [segmentsOf]
  split
  · rename_i s hs
    rw [h] at hs
    cases hs
  · rename_i s d r hs
    rw [h] at hs
    cases hs
    rfl

theorem segmentsOf_of_closed (closed : segments.Closed t) : segmentsOf t = [⟨t, none⟩] := by
  have alone : splitSegment 0 none (t ++ []) = (t, []) :=
    splitSegment_of_closed closed (by simp [Reading.Ends])
  rw [List.append_nil] at alone
  exact segmentsOf_of_split_nil alone

theorem segmentsOf_append_cons (closed : segments.Closed t) (stop : endsSegment c = true)
    (rest : Text) : segmentsOf (t ++ c :: rest) = ⟨t, some c⟩ :: segmentsOf rest :=
  segmentsOf_of_split_cons ((splitSegment_eq_iff stop).mpr closed)

theorem source_segmentsOf (body : Text) : (segmentsOf body).flatMap Segment.source = body := by
  have whole := splitSegment_append 0 none body
  fun_induction segmentsOf body with
  | case1 body segment h =>
    rw [h] at whole
    simpa [Segment.source] using whole
  | case2 body segment c rest h ih =>
    rw [h] at whole
    rw [List.flatMap_cons, ih (splitSegment_append 0 none rest), Segment.source]
    simpa using whole

theorem markImportant_eq (body : Text) :
    markImportant body = (segmentsOf body).flatMap Segment.marked := by
  fun_induction markImportant body with
  | case1 body segment h =>
    rw [segmentsOf_of_split_nil h]
    simp [Segment.marked]
  | case2 body segment c rest h ih =>
    rw [segmentsOf_of_split_cons h, List.flatMap_cons, ih]
    simp [Segment.marked]

theorem markImportant_of_closed (closed : segments.Closed t) :
    markImportant t = markSegment t false := by
  rw [markImportant_eq, segmentsOf_of_closed closed]
  simp [Segment.marked]

theorem markImportant_append_cons (closed : segments.Closed t) (stop : endsSegment c = true)
    (rest : Text) :
    markImportant (t ++ c :: rest) =
      (if c = '{' then t else markSegment t (c == ';')) ++ c :: markImportant rest := by
  rw [markImportant_eq, segmentsOf_append_cons closed stop, List.flatMap_cons, ← markImportant_eq]
  simp [Segment.marked]

theorem markImportant_append (closed : segments.Closed t) (leaves : Leaves rest) :
    markImportant (t ++ rest) = markSegment t false ++ markImportant rest := by
  have empty : markSegment [] false = [] := rfl
  rcases leaves with rfl | ⟨rest, rfl⟩
  · rw [List.append_nil, markImportant_of_closed closed, markImportant_of_closed .nil, empty,
      List.append_nil]
  · rw [markImportant_append_cons closed rfl, ← List.nil_append ('}' :: rest),
      markImportant_append_cons .nil rfl]
    rfl

end Segments

end UtilityLayer.Rule
