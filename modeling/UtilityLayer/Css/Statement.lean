import UtilityLayer.Css.Scan
import UtilityLayer.Text.Blank

/-!
# Statements

A stylesheet is a sequence of statements: a head followed by a block in braces,
or a head followed by a semicolon. Heads are kept trimmed and bodies as
written. Reading stops before the first text that is no statement, which must
then be blank, and fails at a block that is never closed. Both errors carry the
first forty characters of their place.
-/

set_option autoImplicit false

namespace UtilityLayer.Css

open Text

inductive SheetError where
  | unexpected (place : Text)
  | unclosed (place : Text)
  deriving DecidableEq, Repr

def excerpt (t : Text) : Text := t.take 40

def SheetError.message : SheetError → Text
  | .unexpected place => "CSS syntax error: Unexpected tokens at end of stylesheet: " ++ place
  | .unclosed place => "unbalanced block after `" ++ place ++ "`"

inductive Statement where
  | block (head body : Text)
  | bare (text : Text)
  deriving DecidableEq, Repr

def endsHead (c : Char) : Bool := c == '{' || c == ';' || c == '}'

def splitHead (t : Text) : Text × Text := splitFree endsHead .outside t

inductive Item where
  | read (statement : Statement) (rest : Text)
  | absent
  | unclosed

def readItem (t : Text) : Item :=
  match splitHead t with
  | ([], _) => .absent
  | (head, ';' :: rest) => .read (.bare (trim head)) rest
  | (head, '{' :: rest) =>
    match blockBody 0 .outside rest with
    | some (body, rest) => .read (.block (trim head) body) rest
    | none => .unclosed
  | _ => .absent

theorem readItem_read {t rest : Text} {s : Statement} (h : readItem t = .read s rest) :
    ∃ head, head ≠ [] ∧
      ((t = head ++ ';' :: rest ∧ s = .bare (trim head)) ∨
        ∃ body, t = head ++ '{' :: (body ++ '}' :: rest) ∧ s = .block (trim head) body) := by
  have happ := splitFree_append endsHead .outside t
  rw [readItem, splitHead] at h
  split at h
  · simp at h
  · rename_i head r hne hs
    rw [hs] at happ
    simp only [Item.read.injEq] at h
    obtain ⟨rfl, rfl⟩ := h
    exact ⟨head, hne, .inl ⟨happ.symm, rfl⟩⟩
  · rename_i head r hne hs
    rw [hs] at happ
    split at h
    · rename_i body r' hb
      simp only [Item.read.injEq] at h
      obtain ⟨rfl, rfl⟩ := h
      exact ⟨head, hne, .inr ⟨body, by rw [← blockBody_append hb, ← happ], rfl⟩⟩
    · simp at h
  · simp at h

theorem readItem_length {t rest : Text} {s : Statement} (h : readItem t = .read s rest) :
    rest.length < t.length := by
  obtain ⟨head, -, ⟨rfl, -⟩ | ⟨body, rfl, -⟩⟩ := readItem_read h <;> simp <;> omega

theorem readItem_body_length {t rest head body : Text}
    (h : readItem t = .read (.block head body) rest) : body.length < t.length := by
  obtain ⟨p, -, ⟨-, hs⟩ | ⟨b, rfl, hs⟩⟩ := readItem_read h
  · simp at hs
  · obtain ⟨-, rfl⟩ := Statement.block.inj hs
    simp
    omega

theorem readItem_skipGap_length {t rest : Text} {s : Statement}
    (h : readItem (skipGap t) = .read s rest) : rest.length < t.length :=
  Nat.lt_of_lt_of_le (readItem_length h) (skipGap_length_le t)

/-- The longest run of statements, each after gaps, and the text after it. -/
def readItems (t : Text) : Except SheetError (List Statement × Text) :=
  match _h : readItem (skipGap t) with
  | .read s rest => (readItems rest).map fun (ss, r) => (s :: ss, r)
  | .absent => .ok ([], t)
  | .unclosed => .error (.unclosed (excerpt (skipGap t)))
termination_by t.length
decreasing_by exact readItem_skipGap_length ‹_›

def readSheet (t : Text) : Except SheetError (List Statement) :=
  match readItems t with
  | .error e => .error e
  | .ok (ss, rest) =>
    if trim rest = [] then .ok ss else .error (.unexpected (excerpt (trim rest)))

theorem readItems_body_length {t rest head body : Text} {ss : List Statement}
    (h : readItems t = .ok (ss, rest)) (hm : .block head body ∈ ss) : body.length < t.length := by
  fun_induction readItems t generalizing ss rest with
  | case1 t s r hi ih =>
    cases hr : readItems r with
    | error e => simp [hr, Except.map] at h
    | ok p =>
      obtain ⟨us, u⟩ := p
      simp only [hr, Except.map, Except.ok.injEq, Prod.mk.injEq] at h
      obtain ⟨rfl, rfl⟩ := h
      rcases List.mem_cons.1 hm with rfl | hm
      · exact Nat.lt_of_lt_of_le (readItem_body_length hi) (skipGap_length_le t)
      · exact Nat.lt_trans (ih hr hm) (readItem_skipGap_length hi)
  | case2 t hi => simp_all
  | case3 t hi => simp at h

theorem readSheet_body_length {t head body : Text} {ss : List Statement}
    (h : readSheet t = .ok ss) (hm : .block head body ∈ ss) : body.length < t.length := by
  rw [readSheet] at h
  split at h
  · simp at h
  · rename_i us rest hr
    split at h
    · obtain rfl := Except.ok.inj h
      exact readItems_body_length hr hm
    · simp at h

end UtilityLayer.Css
