import UtilityLayer.Proofs.Css.Comment
import UtilityLayer.Proofs.Text.Blank

/-!
# Printed bodies

A body is printed from its declarations and the blocks nested in it. Readers of
its text keep track of strings and brackets and stop at the marks outside them;
they differ in the brackets, in the marks, and in whether a backslash escapes in
a string. A text is closed for a reading if the reading meets no mark in it and
stands behind it where it began: then what follows the text is read as if it
stood alone.
-/

set_option autoImplicit false

namespace UtilityLayer.Css

open Text

/-- Where a reader of brackets and strings stands, with the brackets still open. -/
inductive Place where
  | outside (depth : Nat)
  | inString (depth : Nat) (quote : Char)
  | afterEscape (depth : Nat) (quote : Char)
  deriving DecidableEq, Repr

namespace Place

def top : Place := .outside 0

def within (depth : Nat) : Option Char → Place
  | none => .outside depth
  | some q => .inString depth q

def Quoted : Place → Prop
  | .outside _ => True
  | .inString _ q => isQuote q = true
  | .afterEscape _ q => isQuote q = true

def commentScan : Place → CommentScan
  | .outside _ => .outside
  | .inString _ q => .inString q
  | .afterEscape _ q => .afterEscape q

end Place

structure Reading where
  opens : Char → Bool
  closes : Char → Bool
  stops : Char → Bool
  /-- A backslash in a string escapes the character after it. -/
  escapes : Bool

namespace Reading

def step (r : Reading) : Place → Char → Place
  | .outside d, c =>
    if isQuote c then .inString d c
    else .outside (if r.opens c then d + 1 else if r.closes c then d - 1 else d)
  | .inString d q, c =>
    if r.escapes && c == '\\' then .afterEscape d q
    else if c = q then .outside d
    else .inString d q
  | .afterEscape d q, _ => .inString d q

def run (r : Reading) (p : Place) (t : Text) : Place := t.foldl r.step p

def cuts (r : Reading) (p : Place) (c : Char) : Bool := p == .top && r.stops c

def split (r : Reading) : Place → Text → Text × Text
  | _, [] => ([], [])
  | p, c :: t =>
    if r.cuts p c then ([], c :: t)
    else
      let (a, b) := r.split (r.step p c) t
      (c :: a, b)

/-- No character of the text is a mark outside strings and brackets. -/
def uncut (r : Reading) : Place → Text → Bool
  | _, [] => true
  | p, c :: t => !r.cuts p c && r.uncut (r.step p c) t

def Ends (r : Reading) (t : Text) : Prop := ∀ c ∈ t.head?, r.stops c = true

structure Closed (r : Reading) (t : Text) : Prop where
  uncut : r.uncut .top t = true
  closed : r.run .top t = .top

instance (r : Reading) (t : Text) : Decidable (r.Closed t) :=
  decidable_of_iff (r.uncut .top t = true ∧ r.run .top t = .top)
    ⟨fun h => ⟨h.1, h.2⟩, fun h => ⟨h.uncut, h.closed⟩⟩

variable {r : Reading} {a b t rest : Text}

theorem run_append (r : Reading) (p : Place) (a b : Text) :
    r.run p (a ++ b) = r.run (r.run p a) b := List.foldl_append

theorem uncut_append (r : Reading) (p : Place) (a b : Text) :
    r.uncut p (a ++ b) = (r.uncut p a && r.uncut (r.run p a) b) := by
  induction a generalizing p with
  | nil => rfl
  | cons c a ih => rw [List.cons_append, uncut, uncut, ih, Bool.and_assoc]; rfl

theorem eq_split {f : Nat → Option Char → Text → Text × Text} (escapes : r.escapes = false)
    (quotes : ∀ c, isQuote c = true → r.opens c = false ∧ r.closes c = false)
    (nil : ∀ d q, f d q [] = ([], []))
    (string : ∀ d q c t, f d (some q) (c :: t) =
      (c :: (f d (if c = q then none else some q) t).1,
        (f d (if c = q then none else some q) t).2))
    (stop : ∀ d c t, r.stops c = true ∧ d = 0 → f d none (c :: t) = ([], c :: t))
    (go : ∀ d c t, ¬ (r.stops c = true ∧ d = 0) → f d none (c :: t) =
      let next := f (if r.opens c then d + 1 else if r.closes c then d - 1 else d)
        (if isQuote c then some c else none) t
      (c :: next.1, next.2))
    (depth : Nat) (quote : Option Char) (t : Text) :
    f depth quote t = r.split (.within depth quote) t := by
  induction t generalizing depth quote with
  | nil => rw [nil, split]
  | cons c t ih =>
    cases quote with
    | some q =>
      have step : r.step (.within depth (some q)) c =
          .within depth (if c = q then none else some q) := by
        rw [Place.within, Reading.step, escapes, Bool.false_and, if_neg Bool.false_ne_true]
        split <;> rfl
      have inside : r.cuts (.within depth (some q)) c = false := rfl
      rw [string, split, inside, step, ih]
      rfl
    | none =>
      have step : r.step (.within depth none) c =
          .within (if r.opens c then depth + 1 else if r.closes c then depth - 1 else depth)
            (if isQuote c then some c else none) := by
        rw [Place.within, Reading.step]
        cases h : isQuote c with
        | true => simp [quotes c h, Place.within]
        | false => rfl
      have cuts : r.cuts (.within depth none) c = true ↔ r.stops c = true ∧ depth = 0 := by
        simp [Reading.cuts, Place.within, Place.top, and_comm]
      rw [split, step]
      by_cases h : r.stops c = true ∧ depth = 0
      · rw [if_pos (cuts.mpr h), stop depth c t h]
      · rw [if_neg (fun hc => h (cuts.mp hc)), go depth c t h, ih]

theorem split_append {p : Place} (h : r.uncut p a = true) (rest : Text) :
    r.split p (a ++ rest) =
      (a ++ (r.split (r.run p a) rest).1, (r.split (r.run p a) rest).2) := by
  induction a generalizing p with
  | nil => rfl
  | cons c a ih =>
    rw [uncut, Bool.and_eq_true, Bool.not_eq_true'] at h
    rw [List.cons_append, split, if_neg (by simp [h.1]), ih h.2]
    rfl

theorem split_of_ends (ends : r.Ends rest) : r.split .top rest = ([], rest) := by
  cases rest with
  | nil => rfl
  | cons c rest =>
    have stop : r.stops c = true := ends c rfl
    rw [split, if_pos (by simp [cuts, stop])]

theorem of_split {p : Place} (h : r.split p t = (a, b)) :
    t = a ++ b ∧ r.uncut p a = true ∧ ∀ c ∈ b.head?, r.cuts (r.run p a) c = true := by
  induction t generalizing p a with
  | nil =>
    obtain ⟨rfl, rfl⟩ := Prod.mk.inj h
    exact ⟨rfl, rfl, by simp⟩
  | cons c t ih =>
    rw [split] at h
    split at h
    · rename_i cut
      obtain ⟨rfl, rfl⟩ := Prod.mk.inj h
      refine ⟨rfl, rfl, ?_⟩
      rintro d ⟨⟩
      exact cut
    · rename_i goesOn
      obtain ⟨rfl, rfl⟩ := Prod.mk.inj h
      obtain ⟨whole, inside, ends⟩ := ih rfl
      rw [Bool.not_eq_true] at goesOn
      exact ⟨by rw [List.cons_append, ← whole], by rw [uncut, goesOn, inside]; rfl, ends⟩

theorem split_eq_cons_iff {p : Place} {c : Char} (stop : r.stops c = true) :
    r.split p (t ++ c :: rest) = (t, c :: rest) ↔ r.uncut p t = true ∧ r.run p t = .top := by
  induction t generalizing p with
  | nil =>
    by_cases h : p = .top
    · simp [split, cuts, uncut, run, h, stop]
    · simp [split, cuts, run, h]
  | cons d t ih =>
    rw [List.cons_append, split, uncut]
    by_cases h : r.cuts p d = true
    · simp [h]
    · simpa [h, run, Prod.ext_iff] using ih (p := r.step p d)

namespace Closed

theorem split_eq (h : r.Closed t) (ends : r.Ends rest) : r.split .top (t ++ rest) = (t, rest) := by
  rw [split_append h.uncut, h.closed, split_of_ends ends, List.append_nil]

/-- A reading finds the end of exactly the texts that are closed for it. -/
theorem iff_split_eq {c : Char} (stop : r.stops c = true) :
    r.split .top (t ++ c :: rest) = (t, c :: rest) ↔ r.Closed t := by
  rw [split_eq_cons_iff stop]
  exact ⟨fun h => ⟨h.1, h.2⟩, fun h => ⟨h.uncut, h.closed⟩⟩

theorem nil : r.Closed [] := ⟨rfl, rfl⟩

theorem append (ha : r.Closed a) (hb : r.Closed b) : r.Closed (a ++ b) where
  uncut := by rw [uncut_append, ha.uncut, ha.closed, hb.uncut]; rfl
  closed := by rw [run_append, ha.closed, hb.closed]

end Closed

def plain (r : Reading) (c : Char) : Bool := !isQuote c && !r.opens c && !r.closes c && !r.stops c

theorem closed_of_plain (h : ∀ c ∈ t, r.plain c = true) : r.Closed t := by
  induction t with
  | nil => exact .nil
  | cons c t ih =>
    have first : r.Closed [c] := by
      have hc := h c List.mem_cons_self
      simp only [plain, Bool.and_eq_true, Bool.not_eq_true'] at hc
      obtain ⟨⟨⟨quote, opening⟩, closing⟩, stop⟩ := hc
      refine ⟨?_, ?_⟩
      · simp [Reading.uncut, cuts, stop]
      · simp [run, step, Place.top, quote, opening, closing]
    exact first.append (ih fun d hd => h d (List.mem_cons_of_mem c hd))

theorem quoted_run {p : Place} (h : p.Quoted) (t : Text) : (r.run p t).Quoted := by
  induction t generalizing p with
  | nil => exact h
  | cons c t ih =>
    apply ih
    cases p with
    | outside d =>
      rw [step]
      split
      · assumption
      · trivial
    | inString d q =>
      rw [step]
      split
      · exact h
      · split
        · trivial
        · exact h
    | afterEscape d q => exact h

theorem eq_top_of_plain {p : Place} {c : Char} (quoted : p.Quoted) (plain : r.plain c = true)
    (top : r.step p c = .top) : p = .top := by
  simp only [Reading.plain, Bool.and_eq_true, Bool.not_eq_true'] at plain
  obtain ⟨⟨⟨quote, opening⟩, closing⟩, -⟩ := plain
  cases p with
  | outside d => simpa [step, quote, opening, closing] using top
  | inString d q =>
    have other : c ≠ q := by
      rintro rfl
      rw [show isQuote c = true from quoted] at quote
      cases quote
    rw [step, if_neg other] at top
    split at top
    · cases top
    · cases top
  | afterEscape d q => cases top

theorem eq_top_of_run_plain {p : Place} (quoted : p.Quoted) (plain : ∀ c ∈ t, r.plain c = true)
    (top : r.run p t = .top) : p = .top := by
  induction t generalizing p with
  | nil => exact top
  | cons c t ih =>
    have next : r.step p c = .top :=
      ih (quoted_run quoted [c]) (fun d hd => plain d (List.mem_cons_of_mem c hd)) top
    exact eq_top_of_plain quoted (plain c List.mem_cons_self) next

theorem Closed.of_append_plain (h : r.Closed (a ++ b)) (plain : ∀ c ∈ b, r.plain c = true) :
    r.Closed a := by
  have inside := h.uncut
  have top := h.closed
  have start : Place.top.Quoted := trivial
  rw [uncut_append, Bool.and_eq_true] at inside
  rw [run_append] at top
  exact ⟨inside.1, eq_top_of_run_plain (quoted_run start a) plain top⟩

end Reading

theorem commentScan_place_run {r : Reading} (escapes : r.escapes = true) (p : Place) (t : Text) :
    (r.run p t).commentScan = p.commentScan.run t := by
  induction t generalizing p with
  | nil => rfl
  | cons c t ih =>
    have same : (r.step p c).commentScan = p.commentScan.step c := by
      cases p with
      | outside d =>
        rw [Reading.step, Place.commentScan, CommentScan.step]
        split <;> rfl
      | inString d q =>
        rw [Reading.step, escapes, Bool.true_and, Place.commentScan, CommentScan.step]
        by_cases hb : c = '\\'
        · rw [if_pos hb, if_pos (beq_iff_eq.mpr hb)]
          rfl
        · rw [if_neg hb, if_neg (by simp [hb])]
          split <;> rfl
      | afterEscape d q => rfl
    have rest := ih (r.step p c)
    rw [same] at rest
    exact rest

/-- Declarations and nested blocks, up to the brace that ends their block. Only
the last declaration may lack its semicolon, and its value then runs on to the
end. -/
inductive Body where
  | done (tail : Text)
  | unended (lead name value : Text)
  | declaration (lead name value : Text) (rest : Body)
  | block (head : Text) (inner rest : Body)
  deriving DecidableEq, Repr

def syntaxMarks : Text := "\"'()[]\x7b\x7d;:!/"

def isWordChar (c : Char) : Bool := !isBlank c && !syntaxMarks.contains c

namespace Body

def print : Body → Text
  | done tail => tail
  | unended lead name value => lead ++ name ++ ':' :: value
  | declaration lead name value rest => lead ++ name ++ ':' :: (value ++ ';' :: rest.print)
  | block head inner rest => head ++ '{' :: (inner.print ++ '}' :: rest.print)

theorem print_declaration_append (lead name value : Text) (rest : Body) (more : Text) :
    (declaration lead name value rest).print ++ more =
      lead ++ name ++ ':' :: value ++ ';' :: (rest.print ++ more) := by
  simp only [print, List.append_assoc, List.cons_append]

theorem print_block_append (head : Text) (inner rest : Body) (more : Text) :
    (block head inner rest).print ++ more =
      head ++ '{' :: (inner.print ++ '}' :: (rest.print ++ more)) := by
  simp only [print, List.append_assoc, List.cons_append]

/-- The declarations in document order, at any depth, with their values. -/
def declared : Body → List (Text × Text)
  | done _ => []
  | unended _ name value => [(name, value)]
  | declaration _ name value rest => (name, value) :: rest.declared
  | block _ inner rest => inner.declared ++ rest.declared

def heads : Body → List Text
  | done _ => []
  | unended _ _ _ => []
  | declaration _ _ _ rest => rest.heads
  | block head inner rest => head :: (inner.heads ++ rest.heads)

def laid : Body → Bool
  | done tail => isBlankText tail
  | unended lead name _ => isBlankText lead && name.all isWordChar
  | declaration lead name _ rest => isBlankText lead && name.all isWordChar && rest.laid
  | block _ inner rest => inner.laid && rest.laid

/-- Every declaration has its semicolon. -/
def ended : Body → Bool
  | done _ => true
  | unended _ _ _ => false
  | declaration _ _ _ rest => rest.ended
  | block _ inner rest => inner.ended && rest.ended

/-- What is asked of every declaration and every selector of a printed body. -/
structure Each (declaration : Text × Text → Prop) (selector : Text → Prop) (b : Body) : Prop where
  laid : b.laid = true
  declared : ∀ d ∈ b.declared, declaration d
  heads : ∀ h ∈ b.heads, selector h

namespace Each

variable {D : Text × Text → Prop} {S : Text → Prop} {lead name value head : Text} {inner rest : Body}

theorem of_unended (h : (unended lead name value).Each D S) :
    isBlankText lead = true ∧ name.all isWordChar = true ∧ D (name, value) := by
  have laid := h.laid
  rw [Body.laid, Bool.and_eq_true] at laid
  exact ⟨laid.1, laid.2, h.declared _ List.mem_cons_self⟩

theorem of_declaration (h : (declaration lead name value rest).Each D S) :
    (isBlankText lead = true ∧ name.all isWordChar = true ∧ D (name, value)) ∧ rest.Each D S := by
  have laid := h.laid
  rw [Body.laid, Bool.and_eq_true, Bool.and_eq_true] at laid
  refine ⟨⟨laid.1.1, laid.1.2, h.declared _ List.mem_cons_self⟩, laid.2, ?_, h.heads⟩
  exact fun d hd => h.declared d (List.mem_cons_of_mem _ hd)

theorem of_block (h : (block head inner rest).Each D S) :
    S head ∧ inner.Each D S ∧ rest.Each D S := by
  have laid := h.laid
  rw [Body.laid, Bool.and_eq_true] at laid
  refine ⟨h.heads _ List.mem_cons_self, ⟨laid.1, ?_, ?_⟩, ⟨laid.2, ?_, ?_⟩⟩
  · exact fun d hd => h.declared d (List.mem_append_left _ hd)
  · exact fun s hs => h.heads s (List.mem_cons_of_mem _ (List.mem_append_left _ hs))
  · exact fun d hd => h.declared d (List.mem_append_right _ hd)
  · exact fun s hs => h.heads s (List.mem_cons_of_mem _ (List.mem_append_right _ hs))

end Each

end Body

def Leaves (t : Text) : Prop := t = [] ∨ ∃ rest, t = '}' :: rest

section Front

variable {r : Reading} {lead name : Text} {d : Char}

theorem not_mem_lead (blank : isBlankText lead = true) (mark : d ∈ syntaxMarks) : d ∉ lead := by
  have solid : syntaxMarks.all (fun c => !isBlank c) = true := by decide
  have hd := List.all_eq_true.mp solid d mark
  rw [Bool.not_eq_true'] at hd
  exact not_mem_of_blank hd blank

theorem not_mem_front (blank : isBlankText lead = true) (word : name.all isWordChar = true)
    (mark : d ∈ syntaxMarks) : d ∉ lead ++ name := by
  rw [List.mem_append, not_or]
  refine ⟨not_mem_lead blank mark, ?_⟩
  intro hd
  have hw := List.all_eq_true.mp word d hd
  rw [isWordChar, Bool.and_eq_true, Bool.not_eq_true', Bool.not_eq_true',
    List.contains_iff_mem.mpr mark] at hw
  cases hw.2

namespace Reading

theorem closed_of_not_mem {t : Text} (marks : ∀ c, r.plain c = false → c ∈ syntaxMarks)
    (bare : ∀ c ∈ syntaxMarks, c ∉ t) : r.Closed t := by
  apply closed_of_plain
  intro c hc
  cases h : r.plain c with
  | true => rfl
  | false => exact absurd hc (bare c (marks c h))

theorem closed_front (marks : ∀ c, r.plain c = false → c ∈ syntaxMarks)
    (colon : r.plain ':' = true) (blank : isBlankText lead = true)
    (word : name.all isWordChar = true) : r.Closed (lead ++ name ++ [':']) := by
  have front := closed_of_not_mem marks fun c hc => not_mem_front blank word hc
  have behind : r.Closed [':'] := closed_of_plain fun c hc => by
    rw [List.mem_singleton.mp hc, colon]
  exact front.append behind

end Reading

end Front

end UtilityLayer.Css
