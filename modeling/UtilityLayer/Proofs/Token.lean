import UtilityLayer.Proofs.Text.Join
import UtilityLayer.Token

/-!
# Tokens and their base classes

A token is its variant segments, each with a colon after it, and its base. A
plain token is its own base class; a decorated one never is. A segment with its
colon before a token adds its variant, or itself to what is ignored, and changes
nothing else: the brackets of the segment are closed where the token begins.
-/

set_option autoImplicit false

namespace UtilityLayer.Token

open Text

theorem join_segmentsFrom (depth : Nat) (t : Text) : join [':'] (segmentsFrom depth t) = t := by
  induction t generalizing depth with
  | nil => rfl
  | cons c t ih =>
    rw [segmentsFrom]
    split
    · rename_i hc
      rw [join_nil_cons ':' (segmentsFrom_ne_nil 0 t), ih, hc.1]
    · dsimp only
      generalize (if c = '[' ∨ c = '(' then depth + 1
        else if c = ']' ∨ c = ')' then depth - 1 else depth) = inner
      have rest := ih inner
      obtain ⟨s, ss, hs⟩ := List.exists_cons_of_ne_nil (segmentsFrom_ne_nil inner t)
      rw [hs] at rest ⊢
      rw [join_cons_head, rest]

theorem eq_lead_base (t : Text) :
    t = (variantSegments t).flatMap (fun s => s ++ [':']) ++ base t := by
  have whole := join_segmentsFrom 0 t
  rw [← List.dropLast_concat_getLast (segmentsFrom_ne_nil 0 t), join_concat] at whole
  exact whole.symm

theorem base_of_no_variants {t : Text} (h : variantSegments t = []) : base t = t := by
  have whole := eq_lead_base t
  rw [h] at whole
  exact whole.symm

theorem length_base_lt {t : Text} (h : variantSegments t ≠ []) : (base t).length < t.length := by
  obtain ⟨s, ss, hs⟩ := List.exists_cons_of_ne_nil h
  have whole := congrArg List.length (eq_lead_base t)
  rw [hs, List.flatMap_cons, List.length_append, List.length_append, List.length_append] at whole
  simp only [List.length_singleton] at whole
  omega

theorem readBase_cases (b : Text) :
    readBase b = (false, b) ∨ ∃ rest, readBase b = (true, rest) ∧ b = '!' :: rest := by
  rw [readBase]
  split
  · rename_i rest h
    exact .inr ⟨rest, rfl, after?_eq_some_iff.mp h⟩
  · exact .inl rfl

theorem important_or_base_class (table : Variant.Table) (raw : Text) :
    ((parse table raw).important = false ∧ (parse table raw).baseClass = base raw) ∨
      ((parse table raw).important = true ∧ base raw = '!' :: (parse table raw).baseClass) := by
  simp only [parse]
  obtain plain | ⟨rest, marked, written⟩ := readBase_cases (base raw)
  · rw [plain]
    exact .inl ⟨rfl, rfl⟩
  · rw [marked]
    exact .inr ⟨rfl, written⟩

/-- Coverage finds the base class that the parser finds. -/
theorem baseClassOf_eq (table : Variant.Table) (raw : Text) :
    baseClassOf raw = (parse table raw).baseClass := by
  have last : (segments raw).getLast? = some (base raw) :=
    List.getLast?_eq_some_getLast (segmentsFrom_ne_nil 0 raw)
  simp only [baseClassOf, last, Option.getD_some, parse, readBase]
  cases after? "!" (base raw) with
  | none => rfl
  | some rest => rfl

variable {table : Variant.Table} {raw : Text}

theorem baseClass_of_plain (plain : (parse table raw).isUndecorated = true)
    (understood : (parse table raw).isUnderstood = true) : (parse table raw).baseClass = raw := by
  simp only [isUndecorated, Bool.and_eq_true, List.isEmpty_iff, Bool.not_eq_true'] at plain
  obtain ⟨variants, unmarked⟩ := plain
  simp only [isUnderstood, parse, List.isEmpty_iff, List.filter_eq_nil_iff] at understood
  have none : variantSegments raw = [] := by
    apply List.eq_nil_iff_forall_not_mem.mpr
    intro s hs
    apply understood s hs
    rw [List.filterMap_eq_nil_iff.mp variants s hs]
    rfl
  rcases important_or_base_class table raw with ⟨-, same⟩ | ⟨marked, -⟩
  · rw [same, base_of_no_variants none]
  · rw [marked] at unmarked
    cases unmarked

theorem baseClass_ne_of_decorated (decorated : (parse table raw).isUndecorated = false) :
    (parse table raw).baseClass ≠ raw := by
  have shorter : (base raw).length ≤ raw.length := by
    have whole := congrArg List.length (eq_lead_base raw)
    rw [List.length_append] at whole
    omega
  have lt : (parse table raw).baseClass.length < raw.length := by
    rcases important_or_base_class table raw with ⟨unmarked, same⟩ | ⟨-, written⟩
    · have some : variantSegments raw ≠ [] := by
        intro none
        rw [isUndecorated, unmarked, parse, none] at decorated
        cases decorated
      rw [same]
      exact length_base_lt some
    · rw [written, List.length_cons] at shorter
      omega
  intro same
  rw [same] at lt
  omega

/-! ## A segment before a token -/

/-- The depth of the brackets behind a character. -/
def nest (depth : Nat) (c : Char) : Nat :=
  if c = '[' ∨ c = '(' then depth + 1 else if c = ']' ∨ c = ')' then depth - 1 else depth

/-- Brackets are closed at the end, and every colon stands inside some. -/
structure IsSegment (v : Text) : Prop where
  closed : v.foldl nest 0 = 0
  inside : ∀ a b, v = a ++ ':' :: b → a.foldl nest 0 ≠ 0

theorem segmentsFrom_append {depth : Nat} {v : Text} (closed : v.foldl nest depth = 0)
    (inside : ∀ a b, v = a ++ ':' :: b → a.foldl nest depth ≠ 0) (r : Text) :
    segmentsFrom depth (v ++ ':' :: r) = v :: segments r := by
  induction v generalizing depth with
  | nil =>
    have outer : depth = 0 := closed
    rw [List.nil_append, segmentsFrom, if_pos ⟨rfl, outer⟩]
    rfl
  | cons c v ih =>
    have goesOn : ¬ (c = ':' ∧ depth = 0) := by
      rintro ⟨rfl, outer⟩
      exact inside [] v rfl outer
    have rest : segmentsFrom (nest depth c) (v ++ ':' :: r) = v :: segments r := by
      apply ih closed
      rintro a b rfl
      exact inside (c :: a) b rfl
    rw [List.cons_append, segmentsFrom, if_neg goesOn]
    dsimp only
    rw [← nest.eq_def, rest]

theorem segments_append {v : Text} (h : IsSegment v) (r : Text) :
    segments (v ++ ':' :: r) = v :: segments r := segmentsFrom_append h.closed h.inside r

theorem segmentsFrom_concat {depth : Nat} {v : Text}
    (h : segmentsFrom depth (v ++ [':']) = [v, []]) :
    v.foldl nest depth = 0 ∧ ∀ a b, v = a ++ ':' :: b → a.foldl nest depth ≠ 0 := by
  induction v generalizing depth with
  | nil =>
    by_cases outer : depth = 0
    · exact ⟨outer, by simp⟩
    · simp [segmentsFrom, outer] at h
  | cons c v ih =>
    rw [List.cons_append, segmentsFrom] at h
    split at h
    · cases h
    · rename_i goesOn
      dsimp only at h
      rw [← nest.eq_def] at h
      obtain ⟨s, ss, hs⟩ := List.exists_cons_of_ne_nil
        (segmentsFrom_ne_nil (nest depth c) (v ++ [':']))
      rw [hs] at h
      obtain ⟨first, rfl⟩ := List.cons.inj h
      obtain ⟨-, rfl⟩ := List.cons.inj first
      obtain ⟨closed, inside⟩ := ih hs
      refine ⟨closed, ?_⟩
      rintro (_ | ⟨d, a⟩) b whole
      · exact fun outer => goesOn ⟨(List.cons.inj whole).1, outer⟩
      · obtain ⟨rfl, rfl⟩ := List.cons.inj whole
        exact inside a b rfl

theorem isSegment_iff {v : Text} : IsSegment v ↔ segments (v ++ [':']) = [v, []] := by
  constructor
  · intro h
    exact segments_append h []
  · intro h
    obtain ⟨closed, inside⟩ := segmentsFrom_concat h
    exact ⟨closed, inside⟩

theorem variantSegments_append {v : Text} (h : IsSegment v) (r : Text) :
    variantSegments (v ++ ':' :: r) = v :: variantSegments r := by
  rw [variantSegments, segments_append h]
  exact List.dropLast_cons_of_ne_nil (segmentsFrom_ne_nil 0 r)

theorem base_append {v : Text} (h : IsSegment v) (r : Text) : base (v ++ ':' :: r) = base r := by
  simp only [base, segments_append h]
  exact List.getLast_cons (segmentsFrom_ne_nil 0 r)

/-- A token with one more segment before it. -/
def under (table : Variant.Table) (v : Text) (t : Token) : Token :=
  match variantOf? table v with
  | some w => { t with raw := v ++ ':' :: t.raw, variants := w :: t.variants }
  | none => { t with raw := v ++ ':' :: t.raw, ignored := v :: t.ignored }

def mark (t : Token) : Text := if t.important then "!" else []

theorem base_eq_mark_append (table : Variant.Table) (raw : Text) :
    base raw = (parse table raw).mark ++ (parse table raw).baseClass := by
  rcases important_or_base_class table raw with ⟨unmarked, same⟩ | ⟨marked, written⟩
  · rw [mark, unmarked, same]
    rfl
  · rw [mark, marked, written]
    rfl

/-- A segment before any token, well formed or not, adds what it stands for. The
segments of every token make it up again, the last of them is its base class with
the mark, and coverage finds the same base class. -/
theorem parse_compositional (table : Variant.Table) (r : Text) :
    (∀ v, IsSegment v → parse table (v ++ ':' :: r) = (parse table r).under table v) ∧
      join [':'] (segments r) = r ∧
      segments r = variantSegments r ++ [(parse table r).mark ++ (parse table r).baseClass] ∧
      baseClassOf r = (parse table r).baseClass := by
  refine ⟨?_, join_segmentsFrom 0 r, ?_, baseClassOf_eq table r⟩
  · intro v segment
    rw [under, parse, base_append segment r, variantSegments_append segment, List.filterMap_cons,
      List.filter_cons]
    cases variantOf? table v with
    | some w => rfl
    | none => rfl
  · rw [← base_eq_mark_append]
    exact (List.dropLast_concat_getLast (segmentsFrom_ne_nil 0 r)).symm

theorem hover_under_malformed :
    IsSegment "[&:hover_(a)]" ∧
      parse .default ("[&:hover_(a)]".toList ++ ':' :: "])sm:wat:!p-[4:x") =
        (parse .default "])sm:wat:!p-[4:x").under .default "[&:hover_(a)]" := by
  have segment : IsSegment "[&:hover_(a)]" := isSegment_iff.mpr (by decide)
  exact ⟨segment, (parse_compositional .default "])sm:wat:!p-[4:x").1 _ segment⟩

end UtilityLayer.Token
