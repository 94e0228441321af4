import UtilityLayer.Layer.Critical
import UtilityLayer.Proofs.Selector.Mentions
import UtilityLayer.Proofs.Selector.Pieces

/-!
# The class a composed selector shows

A class selector with a suffix that names no other class shows its own class and
no other, however the suffix is read: as the rest of a compound, as further
compounds, or as no selector at all.
-/

set_option autoImplicit false

namespace UtilityLayer.Layer

open Text Css Selector

/-- What may stand after a class selector and leave its class the only one: a
text that does not go on with the name, has no dot, and no outer comma. -/
structure Suffix (t : Text) : Prop where
  ends : ∀ c u, t = c :: u → c ≠ '\\' ∧ isEscapedNameChar c = false
  dotless : '.' ∉ t
  solid : Solid t

namespace Suffix

theorem nil : Suffix [] where
  ends := by
    intro c u h
    cases h
  dotless := by simp
  solid := .nil

theorem append {a b : Text} (ha : Suffix a) (hb : Suffix b) : Suffix (a ++ b) where
  ends := by
    intro c u h
    cases a with
    | nil => exact hb.ends c u h
    | cons d a =>
      obtain ⟨rfl, -⟩ := List.cons.inj h
      exact ha.ends d a rfl
  dotless := by
    rw [List.mem_append]
    rintro (h | h)
    · exact ha.dotless h
    · exact hb.dotless h
  solid := ha.solid.append hb.solid

theorem readEscaped {t : Text} (h : Suffix t) : readEscaped t = ([], t) := by
  cases t with
  | nil => rw [Css.readEscaped]
  | cons c u =>
    obtain ⟨first, stops⟩ := h.ends c u rfl
    exact readEscaped_of_stop first stops u

end Suffix

variable {name suffix : Text}

theorem escapedName?_before_suffix (nonempty : name ≠ []) (h : Suffix suffix) :
    escapedName? (escape name ++ suffix) = some (name, suffix) := by
  rw [escapedName?_escape_append nonempty, h.readEscaped, List.append_nil]

theorem readSimple_before_suffix (arguments : Text → Option (List Selector.Complex))
    (nonempty : name ≠ []) (h : Suffix suffix) :
    readSimple arguments (classSelector name ++ suffix) = some (.className name, suffix) := by
  have start : classSelector name ++ suffix = '.' :: (escape name ++ suffix) := rfl
  rw [start, readSimple, if_neg (by decide), if_pos rfl, escapedName?_before_suffix nonempty h]
  rfl

theorem names_of_dotless {ps : List Piece} (h : '.' ∉ textOf ps) : Piece.names ps = [] := by
  rw [List.eq_nil_iff_forall_not_mem]
  intro n hn
  obtain ⟨spelling, hp⟩ := Piece.mem_names.mp hn
  exact h (List.mem_flatMap.mpr ⟨_, hp, List.mem_cons_self⟩)

theorem solid_before_suffix (h : Suffix suffix) : Solid (classSelector name ++ suffix) :=
  (whole_classSelector name).toSolid.append h.solid

theorem names_before_suffix (nonempty : name ≠ []) (h : Suffix suffix)
    (trimmed : trim (classSelector name ++ suffix) = classSelector name ++ suffix) :
    Piece.names (piecesOf (classSelector name ++ suffix)) = [name] := by
  have simple := readSimple_before_suffix (readList (classSelector name ++ suffix).length) nonempty h
  have rest : Piece.names (complexPieces (readList (classSelector name ++ suffix).length)
      (listPieces (classSelector name ++ suffix).length) suffix) = [] := by
    apply names_of_dotless
    rw [textOf_complexPieces (textOf_listPieces _)]
    exact h.dotless
  rw [piecesOf, listPieces, (solid_before_suffix h).splitOuter, List.map_singleton,
    List.intercalate_singleton, branchPieces, trimmed, complexPieces_of_read simple rfl]
  have parts (a z : Text) (ps : List Piece) (hp : Piece.names ps = []) :
      Piece.names (.plain a :: (simplePieces (listPieces (classSelector name ++ suffix).length)
        (classSelector name) (.className name) ++ ps ++ [.plain z])) = [name] := by
    have split : Piece.names (.plain a :: (.className name (escape name) :: (ps ++ [.plain z]))) =
        name :: (Piece.names ps ++ []) := by
      simp [Piece.names]
    rw [hp] at split
    exact split
  exact parts _ _ _ rest

theorem mentions_before_suffix (nonempty : name ≠ []) (h : Suffix suffix) :
    mentions (classSelector name ++ suffix) = [name] := by
  have none : mentionsFrom .outside suffix = [] := by
    have passed := mentionsFrom_append (dotted_of_not_mem h.dotless .outside) []
    rw [List.append_nil] at passed
    exact passed
  have start : classSelector name ++ suffix = '.' :: (escape name ++ suffix) := rfl
  have step : MentionScan.outside.step '.' = .outside := rfl
  rw [mentions, start, mentionsFrom, if_pos ⟨rfl, rfl⟩, escapedName?_before_suffix nonempty h, step,
    (silent_escape name).scan, none]

theorem leadClass_readLinks (arguments : Text → Option (List Selector.Complex)) {c : Compound}
    {n : Text} (h : leadClassOfCompound c = some n) (t : Text) :
    (readLinks arguments c t).1.leadClass = some n := by
  rw [readLinks]
  split
  · exact h
  · rw [Complex.leadClass, h]
    rfl

theorem leadClass_before_suffix {x : Selector.Complex} {xs : List Selector.Complex}
    (nonempty : name ≠ []) (h : Suffix suffix)
    (trimmed : trim (classSelector name ++ suffix) = classSelector name ++ suffix)
    (parsed : parseList (classSelector name ++ suffix) = some (x :: xs)) :
    x.leadClass = some name := by
  have simple := readSimple_before_suffix (readList (classSelector name ++ suffix).length) nonempty h
  rw [parseList, readList, (solid_before_suffix h).splitOuter, List.mapM_cons] at parsed
  obtain ⟨y, hy, rest⟩ := Option.bind_eq_some_iff.mp parsed
  obtain ⟨ys, -, heads⟩ := Option.bind_eq_some_iff.mp rest
  obtain ⟨rfl, -⟩ := List.cons.inj (Option.some.inj heads)
  rw [readBranch, trimmed, readComplex, readCompound, readSimples_of_some simple] at hy
  split at hy
  · rename_i x' rest' hx
    split at hy
    · obtain rfl := Option.some.inj hy
      have links := congrArg Prod.fst (Option.some.inj hx)
      have read : x' = (readLinks (readList (classSelector name ++ suffix).length)
          (.className name :: (readSimples (readList (classSelector name ++ suffix).length) suffix).1)
          (readSimples (readList (classSelector name ++ suffix).length) suffix).2).1 := links.symm
      rw [read]
      exact leadClass_readLinks _ rfl _
    · cases hy
  · cases hy

theorem mem_branchSubjects_before_suffix (nonempty : name ≠ []) (h : Suffix suffix)
    (trimmed : trim (classSelector name ++ suffix) = classSelector name ++ suffix) {n : Text} :
    n ∈ branchSubjects (classSelector name ++ suffix) ↔ n = name := by
  have names := names_before_suffix nonempty h trimmed
  rw [branchSubjects.eq_def, trimmed]
  split
  · rename_i x xs parsed
    have only {m : Text} (hm : m ∈ x.subjects.classes) : m = name := by
      have found : m ∈ namesOfBranches (x :: xs) :=
        List.mem_append_left _ (Complex.subjects_subset hm)
      have member := (parseList_carries parsed).named m found
      rw [names] at member
      exact List.mem_singleton.mp member
    constructor
    · exact only
    · rintro rfl
      have lead := leadClass_before_suffix nonempty h trimmed parsed
      by_cases own : x.ownSubjects.classes = []
      · rw [Complex.subjects, Subjects.orElse, if_pos own, lead]
        exact List.mem_singleton.mpr rfl
      · obtain ⟨m, ms, hm⟩ := List.exists_cons_of_ne_nil own
        have classes : x.subjects.classes = m :: ms := by
          rw [Complex.subjects, Subjects.orElse, if_neg own, hm]
        have first : m ∈ x.subjects.classes := by
          rw [classes]
          exact List.mem_cons_self
        rw [← only first]
        exact first
  · rw [mentions_before_suffix nonempty h]
    exact List.mem_singleton

/-- A selector that is a class with a suffix shows that class and no other. -/
theorem mem_headSubjects_before_suffix (nonempty : name ≠ []) (h : Suffix suffix)
    (trimmed : trim (classSelector name ++ suffix) = classSelector name ++ suffix) {n : Text} :
    n ∈ headSubjects (classSelector name ++ suffix) ↔ n = name := by
  rw [headSubjects, (solid_before_suffix h).splitOuter, List.flatMap_singleton]
  exact mem_branchSubjects_before_suffix nonempty h trimmed

end UtilityLayer.Layer
