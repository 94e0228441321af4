import UtilityLayer.Proofs.Selector.Following

/-!
# The class selectors of a selector text

A selector text is cut into its class selectors and the texts between them, by
the readers of selectors themselves: a class selector counts wherever a reader
takes it off the text, also in the argument of a functional pseudo-class that is
a selector list. The pieces make up the text, and a selector that can be read
names only classes that are among them.
-/

set_option autoImplicit false

namespace UtilityLayer.Selector

open Text Css

/-- A class selector with its spelling after the dot, or a text around them. -/
inductive Piece where
  | plain (t : Text)
  | className (name spelling : Text)
  deriving DecidableEq, Repr

namespace Piece

def text : Piece → Text
  | plain t => t
  | className _ spelling => '.' :: spelling

def names (ps : List Piece) : List Text :=
  ps.filterMap fun
    | .plain _ => none
    | .className name _ => some name

end Piece

def textOf (ps : List Piece) : Text := ps.flatMap Piece.text

theorem textOf_cons (p : Piece) (ps : List Piece) : textOf (p :: ps) = p.text ++ textOf ps := rfl

theorem textOf_append (ps qs : List Piece) : textOf (ps ++ qs) = textOf ps ++ textOf qs :=
  List.flatMap_append

theorem Piece.mem_names {ps : List Piece} {name : Text} :
    name ∈ names ps ↔ ∃ spelling, .className name spelling ∈ ps := by
  rw [names, List.mem_filterMap]
  constructor
  · rintro ⟨p, hp, hn⟩
    cases p with
    | plain t => cases hn
    | className n spelling =>
      obtain rfl := Option.some.inj hn
      exact ⟨spelling, hp⟩
  · rintro ⟨spelling, hp⟩
    exact ⟨_, hp, rfl⟩

section

variable (arguments : Text → Option (List Complex)) (inside : Text → List Piece)

/-- The pieces of a simple selector that is written as `t`. -/
def simplePieces (t : Text) : Simple → List Piece
  | .className name => [.className name t.tail]
  | .functional name _ =>
    let lead := ':' :: (name ++ ['('])
    .plain lead :: (inside (t.drop lead.length).dropLast ++ [.plain [')']])
  | _ => [.plain t]

/-- The pieces of a complex selector: one simple selector after the other, and
what is none, character by character. -/
def complexPieces : Text → List Piece
  | [] => []
  | c :: t =>
    match _h : readSimple arguments (c :: t) with
    | some (s, rest) =>
      simplePieces inside ((c :: t).take ((c :: t).length - rest.length)) s ++ complexPieces rest
    | none => .plain [c] :: complexPieces t
termination_by t => t.length
decreasing_by
  · exact readSimple_length arguments ‹_›
  · exact Nat.lt_succ_self _

/-- The pieces of one branch of a list, with the blanks around it. -/
def branchPieces (t : Text) : List Piece :=
  .plain (t.takeWhile isBlank) ::
    (complexPieces arguments inside (trim t) ++ [.plain (blankTail (trimStart t))])

end

/-- The pieces of a selector list, with the same bound as its reader. -/
def listPieces : Nat → Text → List Piece
  | 0, t => [.plain t]
  | n + 1, t =>
    List.intercalate [.plain [',']]
      ((splitOuter ',' t).map (branchPieces (readList n) (listPieces n)))

def piecesOf (t : Text) : List Piece := listPieces (t.length + 1) t

theorem textOf_intercalate (separator : List Piece) (pss : List (List Piece)) :
    textOf (List.intercalate separator pss) = join (textOf separator) (pss.map textOf) := by
  induction pss with
  | nil => rfl
  | cons ps pss ih =>
    cases pss with
    | nil => rw [List.intercalate_singleton, List.map_cons, List.map_nil, join,
        List.intercalate_singleton]
    | cons qs pss =>
      rw [List.intercalate_cons_cons, textOf_append, textOf_append, ih]
      simp only [List.map_cons, join, List.intercalate_cons_cons]

inductive Written (arguments : Text → Option (List Complex)) : Simple → Text → Prop where
  | className {name spelling : Text} (nonempty : name ≠ []) (paired : Paired spelling) :
      Written arguments (.className name) ('.' :: spelling)
  | functional {name argument : Text} {branches : List Complex}
      (named : ∀ c ∈ name, isNameChar c = true) (read : arguments argument = some branches) :
      Written arguments (.functional name branches) (':' :: (name ++ ['(']) ++ (argument ++ [')']))
  | other {s : Simple} {t : Text} (whole : ∀ inside, simplePieces inside t s = [.plain t])
      (nameless : s.names = []) (paired : Paired t) : Written arguments s t

theorem Simple.Spelled.written {arguments : Text → Option (List Complex)} {s : Simple} {w : Text}
    (h : s.Spelled arguments w) : Written arguments s w := by
  have paired := h.paired
  cases h with
  | className nonempty whole => exact .className nonempty whole.paired
  | functional named read => simpa using Written.functional named.2 read
  | element | ident | universal | parent | pseudoClass | pseudoElement | functionalText =>
    exact .other (fun _ => rfl) rfl paired
  | @bracketed content unclosed =>
    refine .other ?_ ?_ paired
    · intro inside
      rw [attributeOf]
      split <;> rfl
    · rw [attributeOf]
      split <;> rfl

section

variable {arguments : Text → Option (List Complex)} {inside : Text → List Piece}

theorem readSimple_written {t rest : Text} {s : Simple}
    (h : readSimple arguments t = some (s, rest)) :
    ∃ w, t = w ++ rest ∧ Written arguments s w := by
  obtain ⟨w, hw, spelled⟩ := readSimple_spelled h
  exact ⟨w, hw, spelled.written⟩

theorem simplePieces_functional (name argument : Text) (branches : List Complex) :
    simplePieces inside (':' :: (name ++ ['(']) ++ (argument ++ [')'])) (.functional name branches) =
      .plain (':' :: (name ++ ['('])) :: (inside argument ++ [.plain [')']]) := by
  rw [simplePieces, List.drop_left, List.dropLast_concat]

theorem textOf_simplePieces (lossless : ∀ a, textOf (inside a) = a) {s : Simple} {w : Text}
    (h : Written arguments s w) : textOf (simplePieces inside w s) = w := by
  cases h with
  | className nonempty paired => exact List.append_nil _
  | functional named read =>
    rw [simplePieces_functional, textOf_cons, textOf_append, lossless]
    rfl
  | other whole nameless paired =>
    rw [whole]
    exact List.append_nil _

theorem complexPieces_of_read {t rest w : Text} {s : Simple}
    (h : readSimple arguments t = some (s, rest)) (written : t = w ++ rest) :
    complexPieces arguments inside t =
      simplePieces inside w s ++ complexPieces arguments inside rest := by
  cases t with
  | nil => cases h
  | cons c t =>
    rw [complexPieces]
    split
    · rename_i s' rest' h'
      obtain ⟨rfl, rfl⟩ := Prod.mk.inj (Option.some.inj (h.symm.trans h'))
      have taken : (c :: t).take ((c :: t).length - rest.length) = w := by
        rw [written, List.length_append, Nat.add_sub_cancel, List.take_left]
      rw [taken]
    · rename_i h'
      rw [h] at h'
      cases h'

theorem complexPieces_of_none {c : Char} {t : Text} (h : readSimple arguments (c :: t) = none) :
    complexPieces arguments inside (c :: t) = .plain [c] :: complexPieces arguments inside t := by
  rw [complexPieces]
  split
  · rename_i h'
    rw [h] at h'
    cases h'
  · rfl

theorem complexPieces_nil : complexPieces arguments inside [] = [] := by rw [complexPieces]

theorem textOf_complexPieces (lossless : ∀ a, textOf (inside a) = a) (t : Text) :
    textOf (complexPieces arguments inside t) = t := by
  fun_induction complexPieces arguments inside t with
  | case1 => rfl
  | case2 c t s rest h ih =>
    obtain ⟨w, hw, written⟩ := readSimple_written h
    have taken : (c :: t).take ((c :: t).length - rest.length) = w := by
      rw [hw, List.length_append, Nat.add_sub_cancel, List.take_left]
    rw [taken, textOf_append, textOf_simplePieces lossless written, ih, hw]
  | case3 c t h ih => exact congrArg (c :: ·) ih

theorem textOf_branchPieces (lossless : ∀ a, textOf (inside a) = a) (t : Text) :
    textOf (branchPieces arguments inside t) = t := by
  rw [branchPieces, textOf_cons, textOf_append, textOf_complexPieces lossless]
  show t.takeWhile isBlank ++ (trim t ++ (blankTail (trimStart t) ++ [])) = t
  rw [List.append_nil, trim, trimEnd_append_blankTail, trimStart, List.takeWhile_append_dropWhile]

end

theorem textOf_listPieces (n : Nat) (t : Text) : textOf (listPieces n t) = t := by
  induction n generalizing t with
  | zero => exact List.append_nil t
  | succ n ih =>
    have branches : textOf ∘ branchPieces (readList n) (listPieces n) = id :=
      funext (textOf_branchPieces ih)
    rw [listPieces, textOf_intercalate, List.map_map, branches, List.map_id]
    exact join_splitFrom ',' .top t

theorem textOf_piecesOf (t : Text) : textOf (piecesOf t) = t := textOf_listPieces _ t

/-- Pieces of a text that was read, with the names that were found in it. None of
them ends inside an escape. -/
structure Carries (ps : List Piece) (found : List Text) : Prop where
  paired : ∀ p ∈ ps, Paired p.text
  nonempty : ∀ n ∈ Piece.names ps, n ≠ []
  named : ∀ n ∈ found, n ∈ Piece.names ps

namespace Carries

theorem nil : Carries [] [] where
  paired := by simp
  nonempty := by simp [Piece.names]
  named := by simp

theorem plain {t : Text} (h : Paired t) : Carries [.plain t] [] where
  paired := by
    intro p hp
    obtain rfl := List.mem_singleton.mp hp
    exact h
  nonempty := by simp [Piece.names]
  named := by simp

theorem className {name spelling : Text} (nonempty : name ≠ []) (h : Paired spelling) :
    Carries [.className name spelling] [name] where
  paired := by
    intro p hp
    obtain rfl := List.mem_singleton.mp hp
    exact .cons (by decide) h
  nonempty := by
    intro n hn
    obtain rfl := List.mem_singleton.mp hn
    exact nonempty
  named := fun n hn => hn

theorem append {ps qs : List Piece} {ns ms : List Text} (hp : Carries ps ns)
    (hq : Carries qs ms) : Carries (ps ++ qs) (ns ++ ms) := by
  have split : Piece.names (ps ++ qs) = Piece.names ps ++ Piece.names qs := List.filterMap_append
  constructor
  · intro p hm
    exact (List.mem_append.mp hm).elim (hp.paired p) (hq.paired p)
  · intro n hn
    rw [split] at hn
    exact (List.mem_append.mp hn).elim (hp.nonempty n) (hq.nonempty n)
  · intro n hn
    rw [split, List.mem_append]
    exact (List.mem_append.mp hn).imp (hp.named n) (hq.named n)

end Carries

theorem paired_of_blank {t : Text} (h : isBlankText t = true) : Paired t := by
  apply Paired.of_forall
  rintro c hc rfl
  exact absurd (List.all_eq_true.mp h _ hc) (by decide)

section

variable {arguments : Text → Option (List Complex)} {inside : Text → List Piece}

theorem ne_backslash_of_combinator {c : Char} {k : Combinator} (h : combinatorOf c = some k) :
    c ≠ '\\' := by
  rintro rfl
  cases h

variable (arguments inside) in
def Yields (found : List Text) (t rest : Text) : Prop :=
  ∃ ps, complexPieces arguments inside t = ps ++ complexPieces arguments inside rest ∧
    Carries ps found

namespace Yields

theorem refl (t : Text) : Yields arguments inside [] t t := ⟨[], rfl, .nil⟩

theorem trans {ns ms : List Text} {t u r : Text} (h : Yields arguments inside ns t u)
    (k : Yields arguments inside ms u r) : Yields arguments inside (ns ++ ms) t r := by
  obtain ⟨ps, hp, carries⟩ := h
  obtain ⟨qs, hq, carries'⟩ := k
  exact ⟨ps ++ qs, by rw [hp, hq, List.append_assoc], carries.append carries'⟩

theorem between {c : Char} (h : isBetween c = true) (t : Text) :
    Yields arguments inside [] (c :: t) t := by
  have none : readSimple arguments (c :: t) = none ∧ c ≠ '\\' := by
    rw [isBetween, Bool.or_eq_true] at h
    rcases h with blank | combinator
    · refine ⟨readSimple_of_blank blank t, ?_⟩
      rintro rfl
      exact absurd blank (by decide)
    · obtain ⟨k, hk⟩ := Option.isSome_iff_exists.mp combinator
      exact ⟨readSimple_of_combinator hk t, ne_backslash_of_combinator hk⟩
  exact ⟨[.plain [c]], complexPieces_of_none none.1, .plain (paired_concat none.2 [])⟩

end Yields

variable (deep : ∀ a xs, arguments a = some xs → Carries (inside a) (namesOfBranches xs))

include deep

theorem carries_simplePieces {s : Simple} {w : Text} (h : Written arguments s w) :
    Carries (simplePieces inside w s) s.names := by
  cases h with
  | className nonempty paired => exact .className nonempty paired
  | @functional name argument branches named read =>
    rw [simplePieces_functional]
    have lead : Carries [.plain (':' :: (name ++ ['(']))] [] :=
      .plain (paired_concat (by decide) (':' :: name))
    have close : Carries [.plain [')']] [] := .plain rfl
    have whole := lead.append ((deep argument branches read).append close)
    rw [List.append_nil] at whole
    exact whole
  | other whole nameless paired =>
    rw [whole, nameless]
    exact .plain paired

theorem readSimple_yields {t rest : Text} {s : Simple}
    (h : readSimple arguments t = some (s, rest)) : Yields arguments inside s.names t rest := by
  obtain ⟨w, hw, written⟩ := readSimple_written h
  exact ⟨_, complexPieces_of_read h hw, carries_simplePieces deep written⟩

theorem follows_yields : Follows arguments fun atoms t rest =>
    Yields arguments inside (atoms.flatMap Simple.ownNames) t rest where
  refl := Yields.refl
  trans := by
    intro a b t u v first second
    rw [List.flatMap_append]
    exact first.trans second
  between := Yields.between
  simple := by
    intro t rest s h
    rw [← Simple.names_eq]
    exact readSimple_yields deep h

theorem readBranch_carries {t : Text} {x : Complex} (h : readBranch arguments t = some x) :
    Carries (branchPieces arguments inside t) x.names := by
  obtain ⟨ps, hp, carries⟩ := (follows_yields deep).branch h
  rw [complexPieces_nil, List.append_nil] at hp
  rw [← Complex.names_eq] at carries
  have lead : Paired (t.takeWhile isBlank) := paired_of_blank List.all_takeWhile
  have tail : Paired (blankTail (trimStart t)) := paired_of_blank (isBlankText_blankTail _)
  have whole := (Carries.plain lead).append (carries.append (.plain tail))
  rw [← hp, List.append_nil] at whole
  exact whole

theorem branches_carries {ts : List Text} {xs : List Complex}
    (read : List.Forall₂ (fun t x => readBranch arguments t = some x) ts xs) :
    Carries (List.intercalate [.plain [',']] (ts.map (branchPieces arguments inside)))
      (namesOfBranches xs) := by
  have comma : Carries [.plain [',']] [] := .plain rfl
  induction read with
  | nil => exact .nil
  | @cons t x ts xs hx others ih =>
    have first := readBranch_carries deep hx
    cases others with
    | nil =>
      rw [List.map_cons, List.map_nil, List.intercalate_singleton]
      have one := first.append .nil
      rw [List.append_nil] at one
      exact one
    | cons hy others =>
      rw [List.map_cons, List.map_cons, List.intercalate_cons_cons, ← List.map_cons]
      have whole := (first.append comma).append ih
      rw [List.append_nil] at whole
      exact whole

end

theorem readList_carries (n : Nat) {t : Text} {xs : List Complex} (h : readList n t = some xs) :
    Carries (listPieces n t) (namesOfBranches xs) := by
  induction n generalizing t xs with
  | zero => cases h
  | succ n ih =>
    rw [listPieces]
    exact branches_carries (fun a xs => ih) (mapM_eq_some_iff.mp h)

/-- A selector list that can be read names only classes that are written in it. -/
theorem parseList_carries {t : Text} {xs : List Complex} (h : parseList t = some xs) :
    Carries (piecesOf t) (namesOfBranches xs) := readList_carries _ h

end UtilityLayer.Selector
