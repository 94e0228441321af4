import Mathlib.Data.List.Basic
import UtilityLayer.Proofs.Token
import UtilityLayer.Proofs.Utility.Authored
import UtilityLayer.Rule.Compose

/-!
# Renaming a class in a selector

The rule of a decorated token starts from the selector that its utility was
written under, with every class selector of the base class renamed to the token
and nothing else changed, if the class is spelled in the usual way there, and
has that spelling as a whole word nowhere else. Where an author spells it in
another way, the selector stays as it is.
-/

set_option autoImplicit false

namespace UtilityLayer

open Text Css Selector

namespace Selector

/-- A class selector of `name` gets the name `new`, in its usual spelling. -/
def Piece.rename (name new : Text) : Piece → Piece
  | .plain t => .plain t
  | .className n spelling =>
    if n = name then .className new (escape new) else .className n spelling

theorem Piece.rename_of_other {p : Piece} {name new : Text}
    (other : ∀ spelling, p ≠ .className name spelling) : p.rename name new = p := by
  cases p with
  | plain t => rfl
  | className n spelling =>
    apply if_neg
    rintro rfl
    exact other spelling rfl

def renamed (name new selector : Text) : List Piece := (piecesOf selector).map (Piece.rename name new)

end Selector

namespace Selector

theorem names_renamed (name new selector : Text) :
    Piece.names (renamed name new selector) =
      (Piece.names (piecesOf selector)).map fun n => if n = name then new else n := by
  rw [renamed]
  induction piecesOf selector with
  | nil => rfl
  | cons p ps ih =>
    cases p with
    | plain t => exact ih
    | className n spelling =>
      have own (m own : Text) (qs : List Piece) :
          Piece.names (.className m own :: qs) = m :: Piece.names qs := rfl
      rw [List.map_cons, Piece.rename, own, List.map_cons, ← ih]
      split <;> rfl

end Selector

namespace Rule

/-- The usual spelling of a class finds the class selectors of that name, all of
them, and nothing else. -/
structure Spelled (name selector : Text) : Prop where
  usual : ∀ spelling, .className name spelling ∈ piecesOf selector → spelling = escape name
  found : ∀ before, (∃ rest, selector = before ++ (classSelector name ++ rest) ∧
      continuesAt rest = false) ↔
    ∃ ps qs, piecesOf selector = ps ++ .className name (escape name) :: qs ∧ textOf ps = before

namespace Replaced

theorem text_add (t : Text) (r : Replaced) : (r.add t).text = t ++ r.text := by
  obtain ⟨head, tail⟩ := r
  cases head with
  | none => rfl
  | some h => exact List.append_assoc t h tail

theorem text_cutAfter (t : Text) (r : Replaced) : (r.cutAfter t).text = t ++ r.text := by
  obtain ⟨head, tail⟩ := r
  cases head with
  | none => rfl
  | some h => exact List.append_assoc t h tail

end Replaced

section

variable {needle new : Text}

theorem text_substitute_nil : (substitute needle new []).text = [] := by
  rw [substitute]
  rfl

theorem text_substitute_of_none {c : Char} {t : Text} (h : after? needle (c :: t) = none) :
    (substitute needle new (c :: t)).text = c :: (substitute needle new t).text := by
  rw [substitute]
  split
  · exact Replaced.text_add [c] _
  · rename_i h'
    rw [h] at h'
    cases h'

theorem text_substitute_of_occurrence {t rest : Text} (nonempty : needle ≠ [])
    (h : t = needle ++ rest) :
    (substitute needle new t).text =
      (if continuesAt rest then needle else new) ++ (substitute needle new rest).text := by
  cases t with
  | nil => exact absurd (List.append_eq_nil_iff.mp h.symm).1 nonempty
  | cons c t =>
    have after := after?_append needle rest
    rw [← h] at after
    have shorter : rest.length < (c :: t).length := by
      have length := List.length_pos_iff.mpr nonempty
      rw [h, List.length_append]
      omega
    rw [substitute]
    split
    · rename_i h'
      rw [after] at h'
      cases h'
    · rename_i rest' h'
      obtain rfl := Option.some.inj (after.symm.trans h')
      rw [dif_pos shorter]
      split
      · exact Replaced.text_add needle _
      · exact Replaced.text_cutAfter new _

end

/-- What is left to search: a text in which no class selector of the name starts,
and the pieces after it. -/
structure Ready (name a : Text) (ps : List Piece) : Prop where
  aligned : ∃ e, escapes e a = false
  paired : ∀ p ∈ ps, Paired p.text
  usual : ∀ spelling, .className name spelling ∈ ps → spelling = escape name
  found : ∀ before rest, a ++ textOf ps = before ++ (classSelector name ++ rest) →
    continuesAt rest = false →
      ∃ qs rs, ps = qs ++ .className name (escape name) :: rs ∧ a ++ textOf qs = before
  whole : ∀ qs rs, ps = qs ++ .className name (escape name) :: rs →
    continuesAt (textOf rs) = false

namespace Ready

variable {name a : Text} {p : Piece} {ps : List Piece}

theorem drop {w : Text} (h : Ready name (w ++ a) ps) : Ready name a ps where
  aligned := by
    obtain ⟨e, he⟩ := h.aligned
    exact ⟨escapes e w, by rw [← escapes_append, he]⟩
  paired := h.paired
  usual := h.usual
  found := by
    intro before rest hr stops
    obtain ⟨qs, rs, hp, hb⟩ := h.found (w ++ before) rest (by rw [List.append_assoc, hr,
      List.append_assoc]) stops
    rw [List.append_assoc] at hb
    exact ⟨qs, rs, hp, List.append_cancel_left hb⟩
  whole := h.whole

theorem enter (h : Ready name a (p :: ps)) (other : ∀ spelling, p ≠ .className name spelling) :
    Ready name (a ++ p.text) ps where
  aligned := by
    obtain ⟨e, he⟩ := h.aligned
    exact ⟨e, by rw [escapes_append, he]; exact h.paired p (by simp)⟩
  paired := fun q hq => h.paired q (by simp [hq])
  usual := fun spelling hs => h.usual spelling (by simp [hs])
  found := by
    intro before rest hr stops
    rw [List.append_assoc] at hr
    obtain ⟨qs, rs, hp, hb⟩ := h.found before rest hr stops
    cases qs with
    | nil => exact absurd (List.cons.inj hp).1 (other _)
    | cons q qs =>
      obtain ⟨rfl, ht⟩ := List.cons.inj hp
      exact ⟨qs, rs, ht, by rw [← hb, List.append_assoc]; rfl⟩
  whole := by
    intro qs rs hp
    exact h.whole (p :: qs) rs (by rw [hp]; rfl)

theorem pass {spelling : Text} (h : Ready name [] (.className name spelling :: ps)) :
    Ready name [] ps where
  aligned := ⟨false, rfl⟩
  paired := fun q hq => h.paired q (by simp [hq])
  usual := fun spelling hs => h.usual spelling (by simp [hs])
  found := by
    intro before rest hr stops
    have whole : [] ++ textOf (.className name spelling :: ps) =
        ('.' :: spelling ++ before) ++ (classSelector name ++ rest) := by
      rw [List.append_assoc, ← hr]
      rfl
    obtain ⟨qs, rs, hp, hb⟩ := h.found _ rest whole stops
    cases qs with
    | nil => cases hb
    | cons q qs =>
      obtain ⟨rfl, ht⟩ := List.cons.inj hp
      have cut : '.' :: spelling ++ textOf qs = '.' :: spelling ++ before := hb
      exact ⟨qs, rs, ht, List.append_cancel_left cut⟩
  whole := by
    intro qs rs hp
    exact h.whole (.className name spelling :: qs) rs (by rw [hp]; rfl)

/-- An occurrence that goes on beyond the text ends in a piece of another kind:
the dots inside a spelling are escaped, and class selectors start outside
escapes. -/
theorem other_of_overlap (h : Ready name a (p :: ps)) (nonempty : a ≠ []) {rest : Text}
    (occurs : a ++ textOf (p :: ps) = classSelector name ++ rest)
    (short : a.length < (classSelector name).length) (spelling : Text) :
    p ≠ .className name spelling := by
  rintro rfl
  obtain ⟨c, a, rfl⟩ := List.exists_cons_of_ne_nil nonempty
  rcases List.append_eq_append_iff.mp occurs with ⟨w, hn, hw⟩ | ⟨w, hn, -⟩
  · cases w with
    | nil =>
      have length := congrArg List.length hn
      rw [List.append_nil] at length
      omega
    | cons d w =>
      have dot : '.' = d := (List.cons.inj hw).1
      obtain ⟨rfl, inner⟩ := List.cons.inj hn
      rw [← dot] at inner
      have hidden := escape_hides name a w inner
      obtain ⟨e, he⟩ := h.aligned
      have first : escapes e ('.' :: a) = escapes false a := by
        show escapes (!e && false) a = _
        rw [Bool.and_false]
      rw [first, hidden] at he
      cases he
  · have length := congrArg List.length hn
    rw [List.length_append] at length
    omega

end Ready

theorem prefix_of_append {a b s t : Text} (h : a ++ b = s ++ t) (shorter : s.length ≤ a.length) :
    ∃ w, a = s ++ w ∧ t = w ++ b := by
  obtain ⟨w, rfl⟩ :=
    List.prefix_of_prefix_length_le ⟨t, h.symm⟩ (List.prefix_append a b) shorter
  rw [List.append_assoc] at h
  exact ⟨w, rfl, (List.append_cancel_left h).symm⟩

/-- The search gives the renamed pieces. -/
theorem text_substitute {name a : Text} {ps : List Piece} (h : Ready name a ps) (new : Text) :
    (substitute (classSelector name) (classSelector new) (a ++ textOf ps)).text =
      a ++ textOf (ps.map (Piece.rename name new)) := by
  have nonempty : classSelector name ≠ [] := List.cons_ne_nil _ _
  -- Every step takes a character off the text or a piece off the list.
  induction hm : (a ++ textOf ps).length + ps.length using Nat.strongRecOn generalizing a ps with
  | ind m ih =>
    subst hm
    have enter {p : Piece} {qs : List Piece} (hp : ps = p :: qs)
        (other : ∀ spelling, p ≠ .className name spelling) :
        (substitute (classSelector name) (classSelector new) (a ++ textOf ps)).text =
          a ++ textOf (ps.map (Piece.rename name new)) := by
      subst hp
      have next := ih _ (by
        simp only [textOf_cons, List.length_append, List.length_cons]
        omega) (h.enter other) rfl
      rw [List.map_cons, Piece.rename_of_other other, textOf_cons, textOf_cons,
        ← List.append_assoc, ← List.append_assoc, next]
    cases a with
    | nil =>
      cases ps with
      | nil => exact text_substitute_nil
      | cons p qs =>
        by_cases other : ∀ spelling, p ≠ .className name spelling
        · exact enter rfl other
        · obtain ⟨spelling, hp⟩ := Classical.not_forall.mp other
          obtain rfl := Classical.not_not.mp hp
          obtain rfl := h.usual spelling (by simp)
          have stops := h.whole [] qs rfl
          have next := ih _ (by
            simp only [textOf_cons, Piece.text, List.nil_append, List.length_append,
              List.length_cons]
            omega) h.pass rfl
          rw [List.map_cons, Piece.rename, if_pos rfl]
          show (substitute _ _ (classSelector name ++ textOf qs)).text = _
          rw [text_substitute_of_occurrence nonempty rfl, stops]
          exact congrArg (classSelector new ++ ·) next
    | cons c a =>
      cases ho : after? (classSelector name) (c :: a ++ textOf ps) with
      | none =>
        have next := ih _ (by simp only [List.length_append, List.length_cons]; omega)
          (Ready.drop (w := [c]) h) rfl
        exact (text_substitute_of_none ho).trans (congrArg (c :: ·) next)
      | some rest =>
        have occurs := after?_eq_some_iff.mp ho
        have continued : continuesAt rest = true := by
          rw [← Bool.not_eq_false]
          intro stops
          obtain ⟨qs, rs, -, hb⟩ := h.found [] rest occurs stops
          cases hb
        by_cases short : (c :: a).length < (classSelector name).length
        · cases ps with
          | nil =>
            have length := congrArg List.length occurs
            rw [textOf, List.flatMap_nil, List.append_nil, List.length_append] at length
            omega
          | cons p qs => exact enter rfl (h.other_of_overlap (List.cons_ne_nil c a) occurs short)
        · obtain ⟨w, ha, hr⟩ := prefix_of_append occurs (Nat.le_of_not_lt short)
          rw [ha] at h ih ⊢
          have next := ih _ (by
            have length := List.length_pos_iff.mpr nonempty
            simp only [List.length_append]
            omega) h.drop rfl
          rw [List.append_assoc, ← hr, text_substitute_of_occurrence nonempty rfl, continued, hr,
            next]
          simp only [if_true, List.append_assoc]

theorem Spelled.ready {name selector : Text} {xs : List Selector.Complex}
    (spelled : Spelled name selector) (parsed : parseList selector = some xs) :
    Ready name [] (piecesOf selector) where
  aligned := ⟨false, rfl⟩
  paired := (parseList_carries parsed).paired
  usual := spelled.usual
  found := by
    intro before rest hr stops
    have whole : selector = before ++ (classSelector name ++ rest) := by
      rw [← hr, List.nil_append, textOf_piecesOf]
    exact (spelled.found before).mp ⟨rest, whole, stops⟩
  whole := by
    intro qs rs hp
    obtain ⟨rest, hr, stops⟩ := (spelled.found (textOf qs)).mpr ⟨qs, rs, hp, rfl⟩
    have text := textOf_piecesOf selector
    rw [hp, textOf_append, textOf_cons] at text
    have same : textOf qs ++ (classSelector name ++ textOf rs) =
        textOf qs ++ (classSelector name ++ rest) := text.trans hr
    rw [List.append_cancel_left (List.append_cancel_left same)]
    exact stops

theorem start_of_context {token : Token} {u : Utility} {selector : Text}
    (context : u.context = some ⟨selector, false⟩) :
    (start token u).1 ++ (start token u).2 =
      (substitute (classSelector u.className) (classSelector token.raw) selector).text := by
  rw [start, context]
  dsimp only
  rw [if_neg (by decide), Replaced.text]
  cases (substitute (classSelector u.className) (classSelector token.raw) selector).head with
  | some head => rfl
  | none => exact List.append_nil _

/-- The rule of a decorated token starts from the selector of its utility with the
base class renamed to the token: it names the token, and the base class no more. -/
theorem compose_renames_class {theme : Text} {collection : Utility.Collection}
    (accepted : Utility.Collection.ofSheet theme = .ok collection) {u : Utility}
    (member : u ∈ collection.utilities) {selector : Text}
    (context : u.context = some ⟨selector, false⟩) {table : Variant.Table} {raw : Text}
    (based : (Token.parse table raw).baseClass = u.className)
    (decorated : (Token.parse table raw).isUndecorated = false)
    (spelled : Spelled u.className selector) :
    ∃ before after,
      compose (.parse table raw) u = ((Token.parse table raw).variants.foldl Draft.apply
        { selector := before, tail := after }).finish (bodyOf (.parse table raw) u) ∧
      before ++ after = textOf (renamed u.className raw selector) ∧
      escapedName? (escape raw) = some (raw, []) ∧
      raw ∈ Piece.names (renamed u.className raw selector) ∧
      u.className ∉ Piece.names (renamed u.className raw selector) := by
  obtain ⟨x, xs, parsed, styled⟩ :=
    (Utility.Collection.defined_of_ofSheet accepted member).styled _ context
  have other : u.className ≠ raw := by
    rw [← based]
    exact Token.baseClass_ne_of_decorated decorated
  have nonempty : raw ≠ [] := by
    rintro rfl
    cases decorated
  have named : u.className ∈ Piece.names (piecesOf selector) :=
    (parseList_carries parsed).named _ (List.mem_append_left _ (Complex.subjects_subset styled))
  refine ⟨(start (.parse table raw) u).1, (start (.parse table raw) u).2, ?_, ?_,
    escapedName?_escape nonempty, ?_, ?_⟩
  · rw [compose.eq_def, context]
    dsimp only
    rw [decorated]
    rfl
  · have search := text_substitute (spelled.ready parsed) raw
    rw [List.nil_append, textOf_piecesOf] at search
    exact (start_of_context context).trans search
  · rw [names_renamed]
    exact List.mem_map.mpr ⟨u.className, named, if_pos rfl⟩
  · rw [names_renamed]
    intro kept
    obtain ⟨n, -, hn⟩ := List.mem_map.mp kept
    split at hn
    · exact other hn.symm
    · rename_i ne
      exact ne hn

def darkTheme : Text := ".dark .card \x7b color: red; \x7d"

def darkCard : Utility where
  className := "card"
  body := "color: red;"
  context := some ⟨".dark .card", false⟩

theorem ofSheet_darkTheme :
    ∃ collection, Utility.Collection.ofSheet darkTheme = .ok collection ∧
      collection.utilities = [darkCard] := by
  apply Utility.exists_of_toOption
  decide +kernel

theorem pieces_darkCard : piecesOf ".dark .card" =
    [.plain [], .className "dark" "dark", .plain [' ']] ++
      .className "card" (escape "card") :: [.plain []] := by
  decide +kernel

theorem spelled_darkCard : Spelled "card" ".dark .card" where
  usual := by
    rw [pieces_darkCard]
    intro spelling h
    simpa using h
  found := by
    intro before
    rw [pieces_darkCard]
    constructor
    · rintro ⟨rest, whole, -⟩
      have place : ∀ n < 12, (after? (classSelector "card") (".dark .card".toList.drop n)).isSome →
          n = 6 := by
        decide
      have length := congrArg List.length whole
      have total : ".dark .card".toList.length = 11 := by decide
      rw [total, List.length_append] at length
      have here : after? (classSelector "card") (".dark .card".toList.drop before.length) =
          some rest := by
        rw [whole, List.drop_left]
        exact after?_append _ _
      have six := place before.length (by omega) (by rw [here]; rfl)
      have start : before = ".dark .card".toList.take 6 := by
        rw [whole, ← six, List.take_left]
      exact ⟨_, _, rfl, start.symm⟩
    · rintro ⟨ps, qs, whole, rfl⟩
      obtain ⟨rfl, -, -⟩ := (List.append_cons_inj_of_notMem (by decide) (by decide)).mp whole
      exact ⟨[], rfl, rfl⟩

theorem dark_card_renamed :
    ∃ collection, Utility.Collection.ofSheet darkTheme = .ok collection ∧
      ∃ before after,
        compose (.parse .default "hover:card") darkCard =
          ((Token.parse .default "hover:card").variants.foldl Draft.apply
            { selector := before, tail := after }).finish
              (bodyOf (.parse .default "hover:card") darkCard) ∧
        before ++ after = textOf (renamed "card" "hover:card" ".dark .card") ∧
        escapedName? (escape "hover:card") = some ("hover:card".toList, []) ∧
        "hover:card".toList ∈ Piece.names (renamed "card" "hover:card" ".dark .card") ∧
        "card".toList ∉ Piece.names (renamed "card" "hover:card" ".dark .card") := by
  obtain ⟨collection, accepted, utilities⟩ := ofSheet_darkTheme
  have member : darkCard ∈ collection.utilities := by
    rw [utilities]
    exact List.mem_singleton.mpr rfl
  exact ⟨collection, accepted, compose_renames_class accepted member rfl
    (by decide) (by decide) spelled_darkCard⟩

def bareTheme : Text := ".dark .card_x \x7b color: red; \x7d"

def bareCard : Utility where
  className := "card_x"
  body := "color: red;"
  context := some ⟨".dark .card_x", false⟩

/-- The usual spelling escapes an underscore that the theme writes bare, so the
selector stays as it is and styles the undecorated class. -/
theorem bare_underscore_kept :
    ∃ collection, Utility.Collection.ofSheet bareTheme = .ok collection ∧
      bareCard ∈ collection.utilities ∧
      (Token.parse .default "hover:card_x").baseClass = bareCard.className ∧
      (Token.parse .default "hover:card_x").isUndecorated = false ∧
      (start (.parse .default "hover:card_x") bareCard).1 ++
        (start (.parse .default "hover:card_x") bareCard).2 ≠
          textOf (renamed "card_x" "hover:card_x" ".dark .card_x") := by
  have evaluated : (Utility.Collection.ofSheet bareTheme).toOption.map (·.utilities) =
      some [bareCard] := by
    decide +kernel
  obtain ⟨collection, accepted, utilities⟩ := Utility.exists_of_toOption evaluated
  refine ⟨collection, accepted, ?_, by decide, by decide, by decide +kernel⟩
  rw [utilities]
  exact List.mem_singleton.mpr rfl

end Rule

end UtilityLayer
