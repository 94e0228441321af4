import UtilityLayer.Proofs.Css.Comment
import UtilityLayer.Proofs.Css.Concatenation
import UtilityLayer.Proofs.Utility.Authored

/-!
# Hand-authored utilities of two themes

The utilities of two themes, one after the other, are those of the first and
those of the second that are new. This needs the comment reader to leave the
first outside strings, which an escaped quote in a selector prevents: it knows
escapes inside strings only.
-/

set_option autoImplicit false

namespace UtilityLayer.Utility

open Text Css

namespace Collection

variable {a b : Text} {c d : Collection}

theorem utilities_insert (c : Collection) (u : Utility) :
    (c.insert u).utilities = if u ∈ c.utilities then c.utilities else c.utilities ++ [u] := by
  rw [insert]
  split <;> rfl

theorem utilities_foldl_insert (us : List Utility) (c : Collection) :
    (us.foldl insert c).utilities =
      c.utilities ++ (ofList us).utilities.filter (· ∉ c.utilities) := by
  induction us using List.reverseRecOn with
  | nil => exact (List.append_nil c.utilities).symm
  | append_singleton us u ih =>
    have grown : (ofList (us ++ [u])).utilities =
        if u ∈ (ofList us).utilities then (ofList us).utilities
        else (ofList us).utilities ++ [u] := by
      rw [ofList, List.foldl_append, List.foldl_cons, List.foldl_nil, utilities_insert]
      rfl
    rw [List.foldl_append, List.foldl_cons, List.foldl_nil, utilities_insert, ih, grown]
    by_cases held : u ∈ c.utilities
    · by_cases known : u ∈ (ofList us).utilities
      · simp [held, known]
      · simp [held, known]
    · by_cases known : u ∈ (ofList us).utilities
      · simp [held, known]
      · simp [held, known]

theorem get_ofList_append (us vs : List Utility) (name : Text) :
    (ofList (us ++ vs)).get name = (ofList us).get name ++
      ((ofList vs).get name).filter (· ∉ (ofList us).get name) := by
  have later : ofList (us ++ vs) = vs.foldl insert (ofList us) := List.foldl_append
  rw [later, get, utilities_foldl_insert, List.filter_append, get, get, List.filter_filter,
    List.filter_filter]
  congr 1
  apply List.filter_congr
  intro u _
  by_cases named : u.className = name <;> simp [named]

theorem ofSheet_eq_ok_iff :
    ofSheet a = .ok c ↔ ∃ leaves, themeLeaves a = .ok leaves ∧ firstError leaves = none ∧
      c = ofList ((leaves.flatMap authoredByNode).filterMap Authored.utility?) := by
  rw [ofSheet, authored]
  cases themeLeaves a with
  | error e => simp
  | ok leaves =>
    cases he : firstError leaves with
    | some e => simp [he]
    | none => simp [he, beforeError_of_firstError_none he, eq_comm]

theorem themeLeaves_append {la lb : List Node} (ha : themeLeaves a = .ok la)
    (hb : themeLeaves b = .ok lb)
    (apart : withoutComments (a ++ b) = withoutComments a ++ withoutComments b) :
    themeLeaves (a ++ b) = .ok (la ++ lb) := by
  have tree {t : Text} {leaves : List Node} (h : themeLeaves t = .ok leaves) :
      ∃ ns, readTree isLayerHead (withoutComments t) = .ok ns ∧ leaves = leavesOf ns := by
    rw [themeLeaves] at h
    cases hr : readTree isLayerHead (withoutComments t) with
    | error e => rw [hr] at h; cases h
    | ok ns =>
      rw [hr] at h
      exact ⟨ns, rfl, (Except.ok.inj h).symm⟩
  obtain ⟨ns, hn, rfl⟩ := tree ha
  obtain ⟨ms, hm, rfl⟩ := tree hb
  rw [themeLeaves, apart, readTree_append hn hm, ← leavesOf_append]
  rfl

theorem ofSheet_append (ha : ofSheet a = .ok c) (hb : ofSheet b = .ok d)
    (apart : withoutComments (a ++ b) = withoutComments a ++ withoutComments b) :
    ∃ e, ofSheet (a ++ b) = .ok e ∧
      ∀ name, e.get name = c.get name ++ (d.get name).filter (· ∉ c.get name) := by
  obtain ⟨la, hla, readable, rfl⟩ := ofSheet_eq_ok_iff.mp ha
  obtain ⟨lb, hlb, readable', rfl⟩ := ofSheet_eq_ok_iff.mp hb
  have none : firstError (la ++ lb) = none := by
    rw [firstError, List.findSome?_append]
    exact Option.or_eq_none_iff.mpr ⟨readable, readable'⟩
  refine ⟨_, ofSheet_eq_ok_iff.mpr ⟨la ++ lb, themeLeaves_append hla hlb apart, none, rfl⟩, ?_⟩
  intro name
  rw [List.flatMap_append, List.filterMap_append]
  exact get_ofList_append _ _ name

theorem isSheet_of_ofSheet (h : ofSheet a = .ok c) : ∃ sts, IsSheet (withoutComments a) sts := by
  obtain ⟨leaves, hl, -, -⟩ := ofSheet_eq_ok_iff.mp h
  rw [themeLeaves] at hl
  cases hr : readTree isLayerHead (withoutComments a) with
  | error e => rw [hr] at hl; cases hl
  | ok ns =>
    obtain ⟨sts, sheet, -⟩ := readTree_eq_ok_iff.mp hr
    exact ⟨sts, sheet⟩

def blockComment : Text := "/*\x7b*/"

theorem ofSheet_blockComment : ofSheet blockComment = .ok empty := by
  have evaluated : (ofSheet blockComment).toOption.map utilities = some [] := by decide +kernel
  obtain ⟨c, accepted, none⟩ := exists_of_toOption evaluated
  rw [accepted]
  cases c
  cases none
  rfl

theorem stripFrom_blockComment {m : CommentScan} (h : m.Quotes) :
    stripFrom m blockComment = blockComment := by
  obtain ⟨q, quote, rfl | rfl⟩ := h
  · simp only [isQuote, Bool.or_eq_true, beq_iff_eq] at quote
    rcases quote with rfl | rfl <;> decide
  · simp only [isQuote, Bool.or_eq_true, beq_iff_eq] at quote
    rcases quote with rfl | rfl <;> decide

theorem dangles_blockComment : Dangles blockComment := by
  refine ⟨[], "/*".toList, "*/".toList, rfl, rfl, ⟨headText_iff.mpr (by decide), ?_⟩, ?_⟩
  · exact ⟨'/', ['*'], rfl, rfl⟩
  · intro body rest h
    have brace : '}' ∈ "*/".toList := by simp [h]
    exact absurd brace (by decide)

theorem ofSheet_append_blockComment (accepted : ofSheet a = .ok c)
    (bare : withoutComments a = a) (inside : (CommentScan.outside.run a).Quotes) (e : Collection) :
    ofSheet (a ++ blockComment) ≠ .ok e := by
  obtain ⟨sts, sheet⟩ := isSheet_of_ofSheet accepted
  rw [bare] at sheet
  intro h
  obtain ⟨sts', sheet'⟩ := isSheet_of_ofSheet h
  rw [withoutComments, stripFrom_append (by simp) bare fun h => absurd h sheet.last_ne_slash,
    stripFrom_blockComment inside, ← readSheet_eq_ok_iff_isSheet] at sheet'
  obtain ⟨place, unclosed⟩ := sheet.append_dangles dangles_blockComment
  rw [unclosed] at sheet'
  cases sheet'

/-- For an accepted theme without comments: its utilities are followed by the new
ones of every accepted text behind it exactly when the comment reader leaves it
outside strings, and it does if no quote is escaped outside strings. -/
theorem ofSheet_append_iff (bare : withoutComments a = a) (accepted : ofSheet a = .ok c) :
    ((∀ b d, ofSheet b = .ok d → ∃ e, ofSheet (a ++ b) = .ok e ∧
        ∀ name, e.get name = c.get name ++ (d.get name).filter (· ∉ c.get name)) ↔
      CommentScan.outside.run a = .outside) ∧
    (escapesQuote .outside a = false → CommentScan.outside.run a = .outside) := by
  obtain ⟨sts, sheet⟩ := isSheet_of_ofSheet accepted
  rw [bare] at sheet
  refine ⟨⟨?_, ?_⟩, ?_⟩
  · intro composes
    rcases CommentScan.run_cases (.inl rfl) a with outside | inside
    · exact outside
    · obtain ⟨e, he, -⟩ := composes blockComment empty ofSheet_blockComment
      exact absurd he (ofSheet_append_blockComment accepted bare inside e)
  · intro outside b d hb
    have apart : withoutComments (a ++ b) = withoutComments a ++ withoutComments b := by
      rw [bare, withoutComments, stripFrom_append (by simp) bare
        fun h => absurd h sheet.last_ne_slash, outside, withoutComments]
    exact ofSheet_append accepted hb apart
  · intro unescaped
    have clear : Clear a := ⟨bare, unescaped⟩
    exact (clear.quiet (by rw [sheet.closes.outside]; rfl)).outside

def cardTheme : Text := ".card \x7b color: red; \x7d"

theorem card_composes :
    withoutComments cardTheme = cardTheme ∧ ∃ c, ofSheet cardTheme = .ok c ∧
      ∀ b d, ofSheet b = .ok d → ∃ e, ofSheet (cardTheme ++ b) = .ok e ∧
        ∀ name, e.get name = c.get name ++ (d.get name).filter (· ∉ c.get name) := by
  have bare : withoutComments cardTheme = cardTheme := by decide
  have evaluated : (ofSheet cardTheme).toOption.map utilities =
      some [{ className := "card", body := "color: red;" }] := by
    decide +kernel
  obtain ⟨c, accepted, -⟩ := exists_of_toOption evaluated
  have law := ofSheet_append_iff bare accepted
  exact ⟨bare, c, accepted, law.1.mpr (law.2 (by decide))⟩

def quoteTheme : Text := ".it\\'s \x7b color: red; \x7d"

def commentedTheme : Text := "/* b */ .b \x7b color: blue; \x7d"

/-- Behind a theme with an escaped quote a comment stays in the head of its rule,
and the rule is lost. -/
theorem escaped_quote_hides_rule :
    withoutComments quoteTheme = quoteTheme ∧
      ∃ c d e, ofSheet quoteTheme = .ok c ∧ ofSheet commentedTheme = .ok d ∧
        ofSheet (quoteTheme ++ commentedTheme) = .ok e ∧
        e.get "b" ≠ c.get "b" ++ (d.get "b").filter (· ∉ c.get "b") := by
  have first : (ofSheet quoteTheme).toOption.map (get · "b") = some [] := by decide +kernel
  have second : (ofSheet commentedTheme).toOption.map (get · "b") =
      some [{ className := "b", body := "color: blue;" }] := by
    decide +kernel
  have both : (ofSheet (quoteTheme ++ commentedTheme)).toOption.map (get · "b") = some [] := by
    decide +kernel
  obtain ⟨c, hc, none⟩ := exists_of_toOption first
  obtain ⟨d, hd, own⟩ := exists_of_toOption second
  obtain ⟨e, he, lost⟩ := exists_of_toOption both
  refine ⟨by decide, c, d, e, hc, hd, he, ?_⟩
  rw [none, own, lost]
  decide

end Collection

end UtilityLayer.Utility
