import UtilityLayer.Proofs.Css.Blocks
import UtilityLayer.Proofs.Css.Code
import UtilityLayer.Proofs.Css.Strings
import UtilityLayer.Proofs.Utility.Concatenation

/-!
# The strings of hand-authored utilities

A utility has the strings of the block that it is written by, in order, and the
strings of its selector if it keeps one. Their blanks are normalized with the rest
of the text: a string with a run of blanks, or with a blank that is no space, does
not stay as it was written.
-/

set_option autoImplicit false

namespace UtilityLayer.Utility

open Text Css Selector

/-- The text is kept of what is written: its code, normalized. Each string is
normalized too, so the strings stay exactly when all of them are normal. -/
structure KeptOf (written kept : Text) : Prop where
  text : kept = normalize (code written)
  strings : strings kept = (strings (code written)).map normalize
  exact : Css.strings kept = Css.strings (code written) ↔
    ∀ s ∈ Css.strings (code written), normalize s = s

theorem keptOf {written : Text} (closed : (Scan.outside.run (code written)).quote = none) :
    KeptOf written (normalize (code written)) where
  text := rfl
  strings := strings_normalize closed
  exact := by
    rw [strings_normalize closed]
    exact ⟨fun same => List.map_inj_left.mp (same.trans (List.map_id _).symm),
      fun normal => (List.map_congr_left normal).trans (List.map_id _)⟩

section Blocks

variable {head body : Text} {u : Utility}

theorem body_of_rule (h : .utility u ∈ authoredByRule head body) : u.body = normalize body ∧
    ∀ context, u.context = some context →
      ∃ branch ∈ splitOuter ',' head, context.selector = normalize branch := by
  rw [authoredByRule] at h
  split at h
  · cases h
  · obtain ⟨branch, hb, h⟩ := List.mem_flatMap.mp h
    rw [authoredBySelector.eq_def] at h
    split at h
    · cases List.mem_singleton.mp h
    · cases h
    · obtain ⟨c, -, hu⟩ := List.mem_map.mp h
      obtain rfl := Authored.utility.inj hu
      rw [authoredUtility]
      split
      · exact ⟨rfl, by simp⟩
      · refine ⟨rfl, ?_⟩
        rintro context ⟨⟩
        exact ⟨branch, hb, rfl⟩

theorem body_of_block (h : .utility u ∈ authoredByBlock head body) : u.body = normalize body ∧
    ∀ context, u.context = some context →
      ∃ branch ∈ splitOuter ',' head, context.selector = normalize branch := by
  rw [authoredByBlock] at h
  split at h
  · split at h
    · cases h
    · obtain rfl := Authored.utility.inj (List.mem_singleton.mp h)
      exact ⟨rfl, by simp⟩
  · split at h
    · cases h
    · exact body_of_rule h

end Blocks

section Themes

variable {theme h : Text}

/-- A block with this head and this body stands in the theme, outside its comments. -/
def Writes (theme head body : Text) : Prop :=
  ∃ p q, theme = p ++ (head ++ '{' :: (body ++ '}' :: q)) ∧
    code theme = code p ++ (code head ++ '{' :: (code body ++ '}' :: code q))

theorem exists_written {body : Text} (block : HasBlock (code theme) h body) :
    ∃ w b, Writes theme w b ∧ code w = h ∧ code b = body := by
  obtain ⟨p, q, whole, before, opens, closes⟩ := block
  obtain ⟨a, rest, ht, rfl, behind, -⟩ := code_eq_append before whole
  obtain ⟨w, rest, rfl, rfl, inner⟩ := code_eq_append_cons opens.outside rfl (by decide) behind
  obtain ⟨b, z, rfl, rfl, rfl⟩ := code_eq_append_cons closes.outside rfl (by decide) inner
  exact ⟨w, b, ⟨a, z, ht, whole⟩, rfl, rfl⟩

theorem exists_branch {w branch : Text} (opens : Opens (code w))
    (member : branch ∈ splitOuter ',' (trim (code w))) :
    ∃ x s y, w = x ++ (s ++ y) ∧ code s = branch ∧
      (Scan.outside.run (code s)).quote = none := by
  obtain ⟨u, v, split, top, -, ends⟩ := exists_of_mem_splitOuter member
  obtain ⟨z, z', whole, blank, blank'⟩ := exists_trim (code w)
  have before : Scan.outside.run (z ++ u) = .outside := by
    have start := Level.scan_run .top u
    rw [top] at start
    rw [Scan.run_append, (avoids_of_calm (calm_of_blank blank)).2]
    exact start.symm
  have parts : code w = (z ++ u) ++ (branch ++ (v ++ z')) := by
    rw [whole, split]
    simp
  obtain ⟨x, rest, rfl, -, behind, -⟩ := code_eq_append before parts
  obtain ⟨s, y, rfl, rfl, -, -⟩ := codeFrom_eq_append behind
  refine ⟨x, s, y, rfl, rfl, ?_⟩
  rcases ends with rfl | outside
  · have closed := opens.outside
    rw [parts, Scan.run_append, before, List.nil_append, Scan.run_append] at closed
    have quotes : ∀ q, (Scan.outside.run (code s)).quote = some q → isQuote q = true :=
      isQuote_of_run (by simp [Scan.outside]) (code s)
    exact (quote_run_blank quotes blank').symm.trans (congrArg Scan.quote closed)
  · exact congrArg Scan.quote outside

variable {c : Collection}

/-- The utility is kept of a block with this head and this body as written. -/
structure FiledFrom (head body : Text) (u : Utility) : Prop where
  body : KeptOf body u.body
  selector : ∀ context, u.context = some context →
    ∃ x s y, head = x ++ (s ++ y) ∧ code s ∈ splitOuter ',' (trim (code head)) ∧
      KeptOf s context.selector

theorem filedFrom {w b : Text} {u : Utility} (block : HasBlock (code theme) (code w) (code b))
    (authored : .utility u ∈ authoredByBlock (trim (code w)) (code b)) : FiledFrom w b u := by
  obtain ⟨-, -, -, -, opens, closes⟩ := block
  obtain ⟨text, branches⟩ := body_of_block authored
  constructor
  · rw [text]
    exact keptOf (by rw [closes.outside]; rfl)
  · intro context own
    obtain ⟨branch, member, same⟩ := branches context own
    obtain ⟨x, s, y, whole, rfl, closed⟩ := exists_branch opens member
    exact ⟨x, s, y, whole, member, same ▸ keptOf closed⟩

/-- The utilities of a theme whose comments are taken for what they are: each comes
from a block that is written in the theme, and all that come from a block have its
strings, normalized. -/
theorem utilities_have_strings (accepted : Collection.ofSheet theme = .ok c)
    (plain : withoutComments theme = code theme) :
    ∃ leaves, themeLeaves theme = .ok leaves ∧
      (∀ u, u ∈ c.utilities ↔
        ∃ head body, .block head body ∈ leaves ∧ .utility u ∈ authoredByBlock head body) ∧
      ∀ head body, .block head body ∈ leaves →
        ∃ w b, Writes theme w b ∧ head = trim (code w) ∧ body = code b ∧
          ∀ u, .utility u ∈ authoredByBlock head body → FiledFrom w b u := by
  obtain ⟨leaves, read, -, rfl⟩ := Collection.ofSheet_eq_ok_iff.mp accepted
  have members (u : Utility) : u ∈ (Collection.ofList
      ((leaves.flatMap authoredByNode).filterMap Authored.utility?)).utilities ↔
        ∃ head body, .block head body ∈ leaves ∧ .utility u ∈ authoredByBlock head body := by
    rw [Collection.mem_ofList, mem_filterMap_utility, mem_flatMap_authoredByNode]
  refine ⟨leaves, read, members, ?_⟩
  intro head body leaf
  rw [themeLeaves, plain] at read
  cases tree : readTree isLayerHead (code theme) with
  | error e =>
    rw [tree] at read
    cases read
  | ok ns =>
    rw [tree] at read
    obtain rfl := Except.ok.inj read
    obtain ⟨h, rfl, block⟩ := hasBlock_of_leaf tree leaf
    obtain ⟨w, b, written, rfl, rfl⟩ := exists_written block
    exact ⟨w, b, written, rfl, rfl, fun u => filedFrom block⟩

end Themes

def quotingTheme : Text :=
  "/* it's */ @layer a \x7b .b[c=\"x, y\"] .w-1\\/2 \x7b content: \"a \\\" b\" /* \"  \" */; \x7d " ++
    "\x7d @utility tick \x7b content: '/*\x7b;\x7d*/'; \x7d"

/-- The strings of a utility and of its selector. -/
def stringsOf (u : Utility) : List Text × Option (List Text) :=
  (strings u.body, u.context.map fun context => strings context.selector)

def quotingStrings : List (List Text × Option (List Text)) :=
  [([("\"a \\\" b\"" : Text)], some [("\"x, y\"" : Text)]), ([("'/*\x7b;\x7d*/'" : Text)], none)]

theorem quotingTheme_has_strings : ∃ c, Collection.ofSheet quotingTheme = .ok c ∧
    withoutComments quotingTheme = code quotingTheme ∧
    (∀ u ∈ c.utilities, ∃ w b, Writes quotingTheme w b ∧ FiledFrom w b u) ∧
    c.utilities.map stringsOf = quotingStrings := by
  have evaluated : (Collection.ofSheet quotingTheme).toOption.map
      (fun c => c.utilities.map stringsOf) = some quotingStrings := by
    decide +kernel
  obtain ⟨c, accepted, own⟩ := exists_of_toOption evaluated
  have plain := withoutComments_eq_code (t := quotingTheme) (by decide)
  obtain ⟨leaves, -, members, blocks⟩ := utilities_have_strings accepted plain
  refine ⟨c, accepted, plain, ?_, own⟩
  intro u hu
  obtain ⟨head, body, leaf, authored⟩ := (members u).mp hu
  obtain ⟨w, b, writes, -, -, filed⟩ := blocks head body leaf
  exact ⟨w, b, writes, filed u authored⟩

def spacedTheme : Text := ".a \x7b content: \"a  b\"; \x7d"

/-- One of two spaces in a string is lost, although the theme has neither comments
nor escapes. -/
theorem spaces_in_string_lost : withoutComments spacedTheme = spacedTheme ∧
    ∃ body c u, readSheet spacedTheme = .ok [.block ".a" body] ∧
      Collection.ofSheet spacedTheme = .ok c ∧ c.utilities = [u] ∧
      strings u.body ≠ strings body := by
  have evaluated : (Collection.ofSheet spacedTheme).toOption.map Collection.utilities =
      some [{ className := "a", body := "content: \"a b\";" }] := by
    decide +kernel
  obtain ⟨c, accepted, own⟩ := exists_of_toOption evaluated
  exact ⟨by decide, " content: \"a  b\"; ", c, _, by decide +kernel, accepted, own, by decide⟩

end UtilityLayer.Utility
