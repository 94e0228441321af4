import UtilityLayer.Proofs.Keyed
import UtilityLayer.Proofs.Text.Holds
import UtilityLayer.Proofs.Theme.Declarations
import UtilityLayer.Variant.Table

/-!
# The breakpoints of a theme

The table of a theme has the widths that the theme declares, and the default
width of every other breakpoint. A declared breakpoint goes before every name
that is put together, as `max-sm` or `group-hover`, and behind every fixed name:
`print` stays what it is whatever the theme says of it, although `max-print`
becomes a variant.
-/

set_option autoImplicit false

namespace UtilityLayer

open Text Theme

/-! ## Names of breakpoint variables -/

namespace Theme

def breakpointName (n : Text) : Text := "--breakpoint-" ++ n

theorem familyOf?_breakpointName (n : Text) :
    familyOf? (breakpointName n) = if isSuffix n then some (.breakpoint, n) else none := by
  have bare : (after? "--" (breakpointName n)).getD (breakpointName n) = "breakpoint-" ++ n := rfl
  have led : familyLeads.findSome? (familySuffix? ("breakpoint-".toList ++ n)) =
      if isSuffix n then some (.breakpoint, n) else none := by
    by_cases shape : isSuffix n <;> simp [familyLeads, familySuffix?, after?, Option.filter, shape]
  have word : colorWords.contains (("breakpoint-".toList ++ n).takeWhile (· ≠ '-')) = false := by
    have first : ("breakpoint-".toList ++ n).takeWhile (· ≠ '-') = "breakpoint".toList := rfl
    rw [first]
    decide
  rw [familyOf?, bare, familyOfBare?, led, word]
  by_cases shape : isSuffix n <;> simp [shape]

theorem familyOf?_of_isThemeName {n : Text} (named : isThemeName (breakpointName n) = true) :
    familyOf? (breakpointName n) = some (.breakpoint, n) := by
  rw [isThemeName, Bool.and_eq_true, familyOf?_breakpointName] at named
  rw [familyOf?_breakpointName]
  split at named
  · rename_i shape
    rw [if_pos shape]
  · cases named.2

theorem eq_breakpointName {name n : Text} (named : isThemeName name = true)
    (h : familyOf? name = some (.breakpoint, n)) : name = breakpointName n := by
  rw [isThemeName, Bool.and_eq_true, startsWith, Option.isSome_iff_exists] at named
  obtain ⟨⟨u, hu⟩, -⟩ := named
  rw [familyOf?, hu, Option.getD_some, familyOfBare?] at h
  split at h
  · rename_i found
    obtain ⟨lead, mem, hl⟩ := List.exists_of_findSome?_eq_some found
    rw [h] at hl
    obtain ⟨suffix, hs, same⟩ := Option.map_eq_some_iff.mp hl
    obtain ⟨family, rfl⟩ := Prod.mk.inj same
    have only : ∀ lead ∈ familyLeads, lead.2 = .breakpoint → lead.1 = "breakpoint-".toList := by
      decide
    rw [only lead mem family] at hs
    rw [after?_eq_some_iff.mp hu, after?_eq_some_iff.mp (Option.filter_eq_some_iff.mp hs).1]
    rfl
  · split at h
    · cases h
    · cases h

theorem dashes_of_readProperty {t rest : Text} {d : Text × Text}
    (h : readProperty t = some (d, rest)) : startsWith "--" d.1 = true := by
  rw [readProperty] at h
  split at h
  · cases h
  · split at h
    · obtain ⟨rfl, -⟩ := Prod.mk.inj (Option.some.inj h)
      rfl
    · cases h

theorem dashes_of_mem_declarationsFrom {starts : Bool} {t : Text} {d : Text × Text}
    (h : d ∈ declarationsFrom starts t) : startsWith "--" d.1 = true := by
  fun_induction declarationsFrom starts t with
  | case1 => cases h
  | case2 starts c t e rest read ih =>
    rcases List.mem_cons.mp h with rfl | h
    · split at read
      · exact dashes_of_readProperty read
      · cases read
    · exact ih h
  | case3 starts c t read ih => exact ih h

theorem isThemeName_of_mem_ofSheet {sheet : Text} {v : Text × Text}
    (h : v ∈ (Variables.ofSheet sheet).entries) : isThemeName v.1 = true := by
  have key : v.1 ∈ Keyed.keys (Variables.ofSheet sheet).entries := List.mem_map_of_mem h
  rw [Variables.ofSheet, Variables.keys_ofList, List.mem_eraseDups] at key
  obtain ⟨d, hd, same⟩ := List.mem_map.mp key
  obtain ⟨read, family⟩ := List.mem_filter.mp hd
  rw [← same, isThemeName, dashes_of_mem_declarationsFrom read]
  exact family

end Theme

namespace Variant

/-! ## The table of a theme -/

namespace Table

theorem breakpoint?_addVariable {v : Text × Text} (named : isThemeName v.1 = true) (table : Table)
    (n : Text) : (table.addVariable v).breakpoint? n =
      if v.1 = breakpointName n then some v.2 else table.breakpoint? n := by
  by_cases h : v.1 = breakpointName n
  · have family := familyOf?_of_isThemeName (h ▸ named)
    rw [if_pos h, addVariable, h, family]
    exact breakpoint?_setBreakpoint_self table n v.2
  · rw [if_neg h, addVariable]
    split
    · rename_i m family
      have other : n ≠ m := by
        rintro rfl
        exact h (eq_breakpointName named family)
      exact breakpoint?_setBreakpoint_of_ne table other v.2
    · rfl

theorem breakpoint?_foldl {vs : List (Text × Text)} (named : ∀ v ∈ vs, isThemeName v.1 = true)
    (distinct : (Keyed.keys vs).Nodup) (table : Table) (n : Text) :
    (vs.foldl addVariable table).breakpoint? n =
      (Keyed.get? (breakpointName n) vs).or (table.breakpoint? n) := by
  induction vs generalizing table with
  | nil => rfl
  | cons v vs ih =>
    simp only [Keyed.keys, List.map_cons, List.nodup_cons] at distinct
    rw [List.foldl_cons, ih (fun w hw => named w (by simp [hw])) distinct.2,
      breakpoint?_addVariable (named v (by simp))]
    by_cases h : v.1 = breakpointName n
    · rw [← h, Keyed.get?_eq_none_iff.mpr distinct.1]
      simp [Keyed.get?]
    · simp [Keyed.get?, h]

def ofTheme (theme : Text) : Table := ofVariables (.ofSheet theme)

def declared? (theme n : Text) : Option Text := (Variables.ofSheet theme).get? (breakpointName n)

theorem breakpoint?_ofTheme (theme n : Text) :
    (ofTheme theme).breakpoint? n = (declared? theme n).or (default.breakpoint? n) :=
  breakpoint?_foldl (fun _ hv => isThemeName_of_mem_ofSheet hv) (Variables.ofSheet theme).distinct
    default n

/-! ## Resolution -/

end Table

def atLeast (w : Text) : Variant := ⟨"@media (min-width: " ++ w ++ ")", .media, false⟩

def below (w : Text) : Variant := ⟨"@media (width < " ++ w ++ ")", .media, false⟩

namespace Table

variable {table other : Table} {name n s w : Text}

theorem resolve?_of_fixed (h : fixed? n = some s) : table.resolve? n = some (named s) := by
  rw [resolve?, selector?, h]
  rfl

theorem resolve?_of_breakpoint (free : fixed? n = none) (h : table.breakpoint? n = some w) :
    table.resolve? n = some (atLeast w) := by
  rw [resolve?, selector?, free, minWidth?, h]
  rfl

theorem resolve?_max (free : fixed? ("max-" ++ n) = none)
    (undeclared : table.breakpoint? ("max-" ++ n) = none) (h : table.breakpoint? n = some w) :
    table.resolve? ("max-" ++ n) = some (below w) := by
  rw [resolve?, selector?, free, minWidth?, undeclared, maxWidth?, after?_append, Option.bind_some,
    h]
  rfl

/-- A name resolves alike in two tables with the same widths for it and for what
stands behind `max-` in it. -/
theorem resolve?_congr (own : table.breakpoint? name = other.breakpoint? name)
    (behind : ∀ n : Text, name = "max-" ++ n → table.breakpoint? n = other.breakpoint? n) :
    table.resolve? name = other.resolve? name := by
  have most : table.maxWidth? name = other.maxWidth? name := by
    rw [maxWidth?, maxWidth?]
    cases h : after? "max-" name with
    | none => rfl
    | some n => rw [Option.bind_some, Option.bind_some, behind n (after?_eq_some_iff.mp h)]
  rw [resolve?, resolve?, selector?, selector?, minWidth?, minWidth?, own, most]

theorem get?_max {es : List (Text × Text)}
    (free : ∀ key ∈ Keyed.keys es, startsWith "max-" key = false) (n : Text) :
    Keyed.get? ("max-" ++ n) es = none := by
  refine Keyed.get?_eq_none_iff.mpr fun member => ?_
  exact ne_append_of_startsWith (free _ member) n rfl

theorem named_ne_atLeast (h : fixed? n = some s) (w : Text) : named s ≠ atLeast w := by
  have free : ∀ e ∈ fixedNames, startsWith "@media (min-width: " e.2 = false := by
    decide +kernel
  intro same
  have text : s = "@media (min-width: ".toList ++ (w ++ ")".toList) :=
    congrArg Variant.selector same
  exact ne_append_of_startsWith (free _ (Keyed.mem_of_get? h)) _ text

/-- How names resolve under a theme: a declared breakpoint is what the theme says
exactly if its name is not fixed, and a fixed name stays what it is; `max-` before
a declared breakpoint is everything narrower, unless it is declared itself; and
every other name is what it is by default. -/
theorem resolve?_ofTheme (theme : Text) :
    (∀ n w, declared? theme n = some w →
      ((ofTheme theme).resolve? n = some (atLeast w) ↔ fixed? n = none) ∧
        (fixed? n ≠ none → (ofTheme theme).resolve? n = default.resolve? n)) ∧
    (∀ n w, declared? theme n = some w → declared? theme ("max-" ++ n) = none →
      (ofTheme theme).resolve? ("max-" ++ n) = some (below w)) ∧
    ∀ name, declared? theme name = none →
      (∀ n : Text, name = "max-" ++ n → declared? theme n = none) →
      (ofTheme theme).resolve? name = default.resolve? name := by
  refine ⟨?_, ?_, ?_⟩
  · intro n w declared
    have width : (ofTheme theme).breakpoint? n = some w := by
      rw [breakpoint?_ofTheme, declared]
      rfl
    cases h : fixed? n with
    | none => simp [resolve?_of_breakpoint h width]
    | some s =>
      rw [resolve?_of_fixed h, resolve?_of_fixed h]
      simp [named_ne_atLeast h]
  · intro n w declared undeclared
    apply resolve?_max
    · exact get?_max (by decide) n
    · rw [breakpoint?_ofTheme, undeclared]
      exact get?_max (by decide) n
    · rw [breakpoint?_ofTheme, declared]
      rfl
  · intro name undeclared narrower
    apply resolve?_congr
    · rw [breakpoint?_ofTheme, undeclared]
      rfl
    · intro n whole
      rw [breakpoint?_ofTheme, narrower n whole]
      rfl

def printTheme : Text :=
  ":root \x7b --breakpoint-sm: 40rem; --breakpoint-3xl: 120rem; --breakpoint-print: 10rem; \x7d"

def printVariables : List (Text × Text) :=
  [("--breakpoint-sm", "40rem"), ("--breakpoint-3xl", "120rem"), ("--breakpoint-print", "10rem")]

theorem entries_printTheme : (Variables.ofSheet printTheme).entries = printVariables := by
  decide +kernel

theorem declared?_printTheme (n : Text) :
    declared? printTheme n = Keyed.get? (breakpointName n) printVariables := by
  rw [declared?, Variables.get?, entries_printTheme]

theorem printTheme_resolves :
    (declared? printTheme "sm" = some ("40rem" : Text) ∧
      (ofTheme printTheme).resolve? "sm" = some (atLeast "40rem")) ∧
    (declared? printTheme "print" = some ("10rem" : Text) ∧ fixed? "print" ≠ none ∧
      (ofTheme printTheme).resolve? "print" = default.resolve? "print") ∧
    (declared? printTheme "3xl" = some ("120rem" : Text) ∧
      declared? printTheme "max-3xl" = none ∧
      (ofTheme printTheme).resolve? "max-3xl" = some (below "120rem")) ∧
    (declared? printTheme "md" = none ∧
      (ofTheme printTheme).resolve? "md" = default.resolve? "md") := by
  have law := resolve?_ofTheme printTheme
  have sm : declared? printTheme "sm" = some ("40rem" : Text) := declared?_printTheme _
  have print : declared? printTheme "print" = some ("10rem" : Text) := declared?_printTheme _
  have fixed : fixed? "print" ≠ none := by decide
  have wide : declared? printTheme "3xl" = some ("120rem" : Text) := declared?_printTheme _
  have narrow : declared? printTheme "max-3xl" = none := declared?_printTheme _
  have md : declared? printTheme "md" = none := declared?_printTheme _
  refine ⟨⟨sm, (law.1 _ _ sm).1.mpr rfl⟩, ⟨print, fixed, (law.1 _ _ print).2 fixed⟩,
    ⟨wide, narrow, law.2.1 _ _ wide narrow⟩, md, ?_⟩
  have foreign : startsWith "max-" "md" = false := rfl
  exact law.2.2 _ md fun n whole => absurd whole (ne_append_of_startsWith foreign n)

/-- A declared breakpoint with a fixed name is not reached under it. -/
theorem fixed_name_hides_breakpoint :
    declared? printTheme "print" = some ("10rem" : Text) ∧
      (ofTheme printTheme).resolve? "print" = some ⟨"@media print", .media, false⟩ ∧
      (ofTheme printTheme).resolve? "print" ≠ some (atLeast "10rem") ∧
      (ofTheme printTheme).resolve? "max-print" = some (below "10rem") := by
  rw [declared?_printTheme, ofTheme, ofVariables, entries_printTheme]
  decide +kernel

end Table

end Variant

end UtilityLayer
