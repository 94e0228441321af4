import UtilityLayer.Proofs.Selector.Formed

/-!
# Legible selectors

A printed selector is read back where the scans that do not know strings and
escapes stop at the right bracket: no attribute value holds `]`, and the round
brackets of every argument balance when all of them are counted. A branch of a
list is trimmed before it is read, so it must not end with a blank that belongs
to a name. For a simple selector this is all that is needed, and it is needed.
-/

set_option autoImplicit false

namespace UtilityLayer.Selector

open Text Css

/-- The round brackets that stand open after a text, strings and escapes read as
everything else, unless more are closed than were open. -/
def openParens : Nat → Text → Option Nat
  | depth, [] => some depth
  | depth, c :: t =>
    if c = '(' then openParens (depth + 1) t
    else if c = ')' then if depth = 0 then none else openParens (depth - 1) t
    else openParens depth t

theorem map_cons_eq_some_iff {c : Char} {o : Option (Text × Text)} {a r : Text} :
    (o.map fun (a, r) => (c :: a, r)) = some (c :: a, r) ↔ o = some (a, r) := by
  cases o <;> simp [Prod.ext_iff]

theorem argument?_eq_some_iff {depth : Nat} {a rest : Text} :
    argument? depth (a ++ ')' :: rest) = some (a, rest) ↔ openParens depth a = some 0 := by
  induction a generalizing depth with
  | nil =>
    rw [List.nil_append, argument?, if_neg (by decide), if_pos rfl, openParens]
    split
    · simp_all
    · rename_i open_
      simp [open_]
  | cons c a ih =>
    rw [List.cons_append, argument?, openParens]
    split
    · exact map_cons_eq_some_iff.trans ih
    · split
      · split
        · simp
        · exact map_cons_eq_some_iff.trans ih
      · exact map_cons_eq_some_iff.trans ih

/-- No blank at the end of the selector belongs to a name. -/
def Simple.Inked : Simple → Prop
  | .className name | .ident name => ∀ c ∈ name.getLast?, isBlank c = false
  | _ => True

instance : (s : Simple) → Decidable s.Inked
  | .className name | .ident name =>
    decidable_of_iff (name.getLast?.any isBlank = false) (by
      cases h : name.getLast? <;> simp [Simple.Inked, h])
  | .element _ | .universal | .parent | .pseudoClass _ | .pseudoElement _ | .functional _ _
  | .functionalText _ _ | .attribute _ _ => inferInstanceAs (Decidable True)

def Complex.Inked (x : Complex) : Prop := ∀ s ∈ x.subject.getLast?, s.Inked

instance (x : Complex) : Decidable x.Inked :=
  inferInstanceAs (Decidable (∀ s ∈ x.subject.getLast?, s.Inked))

/-- No scan that is blind to strings and escapes ends inside the selector, and no
branch of an argument loses a blank. -/
def Simple.Legible : Simple → Prop
  | .attribute _ value => ']' ∉ value
  | .functional _ branches =>
    openParens 0 (printBranches branches) = some 0 ∧ ∀ x ∈ branches, x.Inked
  | _ => True

instance : (s : Simple) → Decidable s.Legible
  | .attribute _ value => inferInstanceAs (Decidable (']' ∉ value))
  | .functional _ branches => inferInstanceAs
    (Decidable (openParens 0 (printBranches branches) = some 0 ∧ ∀ x ∈ branches, x.Inked))
  | .element _ | .className _ | .ident _ | .universal | .parent | .pseudoClass _
  | .pseudoElement _ | .functionalText _ _ => inferInstanceAs (Decidable True)

def Complex.Legible (x : Complex) : Prop := ∀ c ∈ x.allCompounds, ∀ s ∈ c, s.Legible

instance (x : Complex) : Decidable x.Legible :=
  inferInstanceAs (Decidable (∀ c ∈ x.allCompounds, ∀ s ∈ c, s.Legible))

/-- No name goes on with the text, and no argument stands in front of it. -/
def Ends (rest : Text) : Prop := ∀ c ∈ rest.head?, goesOn c = false ∧ c ≠ '('

theorem Ends.nameless {rest : Text} (h : Ends rest) : Nameless rest := .inr fun c hc => (h c hc).1

theorem Ends.unnamed {rest : Text} (h : Ends rest) : ∀ c ∈ rest.head?, isNameChar c = false := by
  intro c hc
  have stop := (h c hc).1
  simp only [goesOn, isEscapedNameChar, Bool.or_eq_false_iff] at stop
  exact stop.2.1

theorem Named.head {name : Text} (h : Named name) :
    ∃ c n, name = c :: n ∧ isNameChar c = true := by
  obtain ⟨c, n, rfl⟩ := List.exists_cons_of_ne_nil h.1
  exact ⟨c, n, rfl, h.2 c (by simp)⟩

theorem Named.trim_eq {name : Text} (h : Named name) : trim name = name := by
  rw [trim_of_first fun c hc => isBlank_of_isNameChar (h.2 c (List.mem_of_mem_head? hc)),
    trimEnd_of_last fun c hc => isBlank_of_isNameChar (h.2 c (List.mem_of_getLast? hc))]

theorem Quoted.trim_eq {value : Text} (h : Quoted value) : trim value = value := by
  obtain ⟨q, s, rfl, quote, rest⟩ := h
  have solid := isBlank_of_isQuote quote
  have first : ∀ c ∈ (q :: s).head?, isBlank c = false := by simp [solid]
  have last : ∀ c ∈ (q :: s).getLast?, isBlank c = false := by
    simp [List.getLast?_cons, rest.getLast?, solid]
  rw [trim_of_first first, trimEnd_of_last last]

section Simples

variable {arguments : Text → Option (List Complex)} {rest : Text}

/-- What an inner reader makes of the arguments decides whether a functional
pseudo-class is read back. -/
def Simple.ReadBy (arguments : Text → Option (List Complex)) : Simple → Prop
  | .attribute _ value => ']' ∉ value
  | .functional _ branches =>
    openParens 0 (printBranches branches) = some 0 ∧
      arguments (printBranches branches) = some branches
  | _ => True

theorem readSimple_element {name : Text} (named : Named name) (ends : Ends rest) :
    readSimple arguments (name ++ rest) = some (.element name, rest) := by
  have read := name?_eq_some_iff.mpr ⟨named, rfl, ends.unnamed⟩
  obtain ⟨c, n, rfl, hc⟩ := named.head
  have ne {d : Char} (hd : isNameChar d = false) : c ≠ d := by
    rintro rfl
    rw [hc] at hd
    cases hd
  rw [List.cons_append] at read ⊢
  rw [readSimple, if_neg (ne (by decide)), if_neg (ne (by decide)), if_neg (ne (by decide)),
    if_neg (ne (by decide)), if_neg (ne (by decide)), if_neg (ne (by decide)), read]
  rfl

theorem pseudo?_named {name : Text} (named : Named name)
    (unnamed : ∀ c ∈ rest.head?, isNameChar c = false) :
    pseudo? arguments (name ++ rest) =
      some ((functional? arguments name rest).getD (.pseudoClass name, rest)) := by
  have read := name?_eq_some_iff.mpr ⟨named, rfl, unnamed⟩
  obtain ⟨c, n, rfl, hc⟩ := named.head
  rw [List.cons_append] at read ⊢
  rw [pseudo?.eq_def]
  split
  · rename_i u hu
    obtain ⟨rfl, -⟩ := List.cons.inj hu
    cases hc
  · rw [read]
    rfl

theorem readSimple_pseudoClass {name : Text} (named : Named name) (ends : Ends rest) :
    readSimple arguments (':' :: name ++ rest) = some (.pseudoClass name, rest) := by
  have none : functional? arguments name rest = none := by
    rw [functional?.eq_def]
    split
    · exact absurd rfl (ends '(' rfl).2
    · rfl
  show pseudo? arguments (name ++ rest) = _
  rw [pseudo?_named named ends.unnamed, none]
  rfl

theorem readSimple_pseudoElement {name : Text} (named : Named name) (ends : Ends rest) :
    readSimple arguments (':' :: ':' :: name ++ rest) = some (.pseudoElement name, rest) := by
  have read := name?_eq_some_iff.mpr ⟨named, rfl, ends.unnamed⟩
  show (name? (name ++ rest)).map _ = _
  rw [read]
  rfl

theorem readSimple_className {name : Text} (nonempty : name ≠ []) (ends : Ends rest) :
    readSimple arguments (classSelector name ++ rest) = some (.className name, rest) := by
  show (escapedName? (escape name ++ rest)).map _ = _
  rw [(escapedName?_escape_iff nonempty rest).mpr ends.nameless]
  rfl

theorem readSimple_ident {name : Text} (nonempty : name ≠ []) (ends : Ends rest) :
    readSimple arguments ('#' :: escape name ++ rest) = some (.ident name, rest) := by
  show (escapedName? (escape name ++ rest)).map _ = _
  rw [(escapedName?_escape_iff nonempty rest).mpr ends.nameless]
  rfl

theorem readSimple_functional_iff {name t r : Text} {branches : List Complex}
    (named : Named name) :
    readSimple arguments (':' :: name ++ '(' :: t) = some (.functional name branches, r) ↔
      ∃ a, argument? 0 t = some (a, r) ∧ arguments a = some branches := by
  show pseudo? arguments (name ++ '(' :: t) = _ ↔ _
  rw [pseudo?_named named (by simp; decide), functional?]
  cases argument? 0 t with
  | none => simp
  | some p =>
    obtain ⟨a, u⟩ := p
    simp only [Option.map_some, Option.getD_some, functionalOf, Option.some_inj, Prod.mk.injEq]
    cases h : arguments a with
    | none => simp [h]
    | some bs => simp [h, and_comm]

theorem readSimple_attribute {content : Text} (unclosed : ']' ∉ content) :
    readSimple arguments ('[' :: (content ++ ']' :: rest)) = some (attributeOf content, rest) := by
  show (cut? ']' (content ++ ']' :: rest)).map _ = _
  rw [cut?_append unclosed]
  rfl

theorem Named.not_mem {name : Text} (h : Named name) {c : Char} (hc : isNameChar c = false) :
    c ∉ name := by
  intro hm
  rw [h.2 c hm] at hc
  cases hc

def attributeContent (name value : Text) : Text :=
  name ++ if value = [] then [] else '=' :: value

theorem attributeOf_content {name value : Text} (named : Named name)
    (trimmed : trim value = value) :
    attributeOf (attributeContent name value) = .attribute name value := by
  have unmarked : '=' ∉ name := named.not_mem (by decide)
  by_cases empty : value = []
  · have whole : cut? '=' name = none := by
      rw [Option.eq_none_iff_forall_not_mem]
      rintro ⟨a, b⟩ cut
      rw [(cut?_eq_some cut).1] at unmarked
      simp at unmarked
    rw [attributeContent, if_pos empty, List.append_nil, attributeOf, whole, named.trim_eq, empty]
  · rw [attributeContent, if_neg empty, attributeOf, cut?_append unmarked]
    show Simple.attribute (trim name) (trim value) = _
    rw [named.trim_eq, trimmed]

theorem readSimple_attribute_iff {name value r : Text} (named : Named name)
    (quoted : value = [] ∨ Quoted value) :
    readSimple arguments ('[' :: (attributeContent name value ++ ']' :: rest)) =
        some (.attribute name value, r) ↔ r = rest ∧ ']' ∉ value := by
  have trimmed : trim value = value := by
    rcases quoted with rfl | quoted
    · rfl
    · exact quoted.trim_eq
  have nameless : ']' ∉ name := named.not_mem (by decide)
  by_cases held : ']' ∈ value
  · obtain ⟨short, after, hv, unclosed⟩ := List.eq_append_cons_of_mem held
    have some : value ≠ [] := List.ne_nil_of_mem held
    have cut : attributeContent name value ++ ']' :: rest =
        (name ++ '=' :: short) ++ ']' :: (after ++ ']' :: rest) := by
      rw [attributeContent, if_neg some, hv]
      simp
    have early : ']' ∉ name ++ '=' :: short := by simp [nameless, unclosed]
    rw [cut, readSimple_attribute early, attributeOf, cut?_append (named.not_mem (by decide))]
    have shorter : (trim short).length < value.length := by
      have le := trim_length_le short
      rw [hv, List.length_append, List.length_cons]
      omega
    have other : trim short ≠ value := by
      intro same
      rw [same] at shorter
      omega
    simp [other, held]
  · have unclosed : ']' ∉ attributeContent name value := by
      rw [attributeContent]
      split <;> simp [nameless, held]
    rw [readSimple_attribute unclosed, attributeOf_content named trimmed]
    simp [held, eq_comm]

variable (deep : ∀ a xs, arguments a = some xs → AllFormed (compoundsOfBranches xs) → Balanced a)

include deep

theorem readSimple_print_iff {s : Simple} {r : Text} (named : s.WellNamed)
    (within : AllFormed s.compoundsWithin) (ends : s.endsNamed = true → Ends rest) :
    readSimple arguments (s.print ++ rest) = some (s, r) ↔ r = rest ∧ s.ReadBy arguments := by
  match s with
  | .element name =>
    rw [Simple.print, readSimple_element named (ends rfl)]
    simp [Simple.ReadBy, eq_comm]
  | .className name =>
    rw [Simple.print, readSimple_className named (ends rfl)]
    simp [Simple.ReadBy, eq_comm]
  | .ident name =>
    rw [Simple.print, readSimple_ident named (ends rfl)]
    simp [Simple.ReadBy, eq_comm]
  | .universal => simp [Simple.print, readSimple, Simple.ReadBy, eq_comm]
  | .parent => simp [Simple.print, readSimple, Simple.ReadBy, eq_comm]
  | .pseudoClass name =>
    rw [Simple.print, readSimple_pseudoClass named (ends rfl)]
    simp [Simple.ReadBy, eq_comm]
  | .pseudoElement name =>
    rw [Simple.print, readSimple_pseudoElement named (ends rfl)]
    simp [Simple.ReadBy, eq_comm]
  | .functional name branches =>
    have text : (Simple.functional name branches).print ++ rest =
        ':' :: name ++ '(' :: (printBranches branches ++ ')' :: rest) := by simp [Simple.print]
    rw [text, readSimple_functional_iff named.1, Simple.ReadBy]
    constructor
    · rintro ⟨a, ha, read⟩
      -- Both arguments are balanced, so they end at the same bracket.
      have same := (balanced_printBranches within).unique (deep a branches read within)
        (argument?_append ha)
      subst same
      obtain rfl : rest = r := by simpa using argument?_append ha
      exact ⟨rfl, argument?_eq_some_iff.mp ha, read⟩
    · rintro ⟨rfl, balanced, read⟩
      exact ⟨_, argument?_eq_some_iff.mpr balanced, read⟩
  | .functionalText name argument => exact named.elim
  | .attribute name value =>
    have text : (Simple.attribute name value).print ++ rest =
        '[' :: (attributeContent name value ++ ']' :: rest) := by
      simp [Simple.print, attributeContent]
    rw [text, readSimple_attribute_iff named.1 named.2]
    rfl

end Simples

end UtilityLayer.Selector
