import UtilityLayer.Proofs.Selector.Following
import UtilityLayer.Selector.Mention

/-!
# What the flat scan finds in a selector

The flat scan reads the text of a selector without its grammar. It finds the
classes that the readers find, at any depth, and those in the arguments that are
no selectors. For this the dots of attributes are quoted or escaped and quotes are
closed as the scan sees them, which knows escapes outside strings only; and no
blank outside ASCII, which the readers trim and the scan takes for a part of a
name, stands behind a class.
-/

set_option autoImplicit false

namespace UtilityLayer.Selector

open Text Css

namespace MentionScan

def run (s : MentionScan) (t : Text) : MentionScan := t.foldl step s

def quotes : MentionScan → Bool
  | .inString _ => true
  | _ => false

end MentionScan

/-- A dot stands outside strings and is not escaped. -/
def dotted : MentionScan → Text → Bool
  | _, [] => false
  | s, c :: t => s == .outside && c == '.' || dotted (s.step c) t

theorem dotted_append (s : MentionScan) (a b : Text) :
    dotted s (a ++ b) = (dotted s a || dotted (s.run a) b) := by
  induction a generalizing s with
  | nil => rfl
  | cons c a ih => rw [List.cons_append, dotted, dotted, ih, Bool.or_assoc]; rfl

theorem dotted_of_not_mem {t : Text} (h : '.' ∉ t) (s : MentionScan) : dotted s t = false := by
  induction t generalizing s with
  | nil => rfl
  | cons c t ih =>
    simp only [List.mem_cons, not_or] at h
    rw [dotted, ih h.2, beq_false_of_ne (Ne.symm h.1), Bool.and_false, Bool.or_false]

theorem mentionsFrom_append {s : MentionScan} {a : Text} (h : dotted s a = false) (t : Text) :
    mentionsFrom s (a ++ t) = mentionsFrom (s.run a) t := by
  induction a generalizing s with
  | nil => rfl
  | cons c a ih =>
    rw [dotted, Bool.or_eq_false_iff] at h
    have other : ¬ (s = .outside ∧ c = '.') := by simpa using h.1
    rw [List.cons_append, mentionsFrom, if_neg other]
    exact ih h.2

/-- A text that the scan passes over and that leaves it outside. -/
structure Silent (t : Text) : Prop where
  undotted : dotted .outside t = false
  outside : MentionScan.outside.run t = .outside

def isDull (c : Char) : Bool := c != '.' && c != '\\' && !isQuote c

theorem isDull_of {p : Char → Bool} {c : Char}
    (h : ['.', '\\', '"', '\''].all (fun d => !p d) = true) (hc : p c = true) :
    isDull c = true := by
  have not {d : Char} (hd : d ∈ ['.', '\\', '"', '\'']) : c ≠ d := by
    rintro rfl
    have hp := List.all_eq_true.mp h c hd
    simp [hc] at hp
  simp [isDull, isQuote, not]

namespace Silent

variable {a b t : Text} {c : Char}

theorem scan (h : Silent a) (t : Text) : mentionsFrom .outside (a ++ t) = mentionsFrom .outside t := by
  rw [mentionsFrom_append h.undotted, h.outside]

theorem nil : Silent [] := ⟨rfl, rfl⟩

theorem append (ha : Silent a) (hb : Silent b) : Silent (a ++ b) where
  undotted := by rw [dotted_append, ha.undotted, ha.outside, hb.undotted]; rfl
  outside := by
    rw [MentionScan.run, List.foldl_append]
    exact (congrArg (List.foldl MentionScan.step · b) ha.outside).trans hb.outside

theorem dull (h : isDull c = true) : Silent [c] := by
  simp only [isDull, Bool.and_eq_true, bne_iff_ne, Bool.not_eq_true'] at h
  obtain ⟨⟨dot, bare⟩, unquoted⟩ := h
  constructor
  · simp [dotted, dot]
  · simp [MentionScan.run, MentionScan.step, bare, unquoted]

theorem cons (h : isDull c = true) (ht : Silent t) : Silent (c :: t) := (dull h).append ht

theorem of_forall {p : Char → Bool} (none : ['.', '\\', '"', '\''].all (fun d => !p d) = true)
    (h : ∀ c ∈ t, p c = true) : Silent t := by
  induction t with
  | nil => exact nil
  | cons c t ih =>
    exact cons (isDull_of none (h c (by simp))) (ih fun d hd => h d (by simp [hd]))

end Silent

theorem silent_blank {t : Text} (h : isBlankText t = true) : Silent t :=
  .of_forall (by decide) (List.all_eq_true.mp h)

theorem silent_name {t : Text} (h : ∀ c ∈ t, isNameChar c = true) : Silent t :=
  .of_forall (by decide) h

theorem silent_readEscaped (t : Text) :
    ∃ spelling, t = spelling ++ (readEscaped t).2 ∧ Silent spelling := by
  apply readEscaped_spelled (P := Silent) .nil .append fun c => ⟨rfl, rfl⟩
  intro c bare hc
  apply Silent.dull
  exact isDull_of (p := fun c => c != '\\' && (isEscapedNameChar c || c == ' ')) (by decide)
    (by simpa [bare] using hc)

theorem silent_escape (name : Text) : Silent (escape name) := by
  obtain ⟨spelling, written, silent⟩ := silent_readEscaped (escape name)
  rw [readEscaped_eq_of_escape, List.append_nil] at written
  rw [written]
  exact silent

/-- The dots of the text are quoted or escaped and its quotes are closed. -/
structure Sealed (t : Text) : Prop where
  dots : dotted .outside t = false
  quotes : (MentionScan.outside.run t).quotes = false

instance (t : Text) : Decidable (Sealed t) :=
  decidable_of_iff (dotted .outside t = false ∧ (MentionScan.outside.run t).quotes = false)
    ⟨fun h => ⟨h.1, h.2⟩, fun h => ⟨h.dots, h.quotes⟩⟩

theorem Sealed.silent {t : Text} (h : Sealed t) {c : Char} (dull : isDull c = true) :
    Silent (t ++ [c]) := by
  have alone := Silent.dull dull
  cases hs : MentionScan.outside.run t with
  | inString q =>
    have closed := h.quotes
    rw [hs] at closed
    cases closed
  | outside => exact Silent.append ⟨h.dots, hs⟩ alone
  | afterEscape =>
    constructor
    · rw [dotted_append, h.dots, hs]
      rfl
    · rw [MentionScan.run, List.foldl_append]
      exact congrArg (List.foldl MentionScan.step · [c]) hs

def Simple.shown : Simple → List Text
  | .className name => [name]
  | .functionalText _ argument => mentions argument
  | _ => []

/-- The scan comes out of the atom as it went in. -/
def Simple.Sealed : Simple → Prop
  | .attribute name value => Selector.Sealed name ∧ Selector.Sealed value
  | .functionalText _ argument => MentionScan.outside.run argument = .outside
  | _ => True

instance : (s : Simple) → Decidable s.Sealed
  | .attribute name value =>
    inferInstanceAs (Decidable (Selector.Sealed name ∧ Selector.Sealed value))
  | .functionalText _ argument =>
    inferInstanceAs (Decidable (MentionScan.outside.run argument = .outside))
  | .element _ | .className _ | .ident _ | .universal | .parent | .pseudoClass _
  | .pseudoElement _ | .functional _ _ => inferInstanceAs (Decidable True)

/-- A name that does not end with a blank outside ASCII. -/
def PlainEnd (name : Text) : Prop := ∀ c ∈ name.getLast?, isBlank c = true → c.toNat < 128

instance (name : Text) : Decidable (PlainEnd name) := Option.decidableForallMem name.getLast?

theorem PlainEnd.eq_nil {name e : Text} (h : PlainEnd (name ++ e))
    (wide : ∀ c ∈ e, isBlank c = true ∧ ¬ c.toNat < 128) : e = [] := by
  rcases List.eq_nil_or_concat e with none | ⟨e, d, rfl⟩
  · exact none
  · obtain ⟨blank, high⟩ := wide d (by simp)
    have last : (name ++ e.concat d).getLast? = some d := by
      rw [List.concat_eq_append, ← List.append_assoc, List.getLast?_concat]
    exact absurd (h d last blank) high

/-- What may stand behind a branch or an argument: blanks, and then a comma, a
closing bracket or nothing. -/
def Ending (t : Text) : Prop :=
  ∃ z v, t = z ++ v ∧ isBlankText z = true ∧ ∀ c ∈ v.head?, c = ',' ∨ c = ')'

namespace Ending

variable {t : Text}

theorem blank {z : Text} (h : isBlankText z = true) (ending : Ending t) : Ending (z ++ t) := by
  obtain ⟨w, v, rfl, blank, mark⟩ := ending
  refine ⟨z ++ w, v, (List.append_assoc z w v).symm, ?_, mark⟩
  rw [isBlankText, List.all_append, Bool.and_eq_true]
  exact ⟨h, blank⟩

theorem skipSpace (h : Ending t) : Ending (skipSpace t) := by
  rcases skipSpace_eq t with same | space
  · rwa [same]
  · obtain ⟨z, v, same, blank, mark⟩ := h
    rw [same] at space
    cases z with
    | nil =>
      rw [List.nil_append] at space
      have first := mark ' ' (by rw [space]; rfl)
      exact absurd first (by decide)
    | cons c z =>
      obtain ⟨-, behind⟩ := List.cons.inj space
      rw [same, ← behind]
      rw [isBlankText, List.all_cons, Bool.and_eq_true] at blank
      exact ⟨z, v, rfl, blank.2, mark⟩

theorem readEscaped (h : Ending t) :
    ∀ c ∈ (readEscaped t).1, isBlank c = true ∧ ¬ c.toNat < 128 := by
  obtain ⟨z, v, rfl, blank, mark⟩ := h
  induction z with
  | nil =>
    have none : Css.readEscaped ([] ++ v) = ([], v) := by
      apply readEscaped_of_nameless (.inr ?_)
      intro c hc
      rcases mark c hc with rfl | rfl <;> decide
    rw [none]
    simp
  | cons c z ih =>
    obtain ⟨hc, hz⟩ : isBlank c = true ∧ isBlankText z = true := by simpa [isBlankText] using blank
    have bare : c ≠ '\\' := by
      rintro rfl
      exact absurd hc (by decide)
    rw [List.cons_append]
    by_cases wide : isEscapedNameChar c = true
    · rw [readEscaped_of_nameChar bare wide]
      have high : ¬ c.toNat < 128 := by
        rw [isEscapedNameChar, isNameChar_of_isBlank hc, Bool.false_or, decide_eq_true_eq] at wide
        omega
      intro d hd
      rcases List.mem_cons.mp hd with rfl | hd
      · exact ⟨hc, high⟩
      · exact ih hz d hd
    · rw [readEscaped_of_stop bare (by simpa using wide)]
      simp

theorem head (h : Ending t) : ∀ c ∈ t.head?, isHexDigit c = false := by
  obtain ⟨z, v, rfl, blank, mark⟩ := h
  intro c hc
  cases z with
  | nil => rcases mark c hc with rfl | rfl <;> decide
  | cons d z =>
    obtain rfl : d = c := by simpa using hc
    rw [isBlankText, List.all_cons, Bool.and_eq_true] at blank
    apply isHexDigit_of_not_plain
    intro plain
    have named := isNameChar_of_plain plain
    rw [isNameChar_of_isBlank blank.1] at named
    cases named

theorem readEscaped_append {u : Text} (ending : Ending t) (whole : (Css.readEscaped u).2 ≠ ['\\']) :
    ∃ e, (Css.readEscaped (u ++ t)).1 = (Css.readEscaped u).1 ++ e ∧
      ∀ c ∈ e, isBlank c = true ∧ ¬ c.toNat < 128 := by
  obtain ⟨e, longer, cases⟩ := Css.readEscaped_append ending.head whole
  refine ⟨e, longer, ?_⟩
  rcases cases with ⟨-, rfl⟩ | rfl | rfl
  · simp
  · exact ending.readEscaped
  · exact ending.skipSpace.readEscaped

end Ending

theorem mentionsFrom_dot (t : Text) : mentionsFrom .outside ('.' :: t) =
    (if (readEscaped t).1 = [] then [] else [(readEscaped t).1]) ++ mentionsFrom .outside t := by
  have step : MentionScan.outside.step '.' = .outside := rfl
  rw [mentionsFrom, if_pos ⟨rfl, rfl⟩, step, escapedName?]
  cases hr : readEscaped t with
  | mk name rest => cases name <;> rfl

theorem mentionsFrom_className {u rest y name : Text} (read : escapedName? u = some (name, rest))
    (paired : Paired rest) (ending : Ending y)
    (solid : ∀ n ∈ mentionsFrom .outside ('.' :: (u ++ y)), PlainEnd n) :
    mentionsFrom .outside ('.' :: (u ++ y)) = name :: mentionsFrom .outside (rest ++ y) := by
  obtain ⟨nonempty, hu⟩ := escapedName?_eq_some_iff.mp read
  have whole : (readEscaped u).2 ≠ ['\\'] := by
    rw [hu]
    rintro rfl
    cases paired
  obtain ⟨e, longer, wide⟩ := ending.readEscaped_append whole
  rw [hu] at longer
  obtain ⟨spelling, written, silent⟩ := silent_readEscaped u
  rw [hu] at written
  have later : mentionsFrom .outside (u ++ y) = mentionsFrom .outside (rest ++ y) := by
    rw [written, List.append_assoc, silent.scan]
  have found : mentionsFrom .outside ('.' :: (u ++ y)) =
      (name ++ e) :: mentionsFrom .outside (rest ++ y) := by
    rw [mentionsFrom_dot, longer, later, if_neg (List.append_ne_nil_of_left_ne_nil nonempty e)]
    rfl
  have none : e = [] := (solid (name ++ e) (by rw [found]; exact List.mem_cons_self)).eq_nil wide
  rw [found, none, List.append_nil]

theorem mentionsFrom_argument {s : MentionScan} {a : Text} (outside : s.run a = .outside) (v : Text) :
    mentionsFrom s (a ++ ')' :: v) = mentionsFrom s a ++ mentionsFrom .outside v := by
  induction a generalizing s with
  | nil =>
    obtain rfl : s = .outside := outside
    rfl
  | cons c a ih =>
    have later := ih (s := s.step c) outside
    by_cases dot : s = .outside ∧ c = '.'
    · obtain ⟨rfl, rfl⟩ := dot
      obtain ⟨spelling, written, silent⟩ := silent_readEscaped a
      have whole : (readEscaped a).2 ≠ ['\\'] := by
        intro lone
        have same : MentionScan.outside.run a = .outside := outside
        rw [written, lone, MentionScan.run, List.foldl_append] at same
        have ends := congrArg (List.foldl MentionScan.step · ['\\']) silent.outside
        cases ends.symm.trans same
      have stop : readEscaped (')' :: v) = ([], ')' :: v) := readEscaped_of_nameless (.inr (by simp; decide))
      obtain ⟨e, longer, cases⟩ := readEscaped_append (y := ')' :: v) (by simp; decide) whole
      have none : e = [] := by
        rcases cases with ⟨-, rfl⟩ | rfl | rfl
        · rfl
        · rw [stop]
        · exact congrArg Prod.fst stop
      rw [none, List.append_nil] at longer
      have rest : mentionsFrom .outside (a ++ ')' :: v) =
          mentionsFrom .outside a ++ mentionsFrom .outside v := later
      rw [List.cons_append, mentionsFrom_dot, mentionsFrom_dot, longer, rest, List.append_assoc]
    · rw [List.cons_append, mentionsFrom, mentionsFrom, if_neg dot, if_neg dot, later]

theorem mentionsFrom_functional {name : Text} (named : Named name) (argument rest y : Text) :
    mentionsFrom .outside (':' :: name ++ '(' :: (argument ++ [')']) ++ rest ++ y) =
      mentionsFrom .outside (argument ++ ')' :: (rest ++ y)) := by
  have lead : Silent (':' :: name ++ ['(']) :=
    .append (.cons (by decide) (silent_name named.2)) (.dull (by decide))
  have text : ':' :: name ++ '(' :: (argument ++ [')']) ++ rest ++ y =
      (':' :: name ++ ['(']) ++ (argument ++ ')' :: (rest ++ y)) := by simp
  rw [text, lead.scan]

theorem silent_trimmed {t : Text} (h : Sealed (trim t)) {c : Char} (dull : isDull c = true) :
    Silent (t ++ [c]) := by
  obtain ⟨a, z, whole, before, after⟩ := exists_trim t
  have lead := silent_blank before
  rw [whole]
  cases z with
  | nil =>
    rw [List.append_nil, List.append_assoc]
    exact lead.append (h.silent dull)
  | cons d z =>
    obtain ⟨blank, rest⟩ : isBlank d = true ∧ isBlankText z = true := by
      simpa [isBlankText] using after
    have inner := h.silent (isDull_of (by decide) blank)
    have parts : a ++ trim t ++ d :: z ++ [c] = a ++ ((trim t ++ [d]) ++ (z ++ [c])) := by simp
    rw [parts]
    exact lead.append (inner.append ((silent_blank rest).append (.dull dull)))

theorem silent_attribute {content : Text} (h : (attributeOf content).Sealed) :
    Silent (content ++ [']']) := by
  rw [attributeOf] at h
  split at h
  · rename_i name value cut
    obtain ⟨rfl, -⟩ := cut?_eq_some cut
    have parts : name ++ '=' :: value ++ [']'] = (name ++ ['=']) ++ (value ++ [']']) := by simp
    rw [parts]
    exact (silent_trimmed h.1 (by decide)).append (silent_trimmed h.2 (by decide))
  · exact silent_trimmed h.1 (by decide)

section

variable {arguments : Text → Option (List Complex)} {y t rest : Text}

/-- Between a text and what is left of it the scan finds what the atoms show, and
`y` stands behind both. -/
def Scans (y : Text) (atoms : List Simple) (t rest : Text) : Prop :=
  Paired rest → Paired t ∧
    ((∀ s ∈ atoms, s.Sealed) → (∀ n ∈ mentionsFrom .outside (t ++ y), PlainEnd n) →
      mentionsFrom .outside (t ++ y) =
        atoms.flatMap Simple.shown ++ mentionsFrom .outside (rest ++ y))

def Shows (t : Text) (xs : List Complex) : Prop :=
  ∀ y, Ending y → (∀ s ∈ atomsOfBranches xs, s.Sealed) →
    (∀ n ∈ mentionsFrom .outside (t ++ y), PlainEnd n) →
      mentionsFrom .outside (t ++ y) =
        (atomsOfBranches xs).flatMap Simple.shown ++ mentionsFrom .outside y

namespace Scans

theorem refl (t : Text) : Scans y [] t t := fun paired => ⟨paired, fun _ _ => rfl⟩

theorem trans {a b : List Simple} {u v : Text} (first : Scans y a t u) (second : Scans y b u v) :
    Scans y (a ++ b) t v := by
  intro paired
  obtain ⟨middle, later⟩ := second paired
  obtain ⟨whole, sooner⟩ := first middle
  refine ⟨whole, ?_⟩
  intro closed solid
  have here := sooner (fun s hs => closed s (List.mem_append_left b hs)) solid
  rw [here] at solid
  rw [here, List.flatMap_append, List.append_assoc,
    later (fun s hs => closed s (List.mem_append_right a hs))
      fun n hn => solid n (List.mem_append_right _ hn)]

theorem silent {w : Text} {atoms : List Simple} (paired : Paired w)
    (quiet : (∀ s ∈ atoms, s.Sealed) → Silent w) (none : atoms.flatMap Simple.shown = []) :
    Scans y atoms (w ++ rest) rest := by
  intro behind
  refine ⟨paired.append behind, ?_⟩
  intro closed solid
  rw [none, List.append_assoc, (quiet closed).scan]
  rfl

end Scans

theorem escapedName?_silent {w name : Text} (h : escapedName? (w ++ rest) = some (name, rest)) :
    Silent w := by
  obtain ⟨spelling, written, silent⟩ := silent_readEscaped (w ++ rest)
  rw [(escapedName?_eq_some_iff.mp h).2] at written
  rw [List.append_cancel_right written]
  exact silent

variable (deep : ∀ a xs, arguments a = some xs → Shows a xs)

include deep

theorem scans_simple (ending : Ending y) {s : Simple}
    (h : readSimple arguments t = some (s, rest)) : Scans y s.atoms t rest := by
  obtain ⟨w, rfl, spelled⟩ := readSimple_spelled h
  have paired := spelled.paired
  cases spelled with
  | element named => exact .silent paired (fun _ => silent_name named.2) rfl
  | @className name w nonempty whole =>
    obtain ⟨⟨n, r⟩, read, same⟩ := Option.map_eq_some_iff.mp h
    obtain ⟨rfl, rfl⟩ : n = name ∧ r = rest := by simpa using same
    intro behind
    refine ⟨paired.append behind, ?_⟩
    intro closed solid
    exact mentionsFrom_className (u := w ++ r) read behind ending solid
  | @ident name w nonempty whole =>
    obtain ⟨⟨n, r⟩, read, same⟩ := Option.map_eq_some_iff.mp h
    obtain ⟨rfl, rfl⟩ : n = name ∧ r = rest := by simpa using same
    exact .silent paired (fun _ => .cons (by decide) (escapedName?_silent read)) rfl
  | universal => exact .silent paired (fun _ => ⟨rfl, rfl⟩) rfl
  | parent => exact .silent paired (fun _ => ⟨rfl, rfl⟩) rfl
  | pseudoClass named =>
    exact .silent paired (fun _ => .cons (by decide) (silent_name named.2)) rfl
  | pseudoElement named =>
    exact .silent paired
      (fun _ => .cons (by decide) (.cons (by decide) (silent_name named.2))) rfl
  | @functional name argument branches named read =>
    intro behind
    refine ⟨paired.append behind, ?_⟩
    intro closed solid
    have ends : Ending (')' :: (rest ++ y)) := ⟨[], _, rfl, rfl, by simp⟩
    rw [mentionsFrom_functional named] at solid ⊢
    rw [deep argument branches read _ ends closed solid]
    rfl
  | @functionalText name argument named unread =>
    intro behind
    refine ⟨paired.append behind, ?_⟩
    intro closed solid
    have outside : MentionScan.outside.run argument = .outside := closed _ List.mem_cons_self
    rw [mentionsFrom_functional named, mentionsFrom_argument outside]
    simp [Simple.atoms, Simple.shown, mentions]
  | @bracketed content unclosed =>
    have atom : (attributeOf content).atoms = [attributeOf content] ∧
        (attributeOf content).shown = [] := by
      rw [attributeOf]
      split <;> exact ⟨rfl, rfl⟩
    refine .silent paired (fun closed => .cons (by decide) (silent_attribute ?_)) ?_
    · exact closed _ (by rw [atom.1]; exact List.mem_cons_self)
    · rw [atom.1, List.flatMap_singleton, atom.2]

theorem follows_scans (ending : Ending y) : Follows arguments (Scans y) where
  refl := Scans.refl
  trans := Scans.trans
  between := by
    intro c h t
    have dull : isDull c = true := isDull_of (p := isBetween) (by decide) h
    have bare : c ≠ '\\' := by
      rintro rfl
      cases dull
    exact Scans.silent (w := [c]) (paired_concat bare []) (fun _ => .dull dull) rfl
  simple := scans_simple deep ending

theorem shows_branch {x : Complex} (h : readBranch arguments t = some x) (ending : Ending y)
    (closed : ∀ s ∈ x.atoms, s.Sealed) (solid : ∀ n ∈ mentionsFrom .outside (t ++ y), PlainEnd n) :
    mentionsFrom .outside (t ++ y) =
      x.atoms.flatMap Simple.shown ++ mentionsFrom .outside y := by
  obtain ⟨a, z, whole, before, after⟩ := exists_trim t
  have parts : t ++ y = a ++ (trim t ++ (z ++ y)) := by
    rw [← List.append_assoc, ← List.append_assoc, ← whole]
  rw [parts, (silent_blank before).scan] at solid ⊢
  have scans := (follows_scans deep (ending.blank after)).branch h rfl
  rw [scans.2 closed solid, List.nil_append, (silent_blank after).scan]

theorem shows_branches {ts : List Text} {xs : List Complex}
    (read : List.Forall₂ (fun t x => readBranch arguments t = some x) ts xs) :
    Shows (join [','] ts) xs := by
  induction read with
  | nil => exact fun y _ _ _ => rfl
  | @cons t x ts xs hx others ih =>
    intro y ending closed solid
    have first : ∀ s ∈ x.atoms, s.Sealed := fun s hs => closed s (List.mem_append_left _ hs)
    have rest : ∀ s ∈ atomsOfBranches xs, s.Sealed :=
      fun s hs => closed s (List.mem_append_right _ hs)
    rw [atomsOfBranches, List.flatMap_append, List.append_assoc]
    cases others with
    | nil =>
      rw [join_singleton] at solid ⊢
      exact shows_branch deep hx ending first solid
    | @cons u x' ts xs hy others =>
      have parts : join [','] (t :: u :: ts) ++ y = t ++ ([','] ++ (join [','] (u :: ts) ++ y)) := by
        rw [join_cons_cons]
        simp
      have ends : Ending ([','] ++ (join [','] (u :: ts) ++ y)) := ⟨[], _, rfl, rfl, by simp⟩
      have comma : Silent [','] := .dull (by decide)
      rw [parts] at solid ⊢
      have here := shows_branch deep hx ends first solid
      rw [here, comma.scan] at solid
      rw [here, comma.scan, ih y ending rest fun n hn => solid n (List.mem_append_right _ hn)]

end

theorem shows_readList {n : Nat} {t : Text} {xs : List Complex} (h : readList n t = some xs) :
    Shows t xs := by
  induction n generalizing t xs with
  | zero => cases h
  | succ n ih =>
    have parts := shows_branches (fun a xs => ih) (mapM_eq_some_iff.mp h)
    rwa [splitOuter, join_splitFrom] at parts

/-- The scan finds what the atoms of a selector list show, in order. -/
theorem mentions_eq {t : Text} {xs : List Complex} (h : parseList t = some xs)
    (closed : ∀ s ∈ atomsOfBranches xs, s.Sealed) (solid : ∀ n ∈ mentions t, PlainEnd n) :
    mentions t = (atomsOfBranches xs).flatMap Simple.shown := by
  have ending : Ending [] := ⟨[], [], rfl, rfl, by simp⟩
  have whole := shows_readList h [] ending closed (by rwa [List.append_nil])
  rwa [List.append_nil, mentionsFrom, List.append_nil] at whole

end UtilityLayer.Selector
