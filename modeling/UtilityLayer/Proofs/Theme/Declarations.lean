import UtilityLayer.Proofs.Css.Body
import UtilityLayer.Theme.Declaration

/-!
# The variables of a printed sheet

The theme variables of a sheet are the custom properties written in it as
declarations, of every name the last. This is what is read from a sheet without
comments in which a custom property ends where it ends when a backslash in a
string is a character like any other, and in which no other declaration and no
selector holds what looks like a custom property where a scan without strings
and brackets takes a declaration to begin.
-/

set_option autoImplicit false

namespace UtilityLayer.Theme

open Text Css

/-- How the value of a custom property is read. -/
def values : Reading where
  opens c := c == '(' || c == '['
  closes c := c == ')' || c == ']'
  stops c := c == ';' || c == '}'
  escapes := false

/-- How values are written: a backslash escapes inside strings, and braces stand
in strings and brackets only. -/
def written : Reading where
  opens := values.opens
  closes := values.closes
  stops c := c == ';' || c == '{' || c == '}'
  escapes := true

theorem splitValue_eq (depth : Nat) (quote : Option Char) (t : Text) :
    splitValue depth quote t = values.split (.within depth quote) t := by
  have stops (c : Char) (d : Nat) :
      (values.stops c = true ∧ d = 0) ↔ (c = ';' ∨ c = '}') ∧ d = 0 := by
    simp [values]
  apply Reading.eq_split rfl
  case quotes =>
    intro c h
    simp only [isQuote, Bool.or_eq_true, beq_iff_eq] at h
    rcases h with rfl | rfl <;> decide
  case nil =>
    intro d q
    cases q <;> rfl
  case string =>
    intro d q c t
    rw [splitValue]
  case stop =>
    intro d c t h
    rw [splitValue, if_pos ((stops c d).mp h)]
  case go =>
    intro d c t h
    rw [splitValue, if_neg (fun hc => h ((stops c d).mpr hc))]
    simp [values]

/-! ## Where a property begins -/

def beginsProperty (t : Text) : Bool :=
  match after? "--" t with
  | none => false
  | some u =>
    !(u.takeWhile isPropertyChar).isEmpty &&
      (skipGap (u.dropWhile isPropertyChar)).head? == some ':'

def isPropertyName (name : Text) : Bool :=
  match after? "--" name with
  | none => false
  | some u => !u.isEmpty && u.all isPropertyChar

section Properties

variable {t name value rest : Text}

theorem readProperty_eq_none (h : beginsProperty t = false) : readProperty t = none := by
  cases read : readProperty t with
  | none => rfl
  | some d =>
    rw [readProperty] at read
    split at read
    · cases read
    · rename_i u hu
      split at read
      · rename_i c n v hn hv
        rw [beginsProperty, hu] at h
        simp [hn, hv] at h
      · cases read

theorem isPropertyName_iff :
    isPropertyName name = true ↔
      ∃ n : Text, name = "--" ++ n ∧ n ≠ [] ∧ ∀ c ∈ n, isPropertyChar c = true := by
  rw [isPropertyName]
  constructor
  · intro h
    split at h
    · cases h
    · rename_i u hu
      rw [Bool.and_eq_true, Bool.not_eq_true', List.isEmpty_eq_false_iff, List.all_eq_true] at h
      exact ⟨u, after?_eq_some_iff.mp hu, h⟩
  · rintro ⟨n, rfl, some, chars⟩
    rw [after?_append]
    show (!n.isEmpty && n.all isPropertyChar) = true
    rw [Bool.and_eq_true, Bool.not_eq_true', List.isEmpty_eq_false_iff, List.all_eq_true]
    exact ⟨some, chars⟩

theorem isPropertyChar_of_isGap {c : Char} (h : isGap c = true) : isPropertyChar c = false := by
  simp only [isGap, Bool.or_eq_true, beq_iff_eq] at h
  rcases h with ((rfl | rfl) | rfl) | rfl <;> decide

theorem span_property {n : Text} (chars : ∀ c ∈ n, isPropertyChar c = true)
    (stop : ∀ c ∈ rest.head?, isPropertyChar c = false) :
    (n ++ rest).takeWhile isPropertyChar = n ∧ (n ++ rest).dropWhile isPropertyChar = rest := by
  have behind : rest.takeWhile isPropertyChar = [] ∧ rest.dropWhile isPropertyChar = rest := by
    cases rest with
    | nil => exact ⟨rfl, rfl⟩
    | cons c rest =>
      have hc : ¬ isPropertyChar c = true := by simp [stop c rfl]
      exact ⟨List.takeWhile_cons_of_neg hc, List.dropWhile_cons_of_neg hc⟩
  rw [List.takeWhile_append_of_pos chars, List.dropWhile_append_of_pos chars, behind.1, behind.2,
    List.append_nil]
  exact ⟨rfl, rfl⟩

theorem beginsProperty_iff :
    beginsProperty t = true ↔
      ∃ name gap v, t = name ++ (gap ++ ':' :: v) ∧ isPropertyName name = true ∧
        ∀ c ∈ gap, isGap c = true := by
  constructor
  · intro h
    rw [beginsProperty] at h
    split at h
    · cases h
    · rename_i u hu
      rw [Bool.and_eq_true, Bool.not_eq_true', List.isEmpty_eq_false_iff, beq_iff_eq] at h
      obtain ⟨some, colon⟩ := h
      obtain ⟨v, hv⟩ := List.head?_eq_some_iff.mp colon
      obtain ⟨-, gap, gaps, hg⟩ := skipGap_eq_cons_iff.mp hv
      refine ⟨"--" ++ u.takeWhile isPropertyChar, gap, v, ?_, ?_, List.all_eq_true.mp gaps⟩
      · rw [after?_eq_some_iff.mp hu, List.append_assoc, ← hg, List.takeWhile_append_dropWhile]
      · exact isPropertyName_iff.mpr ⟨_, rfl, some, fun c => List.mem_takeWhile_imp⟩
  · rintro ⟨name, gap, v, rfl, named, gaps⟩
    obtain ⟨n, rfl, some, chars⟩ := isPropertyName_iff.mp named
    have stop : ∀ c ∈ (gap ++ ':' :: v).head?, isPropertyChar c = false := by
      cases gap with
      | nil => rintro c ⟨⟩; decide
      | cons d gap => rintro c ⟨⟩; exact isPropertyChar_of_isGap (gaps d List.mem_cons_self)
    obtain ⟨taken, dropped⟩ := span_property chars stop
    have colon : skipGap (gap ++ ':' :: v) = ':' :: v :=
      skipGap_eq_cons_iff.mpr ⟨by decide, gap, List.all_eq_true.mpr gaps, rfl⟩
    rw [beginsProperty, List.append_assoc, after?_append]
    simp only [taken, dropped, colon]
    simpa using some

theorem readProperty_append (named : isPropertyName name = true) (closed : values.Closed value)
    (ends : values.Ends rest) :
    readProperty (name ++ ':' :: value ++ rest) = some ((name, trim value), rest) := by
  obtain ⟨n, rfl, some, chars⟩ := isPropertyName_iff.mp named
  obtain ⟨c, n, rfl⟩ := List.exists_cons_of_ne_nil some
  have stop : ∀ d ∈ (':' :: (value ++ rest)).head?, isPropertyChar d = false := by
    rintro d ⟨⟩
    decide
  obtain ⟨taken, dropped⟩ := span_property chars stop
  have colon : skipGap (':' :: (value ++ rest)) = ':' :: (value ++ rest) :=
    skipGap_cons (by decide) _
  have split : splitValue 0 none (value ++ rest) = (value, rest) := by
    rw [splitValue_eq]
    exact closed.split_eq ends
  have behind : ':' :: value ++ rest = ':' :: (value ++ rest) := rfl
  rw [readProperty, List.append_assoc, List.append_assoc, after?_append, behind]
  simp only [taken, dropped, colon, split]

end Properties

/-! ## The scan -/

def isMark (c : Char) : Bool := c == '{' || c == ';' || c == '}'

/-- No property begins at the start of the text, if one may, or in it behind a
mark and blanks. The scan goes on where strings and brackets are open. -/
def bare (starts : Bool) : Text → Bool
  | [] => true
  | c :: t =>
    !(starts && beginsProperty (c :: t)) && bare (isMark c || (isBlank c && starts)) t

def Halts (t : Text) : Prop := ∀ c ∈ t.head?, isMark c = true

section Scan

variable {starts : Bool} {c : Char} {t lead name value rest : Text}

theorem Halts.of_leaves (h : Leaves rest) : Halts rest := by
  rcases h with rfl | ⟨rest, rfl⟩
  · rintro c ⟨⟩
  · rintro c ⟨⟩
    decide

theorem ends_of_leaves (h : Leaves rest) : values.Ends rest := by
  rcases h with rfl | ⟨rest, rfl⟩
  · rintro c ⟨⟩
  · rintro c ⟨⟩
    decide

theorem isMark_of_mem_begin {gap : Text} (named : isPropertyName name = true)
    (gaps : ∀ c ∈ gap, isGap c = true) (hc : c ∈ name ++ gap ++ [':']) : isMark c = false := by
  obtain ⟨n, rfl, -, chars⟩ := isPropertyName_iff.mp named
  have other {d : Char} (hd : isMark d = true) : isPropertyChar d = false ∧ isGap d = false ∧
      d ∉ ("--" : Text) ∧ d ≠ ':' := by
    simp only [isMark, Bool.or_eq_true, beq_iff_eq] at hd
    rcases hd with (rfl | rfl) | rfl <;> decide
  rw [Bool.eq_false_iff]
  intro mark
  obtain ⟨property, blank, dash, colon⟩ := other mark
  rw [List.mem_append, List.mem_append, List.mem_append, List.mem_singleton] at hc
  rcases hc with ((hc | hc) | hc) | hc
  · exact dash hc
  · rw [chars c hc] at property
    cases property
  · rw [gaps c hc] at blank
    cases blank
  · exact colon hc

theorem beginsProperty_append (h : beginsProperty t = false) (halts : Halts rest) :
    beginsProperty (t ++ rest) = false := by
  rw [Bool.eq_false_iff] at h ⊢
  intro begins
  apply h
  obtain ⟨name, gap, v, same, named, gaps⟩ := beginsProperty_iff.mp begins
  have cut : t ++ rest = (name ++ gap ++ [':']) ++ v := by
    rw [same, List.append_assoc, List.append_assoc, List.singleton_append]
  rcases List.append_eq_append_iff.mp cut with ⟨more, begun, behind⟩ | ⟨v', written, -⟩
  · cases more with
    | nil =>
      rw [List.append_nil] at begun
      exact beginsProperty_iff.mpr ⟨name, gap, [], by rw [← begun, List.append_assoc], named, gaps⟩
    | cons d more =>
      have mark : isMark d = true := halts d (by rw [behind]; rfl)
      have inside : d ∈ name ++ gap ++ [':'] := by
        rw [begun]
        exact List.mem_append_right _ List.mem_cons_self
      rw [isMark_of_mem_begin named gaps inside] at mark
      cases mark
  · refine beginsProperty_iff.mpr ⟨name, gap, v', ?_, named, gaps⟩
    rw [written, List.append_assoc, List.append_assoc, List.singleton_append]

theorem beginsProperty_cons (h : c ≠ '-') (t : Text) : beginsProperty (c :: t) = false := by
  rw [beginsProperty]
  cases hu : after? "--" (c :: t) with
  | none => rfl
  | some u => exact absurd (List.cons.inj (after?_eq_some_iff.mp hu)).1 h

theorem declarationsFrom_cons (h : (starts && beginsProperty (c :: t)) = false) :
    declarationsFrom starts (c :: t) = declarationsFrom (isMark c || (isBlank c && starts)) t := by
  have none : (if starts then readProperty (c :: t) else none) = none := by
    cases starts with
    | false => rfl
    | true => exact readProperty_eq_none h
  rw [declarationsFrom]
  split
  · rename_i found
    rw [none] at found
    cases found
  · rfl

theorem declarationsFrom_read {d : Text × Text} (h : readProperty t = some (d, rest)) :
    declarationsFrom true t = d :: declarationsFrom false rest := by
  cases t with
  | nil => cases h
  | cons c t =>
    rw [declarationsFrom]
    split
    · rename_i e rest' found
      rw [if_pos rfl, h] at found
      cases found
      rfl
    · rename_i found
      rw [if_pos rfl, h] at found
      cases found

theorem declarationsFrom_of_halts (halts : Halts rest) (starts : Bool) :
    declarationsFrom starts rest = declarationsFrom false rest := by
  cases rest with
  | nil => rw [declarationsFrom, declarationsFrom]
  | cons c rest =>
    have mark : isMark c = true := halts c rfl
    have dash : c ≠ '-' := by
      rintro rfl
      cases mark
    rw [declarationsFrom_cons (by rw [beginsProperty_cons dash, Bool.and_false]),
      declarationsFrom_cons rfl, mark]
    rfl

theorem declarationsFrom_bare (h : bare starts t = true) (halts : Halts rest) :
    declarationsFrom starts (t ++ rest) = declarationsFrom false rest := by
  induction t generalizing starts with
  | nil => exact declarationsFrom_of_halts halts starts
  | cons c t ih =>
    rw [bare, Bool.and_eq_true, Bool.not_eq_true'] at h
    have still : (starts && beginsProperty (c :: (t ++ rest))) = false := by
      cases starts with
      | false => rfl
      | true => exact beginsProperty_append h.1 halts
    rw [List.cons_append, declarationsFrom_cons still, ih h.2]

theorem declarationsFrom_lead (blank : isBlankText lead = true) (t : Text) :
    declarationsFrom true (lead ++ t) = declarationsFrom true t := by
  induction lead with
  | nil => rfl
  | cons c lead ih =>
    rw [isBlankText, List.all_cons, Bool.and_eq_true] at blank
    have dash : c ≠ '-' := by
      rintro rfl
      exact absurd blank.1 (by decide)
    rw [List.cons_append, declarationsFrom_cons (by rw [beginsProperty_cons dash, Bool.and_false]),
      blank.1, Bool.true_and, Bool.or_true, ih blank.2]

end Scan

/-! ## Names of the theme -/

def isThemeName (name : Text) : Bool := startsWith "--" name && (familyOf? name).isSome

/-- The custom properties of the theme among declarations, values trimmed. -/
def themed (ds : List (Text × Text)) : List (Text × Text) :=
  (ds.filter fun d => isThemeName d.1).map fun d => (d.1, trim d.2)

theorem themed_append (ds es : List (Text × Text)) : themed (ds ++ es) = themed ds ++ themed es := by
  rw [themed, List.filter_append, List.map_append]
  rfl

theorem isPropertyChar_of_plain {c : Char} (h : isPlainNameChar c = true) :
    isPropertyChar c = true := by
  rw [isPlainNameChar, Bool.or_eq_true, Bool.or_eq_true, Bool.or_eq_true] at h
  rcases h with ((h | h) | h) | h
  · simp [isPropertyChar, isNameChar, isAlphanumeric_of_isAlphanum h]
  · simp [isPropertyChar, isNameChar, h]
  · simp [isPropertyChar, isNameChar, h]
  · simp [isPropertyChar, h]

theorem propertyChars_of_familyOfBare? {name : Text} (h : (familyOfBare? name).isSome = true) :
    name ≠ [] ∧ ∀ c ∈ name, isPropertyChar c = true := by
  have suffixed {t : Text} (hs : isSuffix t = true) : t ≠ [] ∧ ∀ c ∈ t, isPropertyChar c = true := by
    simp only [isSuffix, Bool.and_eq_true, Bool.not_eq_true', List.isEmpty_eq_false_iff,
      List.all_eq_true] at hs
    exact ⟨hs.1.1, fun c hc => isPropertyChar_of_plain (hs.2 c hc)⟩
  rw [familyOfBare?] at h
  split at h
  · rename_i r hr
    obtain ⟨lead, mem, hl⟩ := List.exists_of_findSome?_eq_some hr
    simp only [familySuffix?, Option.map_eq_some_iff, Option.filter_eq_some_iff] at hl
    obtain ⟨s, ⟨hs, shape⟩, -⟩ := hl
    have leads : familyLeads.all (fun lead => lead.1.all isPropertyChar) = true := by decide
    obtain ⟨some, chars⟩ := suffixed shape
    rw [after?_eq_some_iff.mp hs]
    refine ⟨List.append_ne_nil_of_right_ne_nil _ some, ?_⟩
    intro c hc
    rcases List.mem_append.mp hc with hc | hc
    · exact List.all_eq_true.mp (List.all_eq_true.mp leads lead mem) c hc
    · exact chars c hc
  · split at h
    · rename_i shape
      exact suffixed (Bool.and_eq_true_iff.mp shape).2
    · cases h

theorem isPropertyName_of_isThemeName {name : Text} (h : isThemeName name = true) :
    isPropertyName name = true := by
  rw [isThemeName, Bool.and_eq_true, startsWith, Option.isSome_iff_exists] at h
  obtain ⟨⟨u, hu⟩, family⟩ := h
  rw [familyOf?, hu, Option.getD_some] at family
  exact isPropertyName_iff.mpr ⟨u, after?_eq_some_iff.mp hu, propertyChars_of_familyOfBare? family⟩

/-! ## Sheets -/

/-- How a declaration must be written: a custom property is closed when no
backslash escapes, and no other declaration looks like one where a declaration
may begin. -/
abbrev Legible (d : Text × Text) : Prop :=
  if isPropertyName d.1 then values.Closed d.2 else bare true (d.1 ++ ':' :: d.2) = true

abbrev Plain (b : Body) : Prop := b.Each Legible fun h => bare true h = true

section Sheets

variable {b : Body} {lead name value rest : Text}

theorem themed_declaration (blank : isBlankText lead = true) (legible : Legible (name, value))
    (halts : Halts rest) (ends : values.Ends rest) :
    (declarationsFrom true (lead ++ name ++ ':' :: value ++ rest)).filter
        (fun d => (familyOf? d.1).isSome) =
      themed [(name, value)] ++
        (declarationsFrom false rest).filter fun d => (familyOf? d.1).isSome := by
  rw [List.append_assoc, List.append_assoc, declarationsFrom_lead blank, ← List.append_assoc]
  cases named : isPropertyName name with
  | true =>
    obtain ⟨n, hn, -, -⟩ := isPropertyName_iff.mp named
    have dashes : startsWith "--" name = true := by
      rw [startsWith, after?_eq_some_iff.mpr hn]
      rfl
    have closed : values.Closed value := by rwa [Legible, if_pos named] at legible
    rw [declarationsFrom_read (readProperty_append named closed ends), List.filter_cons,
      themed, List.filter_cons, isThemeName, dashes, Bool.true_and]
    split <;> rfl
  | false =>
    have foreign : isThemeName name = false := by
      rw [Bool.eq_false_iff]
      intro h
      rw [isPropertyName_of_isThemeName h] at named
      cases named
    have nothing : bare true (name ++ ':' :: value) = true := by
      rwa [Legible, if_neg (by simp [named])] at legible
    rw [declarationsFrom_bare nothing halts, themed, List.filter_cons, foreign]
    rfl

/-- Inside a block and at the end of the text, the properties of a body are read
whatever follows. -/
theorem themed_print_append (plain : Plain b) (leaves : Leaves rest) :
    (declarationsFrom true (b.print ++ rest)).filter (fun d => (familyOf? d.1).isSome) =
      themed b.declared ++
        (declarationsFrom true rest).filter fun d => (familyOf? d.1).isSome := by
  have whatever {t : Text} (halts : Halts t) :
      declarationsFrom true t = declarationsFrom false t := declarationsFrom_of_halts halts true
  induction b generalizing rest with
  | done tail =>
    rw [Body.print, declarationsFrom_lead plain.laid]
    rfl
  | unended lead name value =>
    -- The value ends where `rest` begins: at the brace of the block, or nowhere.
    obtain ⟨blank, -, legible⟩ := plain.of_unended
    have first := themed_declaration blank legible (.of_leaves leaves) (ends_of_leaves leaves)
    rw [Body.print, first, whatever (.of_leaves leaves)]
    rfl
  | declaration lead name value after ih =>
    obtain ⟨⟨blank, -, legible⟩, plain⟩ := plain.of_declaration
    have halts : Halts (';' :: (after.print ++ rest)) := by
      rintro c ⟨⟩
      decide
    have ends : values.Ends (';' :: (after.print ++ rest)) := by
      rintro c ⟨⟩
      decide
    have first := themed_declaration blank legible halts ends
    have behind : declarationsFrom false (';' :: (after.print ++ rest)) =
        declarationsFrom true (after.print ++ rest) := declarationsFrom_cons rfl
    rw [Body.print_declaration_append, first, behind, ih plain leaves, ← List.append_assoc,
      ← themed_append]
    rfl
  | block head inner after ihi iha =>
    obtain ⟨nothing, plainInner, plainAfter⟩ := plain.of_block
    have opened : Halts ('{' :: (inner.print ++ '}' :: (after.print ++ rest))) := by
      rintro c ⟨⟩
      decide
    have closed : Halts ('}' :: (after.print ++ rest)) := by
      rintro c ⟨⟩
      decide
    have inside : declarationsFrom false ('{' :: (inner.print ++ '}' :: (after.print ++ rest))) =
        declarationsFrom true (inner.print ++ '}' :: (after.print ++ rest)) :=
      declarationsFrom_cons rfl
    have behind : declarationsFrom false ('}' :: (after.print ++ rest)) =
        declarationsFrom true (after.print ++ rest) := declarationsFrom_cons rfl
    rw [Body.print_block_append, declarationsFrom_bare nothing opened, inside,
      ihi plainInner (.inr ⟨_, rfl⟩), whatever closed, behind, iha plainAfter leaves,
      ← List.append_assoc, ← themed_append]
    rfl

end Sheets

/-! ## The table -/

namespace Variables

theorem ofList_concat (ds : List (Text × Text)) (d : Text × Text) :
    ofList (ds ++ [d]) = (ofList ds).define d.1 d.2 := by
  rw [ofList, List.foldl_append]
  rfl

theorem keys_ofList (ds : List (Text × Text)) :
    Keyed.keys (ofList ds).entries = (ds.map Prod.fst).eraseDups := by
  induction ds using List.reverseRecOn with
  | nil => rfl
  | append_singleton ds d ih =>
    rw [ofList_concat, define, Keyed.keys_set, ih, List.map_append, List.eraseDups_append]
    by_cases h : d.1 ∈ ds.map Prod.fst
    · rw [if_pos (List.mem_eraseDups.mpr h)]
      simp [List.removeAll, h]
    · rw [if_neg (fun hd => h (List.mem_eraseDups.mp hd))]
      simp [List.removeAll, h, List.eraseDups_cons]

theorem get?_ofList (ds : List (Text × Text)) (name : Text) :
    (ofList ds).get? name = ((ds.filter fun d => d.1 = name).getLast?).map Prod.snd := by
  induction ds using List.reverseRecOn with
  | nil => rfl
  | append_singleton ds d ih =>
    rw [ofList_concat, List.filter_append, List.filter_singleton]
    by_cases h : d.1 = name
    · subst h
      rw [get?_define_self, decide_eq_true rfl]
      simp
    · rw [get?_define_of_ne _ (Ne.symm h), ih, decide_eq_false h]
      simp

variable {b : Body}

/-- The variables of a printed sheet are its custom properties of the theme, in
the order of their first declarations, each with its last value. -/
theorem ofSheet_print (bare : uncommented .outside b.print = true) (plain : Plain b) :
    Keyed.keys (ofSheet b.print).entries = ((themed b.declared).map Prod.fst).eraseDups ∧
      ∀ name, (ofSheet b.print).get? name =
        (((themed b.declared).filter fun d => d.1 = name).getLast?).map Prod.snd := by
  have kept : withoutComments b.print = b.print := (stripFrom_eq_self_iff (by simp)).mpr bare
  have read : (declarations b.print).filter (fun d => (familyOf? d.1).isSome) =
      themed b.declared := by
    have alone := themed_print_append plain (.inl rfl)
    rwa [List.append_nil, declarationsFrom, List.filter_nil, List.append_nil] at alone
  rw [ofSheet, kept, read]
  exact ⟨keys_ofList _, get?_ofList _⟩

end Variables

def figure : Body :=
  .block ":root "
    (.declaration " " "--font-sans" " \"Inter\", url(\"a;b\")" <|
      .declaration " " "--primary" " red" <| .done " ") <|
    .block " .dark " (.declaration " " "color" " red" <| .unended " " "--primary" " blue ") (.done [])

theorem figure_read : uncommented .outside figure.print = true ∧ Plain figure ∧
    (Variables.ofSheet figure.print).get? "--primary" = some ("blue" : Text) := by
  have bare : uncommented .outside figure.print = true := by decide
  have plain : Plain figure := ⟨by decide, by decide, by decide⟩
  refine ⟨bare, plain, ?_⟩
  rw [(Variables.ofSheet_print bare plain).2]
  decide

def quoted : Body :=
  .block ":root "
    (.declaration " " "--font-a" " \"\\\"\"" <| .declaration " " "--primary" " red" <| .done " ")
    (.done [])

theorem escaped_quote_hides_variable :
    quoted.laid = true ∧ (∀ d ∈ quoted.declared, written.Closed d.2) ∧
      uncommented .outside quoted.print = true ∧
      (("--primary", "red") : Text × Text) ∈ themed quoted.declared ∧
      (Variables.ofSheet quoted.print).get? "--primary" = none := by
  refine ⟨by decide, by decide, by decide, by decide, ?_⟩
  decide +kernel

/-- A property is read in a string. -/
example : (Variables.ofSheet ".a \x7b content: \";--primary: red\"; \x7d").get? "--primary" =
    some ("red\"; \x7d" : Text) := by decide +kernel

end UtilityLayer.Theme
