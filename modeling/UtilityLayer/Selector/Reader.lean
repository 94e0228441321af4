import UtilityLayer.Css.Name
import UtilityLayer.Css.Split
import UtilityLayer.Selector.Basic
import UtilityLayer.Text.Blank

/-!
# Reading selectors

Each reader takes the text it reads from and returns the selector with the
unread rest. The argument of a functional pseudo-class is read as a selector
list where it is one. Arguments are shorter than the text around them, so the
length of the text bounds the nesting.
-/

set_option autoImplicit false

namespace UtilityLayer.Selector

open Text Css

/-- The text up to the parenthesis that closes `depth + 1` open ones, and the
text after it. Quotes and escapes are not looked at. -/
def argument? : Nat → Text → Option (Text × Text)
  | _, [] => none
  | depth, c :: t =>
    let inner (d : Nat) := (argument? d t).map fun (a, r) => (c :: a, r)
    if c = '(' then inner (depth + 1)
    else if c = ')' then if depth = 0 then some ([], t) else inner (depth - 1)
    else inner depth

theorem argument?_append {depth : Nat} {t a rest : Text}
    (h : argument? depth t = some (a, rest)) : t = a ++ ')' :: rest := by
  induction t generalizing depth a with
  | nil => simp [argument?] at h
  | cons c t ih =>
    have step {d : Nat} (h : ((argument? d t).map fun (a, r) => (c :: a, r)) = some (a, rest)) :
        c :: t = a ++ ')' :: rest := by
      simp only [Option.map_eq_some_iff, Prod.exists, Prod.mk.injEq] at h
      obtain ⟨b, r, hb, rfl, rfl⟩ := h
      rw [ih hb, List.cons_append]
    rw [argument?] at h
    split at h
    · exact step h
    · split at h
      · split at h
        · simp_all
        · exact step h
      · exact step h

def attributeOf (content : Text) : Simple :=
  match cut? '=' content with
  | some (name, value) => .attribute (trim name) (trim value)
  | none => .attribute (trim content) []

section

variable (arguments : Text → Option (List Complex))

def functionalOf (name argument : Text) : Simple :=
  match arguments argument with
  | some branches => .functional name branches
  | none => .functionalText name argument

def functional? (name : Text) : Text → Option (Simple × Text)
  | '(' :: t => (argument? 0 t).map fun (a, r) => (functionalOf arguments name a, r)
  | _ => none

def pseudo? : Text → Option (Simple × Text)
  | ':' :: t => (name? t).map fun (n, r) => (.pseudoElement n, r)
  | t => (name? t).map fun (n, r) => (functional? arguments n r).getD (.pseudoClass n, r)

def readSimple : Text → Option (Simple × Text)
  | [] => none
  | c :: t =>
    if c = '#' then (escapedName? t).map fun (n, r) => (.ident n, r)
    else if c = '.' then (escapedName? t).map fun (n, r) => (.className n, r)
    else if c = ':' then pseudo? arguments t
    else if c = '&' then some (.parent, t)
    else if c = '*' then some (.universal, t)
    else if c = '[' then (cut? ']' t).map fun (a, r) => (attributeOf a, r)
    else (name? (c :: t)).map fun (n, r) => (.element n, r)

theorem functional?_length {name t rest : Text} {s : Simple}
    (h : functional? arguments name t = some (s, rest)) : rest.length < t.length := by
  rw [functional?.eq_def] at h
  split at h
  · simp only [Option.map_eq_some_iff, Prod.exists, Prod.mk.injEq] at h
    obtain ⟨a, r, ha, -, rfl⟩ := h
    have := congrArg List.length (argument?_append ha)
    simp at this ⊢
    omega
  · simp at h

theorem pseudo?_length {t rest : Text} {s : Simple}
    (h : pseudo? arguments t = some (s, rest)) : rest.length < t.length := by
  rw [pseudo?.eq_def] at h
  split at h <;> simp only [Option.map_eq_some_iff, Prod.exists] at h <;>
    obtain ⟨n, r, hn, h⟩ := h <;> have hl := name?_length hn
  · obtain ⟨-, rfl⟩ := Prod.mk.inj h
    simp
    omega
  · cases hf : functional? arguments n r with
    | none =>
      rw [hf] at h
      obtain ⟨-, rfl⟩ := Prod.mk.inj h
      exact hl
    | some p =>
      obtain ⟨s', r'⟩ := p
      rw [hf] at h
      obtain ⟨-, rfl⟩ := Prod.mk.inj h
      exact Nat.lt_trans (functional?_length arguments hf) hl

theorem readSimple_length {t rest : Text} {s : Simple}
    (h : readSimple arguments t = some (s, rest)) : rest.length < t.length := by
  cases t with
  | nil => simp [readSimple] at h
  | cons c t =>
    rw [readSimple] at h
    repeat' split at h
    · simp only [Option.map_eq_some_iff, Prod.exists, Prod.mk.injEq] at h
      obtain ⟨n, r, hn, -, rfl⟩ := h
      exact Nat.lt_succ_of_lt (escapedName?_length hn)
    · simp only [Option.map_eq_some_iff, Prod.exists, Prod.mk.injEq] at h
      obtain ⟨n, r, hn, -, rfl⟩ := h
      exact Nat.lt_succ_of_lt (escapedName?_length hn)
    · exact Nat.lt_succ_of_lt (pseudo?_length arguments h)
    · simp_all
    · simp_all
    · simp only [Option.map_eq_some_iff, Prod.exists, Prod.mk.injEq] at h
      obtain ⟨a, r, ha, -, rfl⟩ := h
      have := congrArg List.length (cut?_eq_some ha).1
      simp at this ⊢
      omega
    · simp only [Option.map_eq_some_iff, Prod.exists, Prod.mk.injEq] at h
      obtain ⟨n, r, hn, -, rfl⟩ := h
      exact name?_length hn

def readSimples (t : Text) : Compound × Text :=
  match _h : readSimple arguments t with
  | none => ([], t)
  | some (s, rest) =>
    let (ss, r) := readSimples rest
    (s :: ss, r)
termination_by t.length
decreasing_by exact readSimple_length arguments ‹_›

def readCompound (t : Text) : Option (Compound × Text) :=
  match readSimples arguments t with
  | ([], _) => none
  | (s :: ss, rest) => some (s :: ss, rest)

def combinatorOf : Char → Option Combinator
  | '>' => some .child
  | '+' => some .adjacent
  | '~' => some .sibling
  | _ => none

/-- A combinator and the compound after it. Gaps alone stand for a descendant. -/
def readLink (t : Text) : Option (Combinator × Compound × Text) :=
  match skipGap t with
  | [] => none
  | c :: u =>
    match combinatorOf c with
    | some k => (readCompound arguments (skipGap u)).map fun (x, r) => (k, x, r)
    | none =>
      if (t.takeWhile isGap).isEmpty then none
      else (readCompound arguments (c :: u)).map fun (x, r) => (.descendant, x, r)

theorem readSimples_length (t : Text) :
    (readSimples arguments t).2.length + (readSimples arguments t).1.length ≤ t.length := by
  fun_induction readSimples arguments t with
  | case1 => simp
  | case2 t s rest h ss r hs ih =>
    have := readSimple_length arguments h
    rw [hs] at ih
    simp at ih ⊢
    omega

theorem readCompound_length {t rest : Text} {c : Compound}
    (h : readCompound arguments t = some (c, rest)) : rest.length < t.length := by
  have := readSimples_length arguments t
  rw [readCompound] at h
  split at h
  · simp at h
  · rename_i s ss r hr
    simp only [Option.some.injEq, Prod.mk.injEq] at h
    obtain ⟨rfl, rfl⟩ := h
    rw [hr] at this
    simp at this
    omega

theorem readLink_length {t rest : Text} {k : Combinator} {c : Compound}
    (h : readLink arguments t = some (k, c, rest)) : rest.length < t.length := by
  have hg := skipGap_length_le t
  rw [readLink] at h
  split at h
  · simp at h
  · rename_i d u hd
    rw [hd] at hg
    split at h
    · simp only [Option.map_eq_some_iff, Prod.exists, Prod.mk.injEq] at h
      obtain ⟨x, r, hx, -, -, rfl⟩ := h
      have := readCompound_length arguments hx
      have := skipGap_length_le u
      simp at hg
      omega
    · split at h
      · simp at h
      · simp only [Option.map_eq_some_iff, Prod.exists, Prod.mk.injEq] at h
        obtain ⟨x, r, hx, -, -, rfl⟩ := h
        exact Nat.lt_of_lt_of_le (readCompound_length arguments hx) hg

def readLinks (c : Compound) (t : Text) : Complex × Text :=
  match _h : readLink arguments t with
  | none => (.last c, t)
  | some (k, c', rest) =>
    let (x, r) := readLinks c' rest
    (.link c k x, r)
termination_by t.length
decreasing_by exact readLink_length arguments ‹_›

def readComplex (t : Text) : Option (Complex × Text) :=
  (readCompound arguments t).map fun (c, rest) => readLinks arguments c rest

def readBranch (t : Text) : Option Complex :=
  match readComplex arguments (trim t) with
  | some (x, rest) => if isBlankText rest then some x else none
  | none => none

end

def readList : Nat → Text → Option (List Complex)
  | 0, _ => none
  | n + 1, t => (splitOuter ',' t).mapM (readBranch (readList n))

def parseList (t : Text) : Option (List Complex) := readList (t.length + 1) t

def parseSimple (t : Text) : Option (Simple × Text) := readSimple parseList t

def parseCompound (t : Text) : Option (Compound × Text) := readCompound parseList t

def parseComplex (t : Text) : Option (Complex × Text) := readComplex parseList t

end UtilityLayer.Selector
