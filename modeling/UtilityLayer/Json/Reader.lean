import UtilityLayer.Json.Basic
import UtilityLayer.Text.Blank

/-!
# Reading JSON

Between tokens stand spaces, tabs and line ends only. Every value takes a
character of the text for two calls, so twice its length bounds the depth.
-/

set_option autoImplicit false

namespace UtilityLayer.Json

open Text

/-- The inside of a string after its opening quote, and the text after its end. -/
def stringBody? : Text → Option (Text × Text)
  | [] => none
  | '"' :: t => some ([], t)
  | '\\' :: 'u' :: a :: b :: c :: d :: t =>
    if [a, b, c, d].all isHexDigit then
      (stringBody? t).map fun (s, r) => ('\\' :: 'u' :: a :: b :: c :: d :: s, r)
    else none
  | '\\' :: c :: t =>
    if (unescape? c).isSome then (stringBody? t).map fun (s, r) => ('\\' :: c :: s, r) else none
  | c :: t => if c.toNat < 32 then none else (stringBody? t).map fun (s, r) => (c :: s, r)

def digits? (t : Text) : Option (Text × Text) :=
  match t.takeWhile Char.isDigit with
  | [] => none
  | c :: ds => some (c :: ds, t.dropWhile Char.isDigit)

def natural? : Text → Option (Text × Text)
  | '0' :: t => if (t.head?.map Char.isDigit).getD false then none else some (['0'], t)
  | t => digits? t

def fraction? : Text → Option (Text × Text)
  | '.' :: t => (digits? t).map fun (ds, r) => ('.' :: ds, r)
  | t => some ([], t)

def isSign (c : Char) : Bool := c == '+' || c == '-'

def exponent? : Text → Option (Text × Text)
  | [] => some ([], [])
  | c :: t =>
    if c = 'e' ∨ c = 'E' then
      match t with
      | [] => none
      | s :: u =>
        if isSign s then (digits? u).map fun (ds, r) => (c :: s :: ds, r)
        else (digits? t).map fun (ds, r) => (c :: ds, r)
    else some ([], c :: t)

def unsigned? (t : Text) : Option (Text × Text) := do
  let (n, t) ← natural? t
  let (f, t) ← fraction? t
  let (e, t) ← exponent? t
  some (n ++ f ++ e, t)

def number? : Text → Option (Text × Text)
  | '-' :: t => (unsigned? t).map fun (n, r) => ('-' :: n, r)
  | t => unsigned? t

def scalar? (t : Text) : Option (Json × Text) :=
  match t with
  | '"' :: u => (stringBody? u).map fun (s, r) => (.string s, r)
  | 'n' :: _ => (after? "null" t).map fun r => (.null, r)
  | 't' :: _ => (after? "true" t).map fun r => (.bool true, r)
  | 'f' :: _ => (after? "false" t).map fun r => (.bool false, r)
  | _ => (number? t).map fun (n, r) => (.number n, r)

mutual

def value? : Nat → Text → Option (Json × Text)
  | 0, _ => none
  | n + 1, t =>
    match skipGap t with
    | '[' :: u =>
      match skipGap u with
      | ']' :: r => some (.array [], r)
      | u => (items? n u).map fun (js, r) => (.array js, r)
    | '{' :: u =>
      match skipGap u with
      | '}' :: r => some (.object [], r)
      | u => (members? n u).map fun (ms, r) => (.object ms, r)
    | u => scalar? u

def items? : Nat → Text → Option (List Json × Text)
  | 0, _ => none
  | n + 1, t =>
    match value? n t with
    | none => none
    | some (j, r) =>
      match skipGap r with
      | ',' :: u => (items? n u).map fun (js, r) => (j :: js, r)
      | ']' :: u => some ([j], u)
      | _ => none

def members? : Nat → Text → Option (List (Text × Json) × Text)
  | 0, _ => none
  | n + 1, t =>
    match skipGap t with
    | '"' :: u =>
      match stringBody? u with
      | none => none
      | some (k, r) =>
        match skipGap r with
        | ':' :: u =>
          match value? n u with
          | none => none
          | some (j, r) =>
            match skipGap r with
            | ',' :: u => (members? n u).map fun (ms, r) => ((k, j) :: ms, r)
            | '}' :: u => some ([(k, j)], u)
            | _ => none
        | _ => none
    | _ => none

end

def parse? (t : Text) : Option Json :=
  match value? (2 * t.length + 2) t with
  | some (j, r) => if skipGap r = [] then some j else none
  | none => none

end UtilityLayer.Json
