import UtilityLayer.Text.Basic

/-!
# JSON values

A number and a string keep the text they were written with, so that a value can
be passed over without giving its strings a meaning. `encode` writes a text as
the inside of a string and `decode?` reads it back; a code unit of a surrogate
pair that stands alone has no meaning. Values are written in the compact form, with
no blanks between the tokens and the members in their order.
-/

set_option autoImplicit false

namespace UtilityLayer

inductive Json where
  | null
  | bool (value : Bool)
  | number (written : Text)
  | string (written : Text)
  | array (items : List Json)
  | object (members : List (Text × Json))

namespace Json

open Text

def unit (a b c d : Char) : Nat := ofHexadecimal [a, b, c, d]

def shortEscapes : List (Char × Char) :=
  [('"', '"'), ('\\', '\\'), ('/', '/'), ('b', '\x08'), ('f', '\x0c'), ('n', '\n'), ('r', '\r'),
   ('t', '\t')]

def unescape? (letter : Char) : Option Char := shortEscapes.lookup letter

def encodeChar (c : Char) : Text :=
  if c = '"' then ['\\', '"']
  else if c = '\\' then ['\\', '\\']
  else if c = '\x08' then ['\\', 'b']
  else if c = '\x0c' then ['\\', 'f']
  else if c = '\n' then ['\\', 'n']
  else if c = '\r' then ['\\', 'r']
  else if c = '\t' then ['\\', 't']
  else if c.toNat < 32 then
    ['\\', 'u', '0', '0', Nat.digitChar (c.toNat / 16), Nat.digitChar (c.toNat % 16)]
  else [c]

def encode (t : Text) : Text := t.flatMap encodeChar

def isHighUnit (n : Nat) : Bool := 0xD800 ≤ n && n ≤ 0xDBFF

def isLowUnit (n : Nat) : Bool := 0xDC00 ≤ n && n ≤ 0xDFFF

def pairCode (high low : Nat) : Nat := 0x10000 + (high - 0xD800) * 1024 + (low - 0xDC00)

def decode? : Text → Option Text
  | [] => some []
  | '\\' :: 'u' :: a :: b :: c :: d :: t =>
    let n := unit a b c d
    if isLowUnit n then none
    else if isHighUnit n then
      match t with
      | '\\' :: 'u' :: e :: f :: g :: h :: u =>
        let m := unit e f g h
        if isLowUnit m then (decode? u).map (Char.ofNat (pairCode n m) :: ·) else none
      | _ => none
    else (decode? t).map (Char.ofNat n :: ·)
  | '\\' :: c :: t => (unescape? c).bind fun x => (decode? t).map (x :: ·)
  | c :: t => (decode? t).map (c :: ·)

def quoted (written : Text) : Text := '"' :: written ++ ['"']

mutual

def print : Json → Text
  | null => "null"
  | bool true => "true"
  | bool false => "false"
  | number written => written
  | string written => quoted written
  | array items => '[' :: printItems items ++ [']']
  | object members => '{' :: printMembers members ++ ['}']

def printItems : List Json → Text
  | [] => []
  | [j] => print j
  | j :: js => print j ++ ',' :: printItems js

def printMembers : List (Text × Json) → Text
  | [] => []
  | [(k, j)] => quoted k ++ ':' :: print j
  | (k, j) :: ms => quoted k ++ ':' :: print j ++ ',' :: printMembers ms

end

end Json

end UtilityLayer
