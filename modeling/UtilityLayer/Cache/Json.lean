import UtilityLayer.Cache.Memory
import UtilityLayer.Json.Reader

/-!
# Cache entries as JSON

An entry is written as an object of its four fields. It is read from an object
that holds each field once, in any order and beside any others, or from an array
of the four values. A timestamp is a plain integer of 64 bits.
-/

set_option autoImplicit false

namespace UtilityLayer.Cache.Entry

open Json Text

def textJson (t : Text) : Json := .string (encode t)

def timeJson (n : UInt64) : Json := .number (decimal n.toNat)

def toJson (e : Entry) : Json :=
  .object
    [(encode "key", textJson e.key), (encode "css", textJson e.css),
     (encode "timestamp", timeJson e.timestamp), (encode "themeHash", textJson e.themeHash)]

def write (e : Entry) : Text := e.toJson.print

def text? : Json → Option Text
  | .string written => decode? written
  | _ => none

def time? : Json → Option UInt64
  | .number written =>
    if written.all Char.isDigit then
      if ofDecimal written < UInt64.size then some (.ofNat (ofDecimal written)) else none
    else none
  | _ => none

def ofValues? (key css timestamp themeHash : Json) : Option Entry := do
  some ⟨← text? key, ← text? css, ← time? timestamp, ← text? themeHash⟩

def once? (name : Text) (members : List (Text × Json)) : Option Json :=
  match members.filter fun m => m.1 = name with
  | [m] => some m.2
  | _ => none

def ofJson? : Json → Option Entry
  | .array [key, css, timestamp, themeHash] => ofValues? key css timestamp themeHash
  | .object members => do
    let members ← members.mapM fun m => (decode? m.1).map fun k => (k, m.2)
    ofValues? (← once? "key" members) (← once? "css" members) (← once? "timestamp" members)
      (← once? "themeHash" members)
  | _ => none

def read? (t : Text) : Option Entry := (parse? t).bind ofJson?

end UtilityLayer.Cache.Entry
