import UtilityLayer.Text.Basic

/-!
# Fingerprints of texts

The 64-bit FNV-1a hash of the UTF-8 encoding, written as sixteen hexadecimal
digits. Each step is a bijection of the state for a fixed byte.
-/

set_option autoImplicit false

namespace UtilityLayer.Text

def utf8 (t : Text) : List UInt8 := t.flatMap String.utf8EncodeChar

theorem utf8_append (s t : Text) : utf8 (s ++ t) = utf8 s ++ utf8 t := List.flatMap_append

namespace Fingerprint

def offset : UInt64 := 0xcbf29ce484222325

def prime : UInt64 := 0x100000001b3

def step (state : UInt64) (byte : UInt8) : UInt64 := (state ^^^ byte.toUInt64) * prime

def ofBytes (state : UInt64) (bytes : List UInt8) : UInt64 := bytes.foldl step state

theorem ofBytes_append (state : UInt64) (a b : List UInt8) :
    ofBytes state (a ++ b) = ofBytes (ofBytes state a) b := List.foldl_append

/-- The lowest `n` hexadecimal digits, most significant first. -/
def digits : Nat → Nat → Text
  | 0, _ => []
  | n + 1, v => digits n (v / 16) ++ [Nat.digitChar (v % 16)]

theorem digits_length (n v : Nat) : (digits n v).length = n := by
  induction n generalizing v with
  | zero => rfl
  | succ n ih => simp [digits, ih]

end Fingerprint

open Fingerprint in
def fingerprint (t : Text) : Text := digits 16 (ofBytes offset (utf8 t)).toNat

theorem fingerprint_length (t : Text) : (fingerprint t).length = 16 :=
  Fingerprint.digits_length 16 _

end UtilityLayer.Text
