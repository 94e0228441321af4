import Mathlib.Algebra.Ring.Nat
import UtilityLayer.Text.Fingerprint

/-!
# What a fingerprint tells apart

For a fixed byte a step of the hash is injective in the state, since its prime
has an inverse modulo 2^64, and for a fixed state it is injective in the byte.
So one changed byte changes the state for good, and bytes that follow keep apart
what is apart. The sixteen digits lose nothing of the state.
-/

set_option autoImplicit false

namespace UtilityLayer.Text

namespace Fingerprint

/-! ## States -/

def primeInverse : UInt64 := 0xce965057aff6957b

theorem prime_mul_primeInverse : prime * primeInverse = 1 := by decide

theorem mul_prime_inj {x y : UInt64} : x * prime = y * prime ↔ x = y := by
  constructor
  · intro h
    have cancelled := congrArg (· * primeInverse) h
    simpa only [UInt64.mul_assoc, prime_mul_primeInverse, UInt64.mul_one] using cancelled
  · exact congrArg (· * prime)

theorem step_state_inj {x y : UInt64} {byte : UInt8} : step x byte = step y byte ↔ x = y := by
  rw [step, step, mul_prime_inj, UInt64.xor_left_inj]

theorem step_byte_inj {state : UInt64} {a b : UInt8} : step state a = step state b ↔ a = b := by
  rw [step, step, mul_prime_inj, UInt64.xor_right_inj, UInt8.toUInt64_inj]

theorem ofBytes_inj {x y : UInt64} {bytes : List UInt8} :
    ofBytes x bytes = ofBytes y bytes ↔ x = y := by
  induction bytes generalizing x y with
  | nil => exact Iff.rfl
  | cons byte bytes ih => exact ih.trans step_state_inj

theorem ofBytes_replaced {state : UInt64} {lead rest : List UInt8} {a b : UInt8} :
    ofBytes state (lead ++ a :: rest) = ofBytes state (lead ++ b :: rest) ↔ a = b := by
  have split (c : UInt8) : ofBytes state (lead ++ c :: rest) =
      ofBytes (step (ofBytes state lead) c) rest := ofBytes_append state lead (c :: rest)
  rw [split, split, ofBytes_inj, step_byte_inj]

/-! ## Digits -/

theorem digitChar_inj {v w : Nat} (hv : v < 16) (hw : w < 16)
    (h : Nat.digitChar v = Nat.digitChar w) : v = w := by
  have table : ∀ i j : Fin 16, Nat.digitChar i = Nat.digitChar j → i = j := by decide
  exact congrArg Fin.val (table ⟨v, hv⟩ ⟨w, hw⟩ h)

theorem digits_inj {n v w : Nat} (hv : v < 16 ^ n) (hw : w < 16 ^ n)
    (h : digits n v = digits n w) : v = w := by
  induction n generalizing v w with
  | zero => omega
  | succ n ih =>
    rw [Nat.pow_succ] at hv hw
    rw [digits, digits] at h
    obtain ⟨upper, last⟩ := List.append_inj' h rfl
    have quotient := ih (by omega) (by omega) upper
    have remainder := digitChar_inj (Nat.mod_lt v (by decide)) (Nat.mod_lt w (by decide))
      (List.cons.inj last).1
    omega

end Fingerprint

open Fingerprint

theorem fingerprint_eq_iff {s t : Text} :
    fingerprint s = fingerprint t ↔ ofBytes offset (utf8 s) = ofBytes offset (utf8 t) := by
  constructor
  · intro h
    exact UInt64.toNat_inj.mp (digits_inj (UInt64.toNat_lt _) (UInt64.toNat_lt _) h)
  · intro h
    rw [fingerprint, fingerprint, h]

/-! ## Edits -/

/-- Two encodings of one length that differ at exactly one place. -/
structure EditedOnce (a b : List UInt8) : Prop where
  length_eq : a.length = b.length
  place : ∃ i, ∀ j : Nat, a[j]? ≠ b[j]? ↔ j = i

theorem editedOnce_iff {a b : List UInt8} :
    EditedOnce a b ↔ ∃ lead rest x y, a = lead ++ x :: rest ∧ b = lead ++ y :: rest ∧ x ≠ y := by
  constructor
  · rintro ⟨length, i, place⟩
    induction a generalizing b i with
    | nil =>
      obtain rfl := List.length_eq_zero_iff.mp length.symm
      exact absurd rfl ((place i).mpr rfl)
    | cons x a ih =>
      obtain ⟨y, b, rfl⟩ := List.exists_cons_of_length_eq_add_one length.symm
      cases i with
      | zero =>
        have rest : a = b := by
          apply List.ext_getElem?
          intro j
          have same := (not_congr (place (j + 1))).mpr (Nat.succ_ne_zero j)
          simpa using same
        have first := (place 0).mpr rfl
        exact ⟨[], a, x, y, rfl, by rw [rest]; rfl, by simpa using first⟩
      | succ i =>
        have first := (not_congr (place 0)).mpr (Nat.succ_ne_zero i).symm
        have later (j : Nat) : a[j]? ≠ b[j]? ↔ j = i := by simpa using place (j + 1)
        obtain ⟨lead, rest, c, d, rfl, rfl, apart⟩ := ih (by simpa using length) i later
        have same : x = y := by simpa using first
        exact ⟨x :: lead, rest, c, d, rfl, by rw [same]; rfl, apart⟩
  · rintro ⟨lead, rest, x, y, rfl, rfl, apart⟩
    refine ⟨by simp, lead.length, fun j => ?_⟩
    rcases Nat.lt_trichotomy j lead.length with before | rfl | behind
    · rw [List.getElem?_append_left before, List.getElem?_append_left before]
      simp [Nat.ne_of_lt before]
    · simp [apart]
    · obtain ⟨k, rfl⟩ := Nat.exists_eq_add_of_lt behind
      have shifted (z : UInt8) : (lead ++ z :: rest)[lead.length + k + 1]? = rest[k]? := by
        rw [List.getElem?_append_right (by omega)]
        simp [Nat.add_assoc]
      rw [shifted, shifted]
      simp [Nat.add_assoc]

/-- One changed byte changes the fingerprint, and a text appended to two texts
changes nothing about whether their fingerprints agree. -/
theorem fingerprint_notices_edit (s t : Text) :
    (EditedOnce (utf8 s) (utf8 t) → fingerprint s ≠ fingerprint t) ∧
      ∀ u, fingerprint (s ++ u) = fingerprint (t ++ u) ↔ fingerprint s = fingerprint t := by
  constructor
  · intro edited same
    obtain ⟨lead, rest, x, y, hs, ht, apart⟩ := editedOnce_iff.mp edited
    rw [fingerprint_eq_iff, hs, ht, ofBytes_replaced] at same
    exact apart same
  · intro u
    rw [fingerprint_eq_iff, fingerprint_eq_iff, utf8_append, utf8_append, ofBytes_append,
      ofBytes_append, ofBytes_inj]

theorem accent_noticed :
    EditedOnce (utf8 ".caf\u00e9 \x7b color: red; \x7d") (utf8 ".caf\u00e8 \x7b color: red; \x7d") ∧
      fingerprint ".caf\u00e9 \x7b color: red; \x7d" ≠
        fingerprint ".caf\u00e8 \x7b color: red; \x7d" := by
  have edited : EditedOnce (utf8 ".caf\u00e9 \x7b color: red; \x7d")
      (utf8 ".caf\u00e8 \x7b color: red; \x7d") := by
    refine editedOnce_iff.mpr ⟨utf8 ".caf" ++ [0xc3], utf8 " \x7b color: red; \x7d", 0xa9, 0xa8, ?_⟩
    decide +kernel
  exact ⟨edited, (fingerprint_notices_edit _ _).1 edited⟩

example : fingerprint [] = "cbf29ce484222325".toList := by decide +kernel

end UtilityLayer.Text
