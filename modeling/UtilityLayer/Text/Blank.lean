import UtilityLayer.Text.Basic

/-!
# Blank characters

A property of characters is a list of closed ranges of code points. Here are the
Unicode property `White_Space`, and what depends on it: trimming, the words of a
text, and the form with single spaces between words. The reader of
statements skips a smaller class between its items, `isGap`.
-/

set_option autoImplicit false

namespace UtilityLayer.Text

def inRanges (ranges : List (Nat × Nat)) (c : Char) : Bool :=
  ranges.any fun (lo, hi) => lo ≤ c.toNat && c.toNat ≤ hi

theorem inRanges_iff {ranges : List (Nat × Nat)} {c : Char} :
    inRanges ranges c = true ↔ ∃ r ∈ ranges, r.1 ≤ c.toNat ∧ c.toNat ≤ r.2 := by
  simp [inRanges]

def blankRanges : List (Nat × Nat) :=
  [(0x9, 0xd), (0x20, 0x20), (0x85, 0x85), (0xa0, 0xa0), (0x1680, 0x1680), (0x2000, 0x200a),
   (0x2028, 0x2029), (0x202f, 0x202f), (0x205f, 0x205f), (0x3000, 0x3000)]

def isBlank (c : Char) : Bool := inRanges blankRanges c

/-- Space, tab, line feed and carriage return. -/
def isGap (c : Char) : Bool := c == ' ' || c == '\t' || c == '\n' || c == '\r'

theorem isBlank_of_isGap {c : Char} (h : isGap c = true) : isBlank c = true := by
  simp only [isGap, Bool.or_eq_true, beq_iff_eq] at h
  rcases h with ((rfl | rfl) | rfl) | rfl <;> decide

def skipGap (t : Text) : Text := t.dropWhile isGap

theorem skipGap_length_le (t : Text) : (skipGap t).length ≤ t.length :=
  (List.dropWhile_suffix _).length_le

def trimStart (t : Text) : Text := t.dropWhile isBlank

def trimEnd (t : Text) : Text := (t.reverse.dropWhile isBlank).reverse

def trim (t : Text) : Text := trimEnd (trimStart t)

def isBlankText (t : Text) : Bool := t.all isBlank

theorem trimEnd_concat (t : Text) (c : Char) :
    trimEnd (t ++ [c]) = if isBlank c then trimEnd t else t ++ [c] := by
  by_cases h : isBlank c <;> simp [trimEnd, h]

theorem trimStart_length_le (t : Text) : (trimStart t).length ≤ t.length :=
  (List.dropWhile_suffix _).length_le

theorem trimEnd_length_le (t : Text) : (trimEnd t).length ≤ t.length := by
  simpa [trimEnd] using (List.dropWhile_suffix isBlank (l := t.reverse)).length_le

theorem trim_length_le (t : Text) : (trim t).length ≤ t.length :=
  Nat.le_trans (trimEnd_length_le _) (trimStart_length_le t)

def blankTail (t : Text) : Text := (t.reverse.takeWhile isBlank).reverse

theorem trimEnd_append_blankTail (t : Text) : trimEnd t ++ blankTail t = t := by
  rw [trimEnd, blankTail, ← List.reverse_append, List.takeWhile_append_dropWhile,
    List.reverse_reverse]

def words (t : Text) : List Text := (pieces isBlank t).filter (· ≠ [])

def normalize (t : Text) : Text := join [' '] (words t)

end UtilityLayer.Text
