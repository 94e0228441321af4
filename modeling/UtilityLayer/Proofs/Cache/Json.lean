import UtilityLayer.Cache.Json
import UtilityLayer.Proofs.Json.Grammar

/-!
# Entries through JSON

Escaping a text and reading the escapes gives the text back, whatever characters
it holds, and so do the digits of a timestamp. Members are looked up by their
names alone, so an entry is read from every object that holds its four fields
once, wherever they stand and whatever stands between and around them.
-/

set_option autoImplicit false

namespace UtilityLayer

open Text

namespace Json

variable {c : Char} {t : Text}

theorem hexValue_digitChar : ∀ d : Fin 16, hexValue (Nat.digitChar d) = d := by decide

theorem isHexDigit_digitChar : ∀ d : Fin 16, isHexDigit (Nat.digitChar d) = true := by decide

theorem unit_control (h : c.toNat < 32) :
    unit '0' '0' (Nat.digitChar (c.toNat / 16)) (Nat.digitChar (c.toNat % 16)) = c.toNat := by
  have high : hexValue (Nat.digitChar (c.toNat / 16)) = c.toNat / 16 :=
    hexValue_digitChar ⟨c.toNat / 16, by omega⟩
  have low : hexValue (Nat.digitChar (c.toNat % 16)) = c.toNat % 16 :=
    hexValue_digitChar ⟨c.toNat % 16, by omega⟩
  have zero : hexValue '0' = 0 := rfl
  simp only [unit, ofHexadecimal, List.foldl_cons, List.foldl_nil, high, low, zero]
  omega

theorem decode?_unit {a b d : Char} (low : isLowUnit (unit a b c d) = false)
    (high : isHighUnit (unit a b c d) = false) :
    decode? ('\\' :: 'u' :: a :: b :: c :: d :: t) =
      (decode? t).map (Char.ofNat (unit a b c d) :: ·) := by
  rw [decode?.eq_def]
  simp only [low, high]
  rfl

theorem decode?_encodeChar (c : Char) (t : Text) :
    decode? (encodeChar c ++ t) = (decode? t).map (c :: ·) := by
  rw [encodeChar]
  split_ifs with quote backslash backspace feed line ret tab control
  · rw [quote]; rfl
  · rw [backslash]; rfl
  · rw [backspace]; rfl
  · rw [feed]; rfl
  · rw [line]; rfl
  · rw [ret]; rfl
  · rw [tab]; rfl
  · have whole := unit_control control
    have low : isLowUnit c.toNat = false := by simp [isLowUnit]; omega
    have high : isHighUnit c.toNat = false := by simp [isHighUnit]; omega
    rw [← whole] at low high
    simp only [List.cons_append, List.nil_append]
    rw [decode?_unit low high, whole, Char.ofNat_toNat]
  · rw [List.singleton_append, decode?]
    · rintro _ _ _ _ _ rfl
      exact absurd rfl backslash
    · rintro _ _ rfl
      exact absurd rfl backslash

theorem decode?_encode (t : Text) : decode? (encode t) = some t := by
  induction t with
  | nil => rfl
  | cons c t ih =>
    rw [encode, List.flatMap_cons, decode?_encodeChar, ← encode, ih]
    rfl

theorem stringText_encodeChar (c : Char) (h : StringText t) : StringText (encodeChar c ++ t) := by
  rw [encodeChar]
  split_ifs with quote backslash backspace feed line ret tab control
  iterate 7 exact .short rfl h
  · have high := isHexDigit_digitChar ⟨c.toNat / 16, by omega⟩
    have low := isHexDigit_digitChar ⟨c.toNat % 16, by omega⟩
    exact .unit (by simp [high, low, show isHexDigit '0' = true from rfl]) h
  · exact .char (by omega) quote backslash h

theorem stringText_encode (t : Text) : StringText (encode t) := by
  induction t with
  | nil => exact .nil
  | cons c t ih => exact stringText_encodeChar c ih

theorem exists_decimal_cons {n : Nat} (h : 0 < n) : ∃ c t, decimal n = c :: t ∧ c ≠ '0' := by
  induction n using Nat.strongRecOn with
  | ind n ih =>
    by_cases small : n < 10
    · rw [decimal, Nat.toDigits_of_lt_base small]
      refine ⟨_, [], rfl, ?_⟩
      rw [ne_eq, Nat.digitChar_eq_zero]
      omega
    · obtain ⟨c, t, whole, nonzero⟩ := ih (n / 10) (by omega) (by omega)
      rw [decimal] at whole
      rw [decimal, Nat.toDigits_of_base_le (by decide) (by omega), whole]
      exact ⟨c, _, rfl, nonzero⟩

theorem natural_decimal (n : Nat) : Natural (decimal n) := by
  cases n with
  | zero => exact .zero
  | succ n =>
    have digits : (decimal (n + 1)).all Char.isDigit = true :=
      List.all_eq_true.mpr fun c hc => isDigit_of_mem_decimal hc
    obtain ⟨c, t, whole, nonzero⟩ := exists_decimal_cons (Nat.succ_pos n)
    rw [whole] at digits ⊢
    exact .digits nonzero ⟨List.cons_ne_nil c t, digits⟩

theorem unsigned_decimal (n : Nat) : Unsigned (decimal n) := by
  have parts := Unsigned.parts (natural_decimal n) .absent .absent
  rwa [List.append_nil, List.append_nil] at parts

end Json

namespace Cache.Entry

open Json

variable {e : Entry} {ms extras : List (Text × Json)}

def fieldNames : List Text := ["key", "css", "timestamp", "themeHash"]

def members (e : Entry) : List (Text × Json) :=
  [(encode "key", textJson e.key), (encode "css", textJson e.css),
   (encode "timestamp", timeJson e.timestamp), (encode "themeHash", textJson e.themeHash)]

theorem text?_textJson (t : Text) : text? (textJson t) = some t := decode?_encode t

theorem time?_timeJson (n : UInt64) : time? (timeJson n) = some n := by
  have digits : (decimal n.toNat).all Char.isDigit = true :=
    List.all_eq_true.mpr fun c hc => isDigit_of_mem_decimal hc
  rw [timeJson, time?, if_pos digits, ofDecimal_decimal, if_pos n.toNat_lt_size,
    UInt64.ofNat_toNat]

def named (m : Text × Json) : Text × Json := ((decode? m.1).getD [], m.2)

theorem mapM_named (h : ∀ m ∈ ms, ∃ name, decode? m.1 = some name) :
    (ms.mapM fun m => (decode? m.1).map fun k => (k, m.2)) = some (ms.map named) := by
  induction ms with
  | nil => rfl
  | cons m ms ih =>
    obtain ⟨name, hn⟩ := h m (by simp)
    rw [List.mapM_cons, ih fun m hm => h m (by simp [hm]), List.map_cons, named, hn]
    rfl

def fields (e : Entry) : List (Text × Json) :=
  [("key", textJson e.key), ("css", textJson e.css), ("timestamp", timeJson e.timestamp),
   ("themeHash", textJson e.themeHash)]

theorem map_named_members (e : Entry) : e.members.map named = e.fields := by
  simp [members, fields, named, decode?_encode]

theorem once?_of_perm {name : Text} {value : Json} {own : List (Text × Json)}
    (perm : ms.Perm (own ++ extras)) (foreign : ∀ m ∈ extras, m.1 ≠ name)
    (single : (own.filter fun m => m.1 = name) = [(name, value)]) : once? name ms = some value := by
  have none : (extras.filter fun m => m.1 = name) = [] :=
    List.filter_eq_nil_iff.mpr fun m hm => by simpa using foreign m hm
  have found := perm.filter fun m => m.1 = name
  rw [List.filter_append, single, none, List.append_nil, List.perm_singleton] at found
  rw [once?, found]

theorem ofJson?_object (perm : ms.Perm (e.members ++ extras))
    (foreign : ∀ m ∈ extras, ∃ name, decode? m.1 = some name ∧ name ∉ fieldNames) :
    ofJson? (.object ms) = some e := by
  have keys : ∀ m ∈ ms, ∃ name, decode? m.1 = some name := by
    intro m hm
    rcases List.mem_append.mp (perm.mem_iff.mp hm) with own | extra
    · simp only [members, List.mem_cons, List.not_mem_nil, or_false] at own
      rcases own with rfl | rfl | rfl | rfl <;> exact ⟨_, decode?_encode _⟩
    · obtain ⟨name, hn, -⟩ := foreign m extra
      exact ⟨name, hn⟩
  have perm' := perm.map named
  rw [List.map_append, map_named_members] at perm'
  have foreign' : ∀ name ∈ fieldNames, ∀ m ∈ extras.map named, m.1 ≠ name := by
    intro name field m hm
    obtain ⟨m, extra, rfl⟩ := List.mem_map.mp hm
    obtain ⟨other, hn, unknown⟩ := foreign m extra
    rintro rfl
    rw [named, hn] at field
    exact unknown field
  have found (name : Text) (value : Json) (field : name ∈ fieldNames)
      (single : (e.fields.filter fun m => m.1 = name) = [(name, value)]) :
      once? name (ms.map named) = some value :=
    once?_of_perm perm' (foreign' name field) single
  rw [ofJson?, mapM_named keys]
  simp only [Option.bind_eq_bind, Option.bind_some]
  rw [found "key" (textJson e.key) (by decide) (by simp [fields]),
    found "css" (textJson e.css) (by decide) (by simp [fields]),
    found "timestamp" (timeJson e.timestamp) (by decide) (by simp [fields]),
    found "themeHash" (textJson e.themeHash) (by decide) (by simp [fields])]
  simp [ofValues?, text?_textJson, time?_timeJson]

theorem spells_textJson (t : Text) : Spells (print (textJson t)) (textJson t) :=
  .scalar (.string (stringText_encode t))

theorem spells_timeJson (n : UInt64) : Spells (print (timeJson n)) (timeJson n) :=
  .scalar (.positive (unsigned_decimal n.toNat))

theorem padded_write (e : Entry) : Padded e.write (.object e.members) := by
  refine Spells.padded (.members (spells_printMembers ?_))
  intro m hm
  simp only [List.mem_cons, List.not_mem_nil, or_false] at hm
  rcases hm with rfl | rfl | rfl | rfl
  · exact ⟨stringText_encode _, spells_textJson _⟩
  · exact ⟨stringText_encode _, spells_textJson _⟩
  · exact ⟨stringText_encode _, spells_timeJson _⟩
  · exact ⟨stringText_encode _, spells_textJson _⟩

/-- An entry is read back from what is written for it, and from every text of an
object that holds its fields in any order among members with other names. -/
theorem read?_spellings (e : Entry) :
    read? e.write = some e ∧
      ∀ (ms extras : List (Text × Json)) (t : Text), ms.Perm (e.members ++ extras) →
        (∀ m ∈ extras, ∃ name, decode? m.1 = some name ∧ name ∉ fieldNames) →
        Padded t (.object ms) → read? t = some e := by
  have back {ms extras : List (Text × Json)} {t : Text} (perm : ms.Perm (e.members ++ extras))
      (foreign : ∀ m ∈ extras, ∃ name, decode? m.1 = some name ∧ name ∉ fieldNames)
      (spelled : Padded t (.object ms)) : read? t = some e := by
    rw [read?, parse?_of_padded spelled, Option.bind_some, ofJson?_object perm foreign]
  refine ⟨?_, fun ms extras t => back⟩
  have alone : e.members.Perm (e.members ++ []) := by rw [List.append_nil]
  exact back alone (by simp) e.padded_write

def oddEntry : Entry := ⟨"a\"\\\x01", "é", 0xFFFFFFFFFFFFFFFF, ""⟩

def nestedMember : Text × Json := ("note", .array [.object [("key", .null)]])

def reversedText : Text :=
  "\n\x7b\"note\":[\x7b\"key\":null\x7d] ,\"themeHash\":\"\",\"timestamp\": 18446744073709551615,\"css\":\"é\",\"key\":\"a\\\"\\\\\\u0001\"\x7d"

def reversedMembers : List (Text × Json) := (oddEntry.members ++ [nestedMember]).reverse

theorem reversed_entry_read :
    reversedMembers.Perm (oddEntry.members ++ [nestedMember]) ∧
      (∀ m ∈ [nestedMember], ∃ name, decode? m.1 = some name ∧ name ∉ fieldNames) ∧
      Padded reversedText (.object reversedMembers) ∧ read? reversedText = some oddEntry := by
  have perm : reversedMembers.Perm (oddEntry.members ++ [nestedMember]) :=
    List.reverse_perm _
  have foreign : ∀ m ∈ [nestedMember], ∃ name, decode? m.1 = some name ∧ name ∉ fieldNames := by
    intro m hm
    obtain rfl := List.mem_singleton.mp hm
    exact ⟨"note", rfl, by decide⟩
  have spelled : Padded reversedText (.object reversedMembers) := by
    obtain ⟨t, rfl, spelled⟩ : ∃ t, reversedText = t ∧ Padded t (.object reversedMembers) := by
      have key := stringText_encode
      have object : Spells _ (.object [("key", .null)]) :=
        .members (.last (a := []) (b := []) rfl (key "key") rfl (Spells.padded (.scalar .null)))
      have note : Padded _ nestedMember.2 :=
        .mk (a := []) (z := " ") rfl (.items (.last object.padded)) rfl
      have time : Padded _ (timeJson oddEntry.timestamp) :=
        .mk (a := " ") (z := []) rfl (spells_timeJson _) rfl
      have text (t : Text) : Padded _ (textJson t) := (spells_textJson t).padded
      refine ⟨_, ?_, .mk (a := "\n") (z := []) rfl (.members (.cons (a := []) (b := []) rfl
        (key "note") rfl note (.cons (a := []) (b := []) rfl (key _) rfl (text _)
        (.cons (a := []) (b := []) rfl (key _) rfl time (.cons (a := []) (b := []) rfl (key _) rfl
        (text _) (.last (a := []) (b := []) rfl (key _) rfl (text _))))))) rfl⟩
      decide +kernel
    exact spelled
  exact ⟨perm, foreign, spelled,
    (read?_spellings oddEntry).2 reversedMembers [nestedMember] reversedText perm foreign spelled⟩

end Cache.Entry

end UtilityLayer
