import UtilityLayer.Proofs.Cache.Contents
import UtilityLayer.Proofs.TextSet
import UtilityLayer.Proofs.Text.Join
import UtilityLayer.Text.Fingerprint

/-!
# What a key tells

A joined list is cut at its commas into the fields of its set: the parts of the
members between their own commas. A key tells these fields and the theme hash,
and nothing more. Among sets whose members hold no comma the fields tell the
set, but for the set of the empty text, which has the fields of the empty set.
-/

set_option autoImplicit false

namespace UtilityLayer

open Text

namespace TextSet

variable {s t : TextSet}

/-- The members cut at their commas, in the order of the members. No member at all
is written like one empty member. -/
def fields (s : TextSet) : List Text :=
  if s.toList = [] then [[]] else s.toList.flatMap (pieces (· == ','))

def Plain (s : TextSet) : Prop := ∀ name ∈ s, ',' ∉ name

def Hollow (s : TextSet) : Prop := ∀ name ∈ s, name = []

theorem pieces_joined (s : TextSet) : pieces (· == ',') s.joined = s.fields := by
  rw [joined, fields]
  cases h : s.toList with
  | nil => rfl
  | cons name names => rw [pieces_join, if_neg (List.cons_ne_nil name names)]

theorem joined_eq_iff : s.joined = t.joined ↔ s.fields = t.fields := by
  rw [← pieces_joined, ← pieces_joined]
  constructor
  · exact congrArg _
  · intro h
    have rejoined := congrArg (join [',']) h
    rwa [join_pieces, join_pieces] at rejoined

theorem fields_of_plain (h : s.Plain) :
    s.fields = if s.toList = [] then [[]] else s.toList := by
  have own : s.toList.flatMap (pieces (· == ',')) = s.toList.flatMap fun name => [name] := by
    apply List.flatMap_congr
    intro name member
    apply pieces_of_forall
    intro c hc
    exact beq_false_of_ne fun comma => h name member (comma ▸ hc)
  rw [fields, own, List.flatMap_singleton']

theorem eq_of_toList (h : s.toList = t.toList) : s = t := by
  cases s
  cases t
  cases h
  rfl

theorem hollow_iff : s.Hollow ↔ s.toList = [] ∨ s.toList = [[]] := by
  constructor
  · intro hollow
    have once := s.sorted
    cases h : s.toList with
    | nil => exact .inl rfl
    | cons name names =>
      have first : name = [] := hollow name (by simp [mem_iff, h])
      cases names with
      | nil => exact .inr (by rw [first])
      | cons other names =>
        have second : other = [] := hollow other (by simp [mem_iff, h])
        rw [h, first, second] at once
        exact absurd (List.rel_of_pairwise_cons once (List.mem_cons_self ..)) (List.lt_irrefl _)
  · rintro (h | h) name member
    · rw [mem_iff, h] at member
      cases member
    · rw [mem_iff, h] at member
      exact List.mem_singleton.mp member

theorem fields_eq_iff (hs : s.Plain) (ht : t.Plain) :
    s.fields = t.fields ↔ s = t ∨ s.Hollow ∧ t.Hollow := by
  rw [fields_of_plain hs, fields_of_plain ht, hollow_iff, hollow_iff]
  constructor
  · intro h
    by_cases none : s.toList = []
    · by_cases none' : t.toList = []
      · exact .inr ⟨.inl none, .inl none'⟩
      · rw [if_pos none, if_neg none'] at h
        exact .inr ⟨.inl none, .inr h.symm⟩
    · by_cases none' : t.toList = []
      · rw [if_neg none, if_pos none'] at h
        exact .inr ⟨.inr h, .inl none'⟩
      · rw [if_neg none, if_neg none'] at h
        exact .inl (eq_of_toList h)
  · rintro (rfl | ⟨hs | hs, ht | ht⟩)
    · rfl
    all_goals simp [hs, ht]

end TextSet

namespace Cache

/-- The key of a set and a theme tells the fields of the set and the theme hash, the
joined list tells the fields, and these tell a plain set unless it is hollow. -/
theorem keyOf_tells_fields (s s' : TextSet) (theme theme' : Text) :
    (keyOf s (fingerprint theme) = keyOf s' (fingerprint theme') ↔
      s.fields = s'.fields ∧ fingerprint theme = fingerprint theme') ∧
    (s.joined = s'.joined ↔ s.fields = s'.fields) ∧
    (s.Plain → s'.Plain → (s.fields = s'.fields ↔ s = s' ∨ s.Hollow ∧ s'.Hollow)) := by
  refine ⟨⟨?_, ?_⟩, TextSet.joined_eq_iff, TextSet.fields_eq_iff⟩
  · intro same
    have length : (fingerprint theme).length = (fingerprint theme').length := by
      rw [fingerprint_length, fingerprint_length]
    obtain ⟨joined, hash⟩ := keyOf_inj length same
    exact ⟨TextSet.joined_eq_iff.mp joined, hash⟩
  · rintro ⟨fields, hash⟩
    rw [keyOf, keyOf, TextSet.joined_eq_iff.mpr fields, hash]

theorem dashed_keys_apart :
    (TextSet.ofList ["flex", "p-4"]).Plain ∧ (TextSet.ofList ["flex"]).Plain ∧
      keyOf (TextSet.ofList ["flex", "p-4"]) (fingerprint ":root \x7b\x7d") ≠
        keyOf (TextSet.ofList ["flex"]) (fingerprint ":root \x7b\x7d") := by
  have plain : (TextSet.ofList ["flex", "p-4"]).Plain := by unfold TextSet.Plain; decide
  have plain' : (TextSet.ofList ["flex"]).Plain := by unfold TextSet.Plain; decide
  refine ⟨plain, plain', ?_⟩
  have tells := keyOf_tells_fields (TextSet.ofList ["flex", "p-4"]) (TextSet.ofList ["flex"])
    ":root \x7b\x7d" ":root \x7b\x7d"
  intro same
  rcases (tells.2.2 plain plain').mp (tells.1.mp same).1 with equal | ⟨-, hollow⟩
  · exact absurd equal (by decide)
  · exact absurd (hollow "flex" (TextSet.mem_ofList.mpr (by simp))) (by decide)

/-- One member with a comma has the key of two members, and the set of the empty text
has the key of the empty set. -/
theorem comma_joins_keys :
    (TextSet.ofList ["a,b"] ≠ TextSet.ofList ["a", "b"] ∧
      (TextSet.ofList ["a,b"]).joined = (TextSet.ofList ["a", "b"]).joined ∧
      keyOf (TextSet.ofList ["a,b"]) (fingerprint ":root \x7b\x7d") =
        keyOf (TextSet.ofList ["a", "b"]) (fingerprint ":root \x7b\x7d")) ∧
    TextSet.ofList [""] ≠ .empty ∧ (TextSet.ofList [""]).joined = TextSet.empty.joined := by
  have joined : (TextSet.ofList ["a,b"]).joined = (TextSet.ofList ["a", "b"]).joined := by decide
  refine ⟨⟨by decide, joined, ?_⟩, by decide, rfl⟩
  rw [keyOf, keyOf, joined]

end Cache

end UtilityLayer
