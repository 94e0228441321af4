import UtilityLayer.Layer.Index
import UtilityLayer.Proofs.Css.Escape
import UtilityLayer.Proofs.Keyed
import UtilityLayer.Proofs.Layer.Subjects

/-!
# The selectors of generated rules

A rule without a context starts from the class of its token, and its selector
goes on from there. Variants of the table add suffixes that name no other class,
or wrap the rule in a media query; only a bracketed variant that starts with the
parent mark or is an at-rule can do anything else.
-/

set_option autoImplicit false

namespace UtilityLayer

open Text Css Layer

def isAtRule (t : Text) : Bool := t.head? == some '@'

theorem isAtRule_of_startsWith {lead t : Text} (h : startsWith ('@' :: lead) t = true) :
    isAtRule t = true := by
  obtain ⟨rest, hr⟩ := Option.isSome_iff_exists.mp h
  rw [after?_eq_some_iff.mp hr]
  rfl

theorem isAtRule_of_isGrouping {head : Text} (h : isGrouping head = true) :
    isAtRule head = true := by
  simp only [isGrouping, Bool.or_eq_true] at h
  rcases h with (lead | lead) | lead
  · exact isAtRule_of_startsWith lead
  · exact isAtRule_of_startsWith lead
  · exact isAtRule_of_startsWith lead

theorem startsWith_at (t : Text) : startsWith "@" t = isAtRule t := by
  cases t with
  | nil => rfl
  | cons c t =>
    show (if '@' = c then some t else none).isSome = (some c == some '@')
    by_cases h : '@' = c
    · rw [if_pos h, h]
      exact (beq_self_eq_true _).symm
    · rw [if_neg h]
      exact (beq_false_of_ne fun same => h (Option.some.inj same).symm).symm

instance (t : Text) : Decidable (Suffix t) :=
  decidable_of_iff (t.head?.any goesOn = false ∧ '.' ∉ t ∧ uncut ',' .top t = true ∧
      Level.top.run t = .top) <| by
    constructor
    · rintro ⟨ends, dotless, uncut, top⟩
      refine ⟨?_, dotless, ⟨uncut, top⟩⟩
      rintro c u rfl
      simpa [goesOn] using ends
    · rintro ⟨ends, dotless, ⟨uncut, top⟩⟩
      refine ⟨?_, dotless, uncut, top⟩
      cases t with
      | nil => rfl
      | cons c u => simpa [goesOn] using ends c u rfl

namespace Variant

/-- A variant that leaves the class of its token the only one: a suffix, a suffix
after the parent mark, a nested block, or an at-rule that groups rules. -/
structure Tame (v : Variant) : Prop where
  pseudo : v.kind = .pseudo → Suffix v.selector
  flat : v.kind = .flat → ∃ w, v.selector = '&' :: w ∧ '&' ∉ w ∧ Suffix w
  media : v.kind = .media → isGrouping v.selector = true

theorem tame_of_nested {s : Text} (h : namedKind s = .nested) : Tame (named s) where
  pseudo := by
    intro hk
    rw [show (named s).kind = .nested from h] at hk
    cases hk
  flat := by
    intro hk
    rw [show (named s).kind = .nested from h] at hk
    cases hk
  media := by
    intro hk
    rw [show (named s).kind = .nested from h] at hk
    cases hk

theorem tame_of_media {s : Text} (h : startsWith "@media" s = true) : Tame (named s) := by
  obtain ⟨rest, hr⟩ := Option.isSome_iff_exists.mp h
  obtain rfl := after?_eq_some_iff.mp hr
  have kind : (named ("@media".toList ++ rest)).kind = .media := rfl
  constructor
  · intro hk
    rw [kind] at hk
    cases hk
  · intro hk
    rw [kind] at hk
    cases hk
  · intro _
    show isGrouping ("@media".toList ++ rest) = true
    rw [isGrouping, h]
    rfl

theorem tame_of_fixed {name s : Text} (h : Table.fixed? name = some s) : Tame (named s) := by
  have checked : ∀ e ∈ fixedNames,
      (namedKind e.2 = .pseudo → Suffix e.2) ∧
      (namedKind e.2 = .flat → e.2.head? = some '&' ∧ '&' ∉ e.2.tail ∧ Suffix e.2.tail) ∧
      (namedKind e.2 = .media → isGrouping e.2 = true) := by
    decide +kernel
  obtain ⟨pseudo, flat, media⟩ := checked _ (Keyed.mem_of_get? h)
  refine ⟨pseudo, ?_, media⟩
  intro hk
  obtain ⟨mark, once, suffix⟩ := flat hk
  obtain ⟨w, rfl⟩ := List.head?_eq_some_iff.mp mark
  exact ⟨w, rfl, once, suffix⟩

theorem namedKind_concat {t : Text} (h : startsWith "@" (t ++ ['&']) = false) :
    namedKind (t ++ ['&']) = .nested := by
  have kept : trimEnd (t ++ ['&']) = t ++ ['&'] := by
    rw [trimEnd_concat, if_neg (by decide)]
  have ends : endsWith "&" (t ++ ['&']) = true := by
    rw [endsWith, List.reverse_append]
    rfl
  rw [namedKind, h, kept, ends]
  rfl

theorem tame_of_resolve? {table : Table} {name : Text} {v : Variant}
    (h : table.resolve? name = some v) : Tame v := by
  obtain ⟨s, hs, rfl⟩ := Option.map_eq_some_iff.mp h
  simp only [Table.selector?, Option.orElse_eq_or, Option.or_eq_some_iff] at hs
  rcases hs with fixed | ⟨-, least | ⟨-, most | ⟨-, group | ⟨-, peer⟩⟩⟩⟩
  · exact tame_of_fixed fixed
  · obtain ⟨w, -, rfl⟩ := Option.map_eq_some_iff.mp least
    exact tame_of_media rfl
  · obtain ⟨w, -, rfl⟩ := Option.map_eq_some_iff.mp most
    exact tame_of_media rfl
  · obtain ⟨state, -, rfl⟩ := Option.map_eq_some_iff.mp group
    have parts : ".group".toList ++ state ++ " &".toList =
        (".group".toList ++ state ++ [' ']) ++ ['&'] := by
      rw [List.append_assoc _ [' ']]
      rfl
    rw [parts]
    exact tame_of_nested (namedKind_concat rfl)
  · obtain ⟨state, -, rfl⟩ := Option.map_eq_some_iff.mp peer
    have parts : ".peer".toList ++ state ++ " ~ &".toList =
        (".peer".toList ++ state ++ " ~ ".toList) ++ ['&'] := by
      rw [List.append_assoc _ " ~ ".toList]
      rfl
    rw [parts]
    exact tame_of_nested (namedKind_concat rfl)

end Variant

theorem Token.variants_cases {table : Variant.Table} {raw : Text} {v : Variant}
    (h : v ∈ (parse table raw).variants) : v.Tame ∨ ∃ s, v = .ofArbitrary s := by
  obtain ⟨segment, -, hv⟩ := List.mem_filterMap.mp h
  rw [variantOf?] at hv
  split at hv
  · cases hv
  · split at hv
    · obtain ⟨s, -, rfl⟩ := Option.map_eq_some_iff.mp hv
      exact .inr ⟨s, rfl⟩
    · exact .inl (Variant.tame_of_resolve? hv)

theorem Token.isAtRule_of_media {table : Variant.Table} {raw : Text} {v : Variant}
    (h : v ∈ (parse table raw).variants) (media : v.kind = .media) :
    isAtRule v.selector = true := by
  rcases variants_cases h with tame | ⟨s, rfl⟩
  · exact isAtRule_of_isGrouping (tame.media media)
  · simp only [Variant.ofArbitrary, Variant.arbitraryKind] at media
    split at media
    · cases media
    · split at media
      · rename_i at'
        exact isAtRule_of_startsWith at'
      · cases media

/-- The at-rule around the rules of a token: that of its last media variant. -/
def Token.wrapper? (t : Token) : Option Text :=
  ((t.variants.filter Variant.isMedia).getLast?).map Variant.selector

namespace Rule

/-- A draft whose selector is the class of a token and something after it. -/
structure Rooted (After : Text → Prop) (raw : Text) (d : Draft) : Prop where
  selector : ∃ w, After w ∧ d.selector = classSelector raw ++ w
  tail : d.tail = []

structure Keeps (After : Text → Prop) (raw : Text) (v : Variant) : Prop where
  pseudo : v.kind = .pseudo → ∀ w, After w → After (w ++ v.selector)
  flat : v.kind = .flat → ∃ rest, v.selector = '&' :: rest ∧
    ∀ w, After w → After (w ++ fill '&' (classSelector raw ++ w) rest)

variable {After : Text → Prop}

theorem Rooted.apply {raw : Text} {d : Draft} {v : Variant} (h : Rooted After raw d)
    (keeps : Keeps After raw v) : Rooted After raw (d.apply v) := by
  obtain ⟨w, after, hw⟩ := h.selector
  rw [Draft.apply]
  cases hk : v.kind with
  | nested => exact ⟨⟨w, after, hw⟩, h.tail⟩
  | media => exact ⟨⟨w, after, hw⟩, h.tail⟩
  | pseudo =>
    refine ⟨⟨w ++ v.selector, keeps.pseudo hk w after, ?_⟩, h.tail⟩
    show d.selector ++ v.selector = _
    rw [hw, List.append_assoc]
  | flat =>
    obtain ⟨rest, hr, kept⟩ := keeps.flat hk
    refine ⟨⟨w ++ fill '&' (classSelector raw ++ w) rest, kept w after, ?_⟩, rfl⟩
    show fill '&' (d.selector ++ d.tail) v.selector = _
    rw [hr, h.tail, List.append_nil, hw]
    exact List.append_assoc _ _ _

theorem Rooted.foldl {raw : Text} {vs : List Variant} {d : Draft} (h : Rooted After raw d)
    (keeps : ∀ v ∈ vs, Keeps After raw v) : Rooted After raw (vs.foldl Draft.apply d) := by
  induction vs generalizing d with
  | nil => exact h
  | cons v vs ih => exact ih (h.apply (keeps v (by simp))) fun w hw => keeps w (by simp [hw])

theorem keeps_any {raw : Text} {v : Variant} (h : v.Tame ∨ ∃ s, v = .ofArbitrary s) :
    Keeps (fun _ => True) raw v where
  pseudo := fun _ _ _ => trivial
  flat := by
    intro hk
    rcases h with tame | ⟨s, rfl⟩
    · obtain ⟨w, hw, -⟩ := tame.flat hk
      exact ⟨w, hw, fun _ _ => trivial⟩
    · simp only [Variant.ofArbitrary, Variant.arbitraryKind] at hk
      split at hk
      · rename_i mark
        obtain ⟨rest, hr⟩ := Option.isSome_iff_exists.mp mark
        exact ⟨rest, after?_eq_some_iff.mp hr, fun _ _ => trivial⟩
      · split at hk <;> cases hk

theorem keeps_suffix {raw : Text} {v : Variant} (tame : v.Tame) : Keeps Suffix raw v where
  pseudo := fun hk _ suffix => suffix.append (tame.pseudo hk)
  flat := by
    intro hk
    obtain ⟨rest, hr, once, own⟩ := tame.flat hk
    refine ⟨rest, hr, ?_⟩
    intro w suffix
    rw [fill_of_not_mem once]
    exact suffix.append own

theorem media_foldl {vs : List Variant} {d : Draft} :
    (vs.foldl Draft.apply d).media =
      (((vs.filter Variant.isMedia).getLast?).map Variant.selector).or d.media := by
  induction vs generalizing d with
  | nil => rfl
  | cons v vs ih =>
    rw [List.foldl_cons, ih, Draft.apply, List.filter_cons, Variant.isMedia]
    cases hk : v.kind with
    | media =>
      rw [if_pos (by simp), List.getLast?_cons]
      cases (vs.filter Variant.isMedia).getLast? with
      | none => rfl
      | some w => rfl
    | pseudo => rfl
    | flat => rfl
    | nested => rfl

theorem media_compose_eq (token : Token) (u : Utility) :
    (compose token u).media = token.wrapper? := by
  have drafted : (draft token u).media = token.wrapper? := by
    rw [draft, media_foldl]
    exact Option.or_none
  rw [compose.eq_def]
  split
  · split
    · rename_i plain
      obtain ⟨none, -⟩ := Bool.and_eq_true_iff.mp plain
      rw [Token.wrapper?, List.isEmpty_iff.mp none]
      rfl
    · exact drafted
  · exact drafted

variable {table : Variant.Table} {raw : Text} {u : Utility}

theorem media_compose {token : Token} {m : Text} (h : (compose token u).media = some m) :
    ∃ v ∈ token.variants, v.kind = .media ∧ v.selector = m := by
  rw [media_compose_eq] at h
  obtain ⟨v, hv, rfl⟩ := Option.map_eq_some_iff.mp h
  obtain ⟨member, media⟩ := List.mem_filter.mp (List.mem_of_getLast? hv)
  exact ⟨v, member, of_decide_eq_true media, rfl⟩

theorem isAtRule_media {m : Text} (h : (compose (.parse table raw) u).media = some m) :
    isAtRule m = true := by
  obtain ⟨v, hv, media, rfl⟩ := media_compose h
  exact Token.isAtRule_of_media hv media

theorem isGrouping_media
    (grouping : ∀ v ∈ (Token.parse table raw).variants, v.arbitrary = true → v.kind = .media →
      isGrouping v.selector = true) :
    (compose (.parse table raw) u).media.all isGrouping = true := by
  cases hm : (compose (.parse table raw) u).media with
  | none => rfl
  | some m =>
    obtain ⟨v, hv, media, rfl⟩ := media_compose hm
    rcases Token.variants_cases hv with tame | ⟨s, rfl⟩
    · exact tame.media media
    · exact grouping _ hv rfl media

theorem compose_of_no_context {token : Token} (h : u.context = none) :
    compose token u = (token.variants.foldl Draft.apply
      { selector := classSelector token.raw, tail := [] }).finish (bodyOf token u) := by
  have first : start token u = (classSelector token.raw, []) := by rw [start, h]
  rw [compose.eq_def, h]
  dsimp only
  rw [draft, first]

theorem rooted_compose (h : u.context = none) (nil : After [])
    (keeps : ∀ v ∈ (Token.parse table raw).variants, Keeps After raw v) :
    ∃ w, After w ∧ (compose (.parse table raw) u).selector = classSelector raw ++ w := by
  have start : Rooted After raw { selector := classSelector raw, tail := [] } :=
    ⟨⟨[], nil, (List.append_nil _).symm⟩, rfl⟩
  have rooted := start.foldl keeps
  obtain ⟨w, after, hw⟩ := rooted.selector
  have own : (Token.parse table raw).raw = raw := rfl
  rw [compose_of_no_context h, own]
  refine ⟨w, after, ?_⟩
  show _ ++ _ = _
  rw [rooted.tail, List.append_nil]
  exact hw

/-- The selector of a generated rule starts with the class of its token. -/
theorem selector_compose (h : u.context = none) :
    ∃ w, (compose (.parse table raw) u).selector = classSelector raw ++ w := by
  obtain ⟨w, -, hw⟩ := rooted_compose h trivial fun v hv => keeps_any (Token.variants_cases hv)
  exact ⟨w, hw⟩

theorem suffix_compose (h : u.context = none)
    (tame : ∀ v ∈ (Token.parse table raw).variants, v.arbitrary = true → v.Tame) :
    ∃ w, Suffix w ∧ (compose (.parse table raw) u).selector = classSelector raw ++ w := by
  refine rooted_compose h .nil ?_
  intro v hv
  rcases Token.variants_cases hv with known | ⟨s, rfl⟩
  · exact keeps_suffix known
  · exact keeps_suffix (tame _ hv rfl)

end Rule

end UtilityLayer
