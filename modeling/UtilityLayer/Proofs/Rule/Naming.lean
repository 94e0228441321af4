import UtilityLayer.Proofs.Rule.Selectors

/-!
# The name that a composed selector begins with

A rule that starts from the class of its token keeps that class in front,
whatever variants follow. What the variants write behind it, with the parent mark
for the selector so far, decides how the name is read: as the token, unless the
first of it goes on with the name.
-/

set_option autoImplicit false

namespace UtilityLayer

open Text Css

namespace Variant

/-- What a variant writes behind the selector, the parent mark standing for the
selector itself. -/
def addition (v : Variant) : Text :=
  match v.kind with
  | .pseudo => v.selector
  | .flat => v.selector.tail
  | .nested => []
  | .media => []

structure Appends (v : Variant) : Prop where
  pseudo : v.kind = .pseudo → '&' ∉ v.selector
  flat : v.kind = .flat → v.selector.head? = some '&'

theorem appends_of_named {s : Text} (tame : (named s).Tame) : (named s).Appends where
  pseudo := by
    intro hk hm
    have marked : s.contains '&' = true := List.contains_iff_mem.mpr hm
    have kind : namedKind s = .pseudo := hk
    simp only [namedKind, marked] at kind
    split at kind
    · cases kind
    · split at kind <;> cases kind
  flat := by
    intro hk
    obtain ⟨w, hw, -⟩ := tame.flat hk
    rw [hw]
    rfl

theorem appends_of_arbitrary (s : Text) : (ofArbitrary s).Appends := by
  by_cases mark : startsWith "&" s = true
  · have kind : (ofArbitrary s).kind = .flat := if_pos mark
    obtain ⟨rest, hr⟩ := Option.isSome_iff_exists.mp mark
    refine ⟨by simp [kind], fun _ => ?_⟩
    show s.head? = some '&'
    rw [after?_eq_some_iff.mp hr]
    rfl
  · have kind : (ofArbitrary s).kind ≠ .pseudo ∧ (ofArbitrary s).kind ≠ .flat := by
      simp only [ofArbitrary, arbitraryKind, if_neg mark]
      split <;> simp
    exact ⟨fun hk => absurd hk kind.1, fun hk => absurd hk kind.2⟩

end Variant

namespace Token

/-- All that the variants of a token write behind its class. -/
def additions (t : Token) : Text := t.variants.flatMap Variant.addition

theorem appends_of_mem {table : Variant.Table} {raw : Text} {v : Variant}
    (h : v ∈ (parse table raw).variants) : v.Appends := by
  obtain ⟨segment, -, hv⟩ := List.mem_filterMap.mp h
  rw [variantOf?] at hv
  split at hv
  · cases hv
  · split at hv
    · obtain ⟨s, -, rfl⟩ := Option.map_eq_some_iff.mp hv
      exact Variant.appends_of_arbitrary s
    · obtain ⟨s, -, rfl⟩ := Option.map_eq_some_iff.mp hv
      exact Variant.appends_of_named (Variant.tame_of_resolve? hv)

end Token

namespace Rule

/-- A text written with the parent mark for a class selector, and the same text
with the class selector in its place, as far as a name reader looks. -/
structure Alike (w a : Text) : Prop where
  head : w.head? = a.head?.map fun c => if c = '&' then '.' else c
  lone : w = ['\\'] ↔ a = ['\\']

namespace Alike

theorem nil : Alike [] [] := ⟨rfl, Iff.rfl⟩

theorem eq_nil_iff {w a : Text} (h : Alike w a) : w = [] ↔ a = [] := by
  rw [← List.head?_eq_none_iff, h.head, Option.map_eq_none_iff, List.head?_eq_none_iff]

theorem fill {own : Text} (dot : own.head? = some '.') (a : Text) : Alike (fill '&' own a) a := by
  cases a with
  | nil => exact nil
  | cons c a =>
    obtain ⟨own, rfl⟩ := List.head?_eq_some_iff.mp dot
    by_cases hc : c = '&'
    · subst hc
      exact ⟨by simp [Text.fill], by simp [Text.fill]⟩
    · have rest : Text.fill '&' ('.' :: own) a = [] ↔ a = [] := by
        rw [← List.head?_eq_none_iff]
        cases a with
        | nil => simp [Text.fill]
        | cons d a => by_cases hd : d = '&' <;> simp [Text.fill, hd]
      have cons : Text.fill '&' ('.' :: own) (c :: a) = c :: Text.fill '&' ('.' :: own) a := by
        simp [Text.fill, hc]
      exact ⟨by simp [cons, hc], by simp [cons, rest]⟩

theorem append {w a x b : Text} (h : Alike w a) (hx : Alike x b) : Alike (w ++ x) (a ++ b) := by
  have empty := h.eq_nil_iff
  have emptyTail := hx.eq_nil_iff
  by_cases first : a = []
  · simpa [empty.mpr first, first] using hx
  · have started : w ≠ [] := fun hw => first (empty.mp hw)
    constructor
    · rw [List.head?_append_of_ne_nil _ started, List.head?_append_of_ne_nil _ first, h.head]
    · simp [List.append_eq_singleton_iff, started, first, h.lone, emptyTail]

theorem nameless_iff {w a : Text} (h : Alike w a) : Nameless w ↔ Nameless a := by
  rw [Nameless, Nameless, h.lone, h.head]
  cases a.head? with
  | none => simp
  | some c =>
    have dot : goesOn '.' = false := by decide
    have mark : goesOn '&' = false := by decide
    by_cases hc : c = '&' <;> simp [hc, dot, mark]

end Alike

theorem selector_apply {d : Draft} {v : Variant} (appends : v.Appends) (untailed : d.tail = []) :
    (d.apply v).selector = d.selector ++ Text.fill '&' d.selector v.addition := by
  cases hk : v.kind with
  | nested => simp [Draft.apply, Variant.addition, hk, Text.fill]
  | media => simp [Draft.apply, Variant.addition, hk, Text.fill]
  | pseudo => simp [Draft.apply, Variant.addition, hk, fill_of_not_mem (appends.pseudo hk)]
  | flat =>
    obtain ⟨rest, hr⟩ := List.head?_eq_some_iff.mp (appends.flat hk)
    simp [Draft.apply, Variant.addition, hk, hr, untailed, Text.fill]

theorem tail_apply {d : Draft} (untailed : d.tail = []) (v : Variant) : (d.apply v).tail = [] := by
  rw [Draft.apply]
  split <;> simp [untailed]

/-- What variants write behind a selector one after the other, the parent mark in
each addition standing for the selector before it. -/
def written : Text → List Variant → Text
  | _, [] => []
  | s, v :: vs => Text.fill '&' s v.addition ++ written (s ++ Text.fill '&' s v.addition) vs

theorem selector_foldl {vs : List Variant} {d : Draft} (appends : ∀ v ∈ vs, v.Appends)
    (untailed : d.tail = []) :
    (vs.foldl Draft.apply d).tail = [] ∧
      (vs.foldl Draft.apply d).selector = d.selector ++ written d.selector vs := by
  induction vs generalizing d with
  | nil => exact ⟨untailed, (List.append_nil _).symm⟩
  | cons v vs ih =>
    obtain ⟨tail, grown⟩ := ih (fun u hu => appends u (by simp [hu])) (tail_apply untailed v)
    rw [selector_apply (appends v (by simp)) untailed, List.append_assoc] at grown
    exact ⟨tail, grown⟩

theorem alike_written {vs : List Variant} {s : Text} (dot : s.head? = some '.') :
    Alike (written s vs) (vs.flatMap Variant.addition) := by
  induction vs generalizing s with
  | nil => exact .nil
  | cons v vs ih =>
    rw [written, List.flatMap_cons]
    exact (Alike.fill dot v.addition).append (ih (by rw [List.head?_append, dot]; rfl))

def behindClass (token : Token) : Text := written (classSelector token.raw) token.variants

/-- A rule that starts from the class of its token: the utility has no context,
or a grouped one that the token does not keep as it is. -/
def StartsFromClass (token : Token) (u : Utility) : Prop :=
  ∀ context ∈ u.context, context.grouped = true ∧ token.isUndecorated = false

instance (token : Token) (u : Utility) : Decidable (StartsFromClass token u) :=
  inferInstanceAs (Decidable (∀ context ∈ u.context, _))

theorem selector_compose_of_class {token : Token} {u : Utility} (own : StartsFromClass token u) :
    (compose token u).selector =
      ((token.variants.foldl Draft.apply
        { selector := classSelector token.raw, tail := [] }).finish (bodyOf token u)).selector := by
  cases hc : u.context with
  | none => rw [compose_of_no_context hc]
  | some context =>
    obtain ⟨grouped, decorated⟩ := own context hc
    have first : start token u = (classSelector token.raw, []) := by simp [start, hc, grouped]
    simp [compose, hc, decorated, draft, first]

variable {table : Variant.Table} {raw : Text} {u : Utility}

/-- The selector is the class of the token with what the variants write behind it,
and the name that is read behind its dot is the token exactly when no name stands
at the beginning of that. The additions tell as they are, before the parent marks
are filled. -/
theorem compose_names_token_iff (nonempty : raw ≠ [])
    (own : StartsFromClass (.parse table raw) u) :
    (compose (.parse table raw) u).selector =
        classSelector raw ++ behindClass (.parse table raw) ∧
      (escapedName? (escape raw ++ behindClass (.parse table raw)) =
          some (raw, behindClass (.parse table raw)) ↔
        Nameless (behindClass (.parse table raw))) ∧
      (Nameless (behindClass (.parse table raw)) ↔
        Nameless (Token.parse table raw).additions) := by
  have appends : ∀ v ∈ (Token.parse table raw).variants, v.Appends :=
    fun v hv => Token.appends_of_mem hv
  obtain ⟨untailed, selector⟩ :=
    selector_foldl (d := { selector := classSelector raw, tail := [] }) appends rfl
  refine ⟨?_, escapedName?_escape_iff nonempty _, (alike_written rfl).nameless_iff⟩
  rw [selector_compose_of_class own]
  exact (congrArg₂ (· ++ ·) selector untailed).trans (List.append_nil _)

example : behindClass (.parse .default "[&+&]:p-4") = "+.\\[\\&\\+\\&\\]\\:p-4" := by decide

def groupedCard : Utility where
  className := "card"
  body := "padding: 1rem;"
  context := some ⟨":where(.card, .panel)", true⟩

def figureToken : Text := "[&_figure]:hover:card"

theorem figure_token_named :
    figureToken ≠ [] ∧ StartsFromClass (.parse .default figureToken) groupedCard ∧
      (compose (.parse .default figureToken) groupedCard).selector =
        classSelector figureToken ++ " figure:hover".toList ∧
      escapedName? (escape figureToken ++ " figure:hover".toList) =
        some (figureToken, " figure:hover".toList) := by
  have nonempty : figureToken ≠ [] := by decide
  have own : StartsFromClass (.parse .default figureToken) groupedCard := by decide
  have behind : behindClass (.parse .default figureToken) = " figure:hover" := by decide
  obtain ⟨selector, reads, -⟩ := compose_names_token_iff nonempty own
  rw [behind] at selector reads
  exact ⟨nonempty, own, selector, reads.mpr (by decide)⟩

def plainPadding : Utility where
  className := "p-4"
  body := "padding: var(--spacing-4);"

def divToken : Text := "[&div]:p-4"

/-- A bracketed variant that goes on with the name: the rule is for the elements
of a longer class, which the token is not. -/
theorem div_lengthens_name :
    StartsFromClass (.parse .default divToken) plainPadding ∧
      (compose (.parse .default divToken) plainPadding).selector =
        classSelector divToken ++ "div".toList ∧
      escapedName? (escape divToken ++ "div".toList) = some ("[&div]:p-4div".toList, []) ∧
      ¬ ∃ w, (compose (.parse .default divToken) plainPadding).selector =
          classSelector divToken ++ w ∧
        escapedName? (escape divToken ++ w) = some (divToken, w) := by
  have own : StartsFromClass (.parse .default divToken) plainPadding := by decide
  have composed : (compose (.parse .default divToken) plainPadding).selector =
      classSelector divToken ++ "div".toList := by decide
  have rest : readEscaped "div" = ("div".toList, []) := readEscaped_eq_of_escape "div"
  have longer : escapedName? (escape divToken ++ "div".toList) =
      some ("[&div]:p-4div".toList, []) := by
    rw [escapedName?_escape_append (by decide), rest]
    rfl
  refine ⟨own, composed, longer, ?_⟩
  rintro ⟨w, hw, reads⟩
  obtain rfl := List.append_cancel_left (hw.symm.trans composed)
  rw [longer] at reads
  exact absurd reads (by decide)

end Rule

end UtilityLayer
