import UtilityLayer.Proofs.Rule.Rename
import UtilityLayer.Proofs.Rule.Selectors
import UtilityLayer.Proofs.Text.Lines
import UtilityLayer.Proofs.Token

/-!
# The line of a rule

A rule composed for a token without line breaks has one in its at-rule or not at
all: everything else in it comes from the token, from fixed texts, or from
normalized ones. The at-rule is that of the token's last media variant, and only
the width of a breakpoint can bring a line break into it.
-/

set_option autoImplicit false

namespace UtilityLayer

open Text Css

variable {s t : Text}

theorem oneLine_escape (h : OneLine t) : OneLine (escape t) := by
  have each (c : Char) (hc : isBreak c = false) : OneLine (escapeChar c) := by
    rw [escapeChar]
    split
    · exact oneLine_cons.mpr ⟨hc, List.forall_mem_nil _⟩
    · exact oneLine_cons.mpr ⟨rfl, oneLine_cons.mpr ⟨hc, List.forall_mem_nil _⟩⟩
  cases t with
  | nil => exact h
  | cons c t =>
    obtain ⟨hc, ht⟩ := oneLine_cons.mp h
    rw [escape, oneLine_append]
    refine ⟨?_, oneLine_flatMap ht each⟩
    split
    · rename_i digit
      have digits : ∀ n : Fin 10, OneLine ('\\' :: hexadecimal (48 + n) ++ [' ']) := by decide
      obtain ⟨n, hn⟩ := exists_of_isDigit digit
      rw [hn]
      exact digits n
    · exact each c hc

theorem oneLine_classSelector (h : OneLine t) : OneLine (classSelector t) :=
  oneLine_cons.mpr ⟨rfl, oneLine_escape h⟩

namespace Token

theorem oneLine_decode (h : OneLine t) : OneLine (decode t) := by
  fun_induction decode t with
  | case1 => exact h
  | case2 => exact h
  | case3 t ih =>
    obtain ⟨-, h⟩ := oneLine_cons.mp h
    exact oneLine_cons.mpr ⟨rfl, ih (oneLine_cons.mp h).2⟩
  | case4 c t plain ih =>
    obtain ⟨-, h⟩ := oneLine_cons.mp h
    obtain ⟨hc, ht⟩ := oneLine_cons.mp h
    exact oneLine_cons.mpr ⟨rfl, oneLine_cons.mpr ⟨hc, ih ht⟩⟩
  | case5 c t single escaped ih =>
    obtain ⟨hc, ht⟩ := oneLine_cons.mp h
    refine oneLine_cons.mpr ⟨?_, ih ht⟩
    split
    · rfl
    · exact hc

theorem mem_of_mem_variantSegments {raw segment : Text} (h : segment ∈ variantSegments raw)
    {c : Char} (hc : c ∈ segment) : c ∈ raw := by
  rw [eq_lead_base raw]
  exact List.mem_append_left _ (List.mem_flatMap.mpr ⟨segment, h, List.mem_append_left _ hc⟩)

theorem mem_of_bracketed? {segment inner : Text} (h : bracketed? segment = some inner) {c : Char}
    (hc : c ∈ inner) : c ∈ segment := by
  obtain ⟨rest, hr, hi⟩ := Option.bind_eq_some_iff.mp h
  obtain ⟨reversed, hv, rfl⟩ := Option.map_eq_some_iff.mp hi
  have within : rest.reverse = "]".toList.reverse ++ reversed := after?_eq_some_iff.mp hv
  rw [after?_eq_some_iff.mp hr]
  apply List.mem_append_right
  rw [← List.mem_reverse, within]
  exact List.mem_append_right _ (List.mem_reverse.mp hc)

end Token

namespace Variant

/-- What a width at least or at most makes of a rule. -/
def isQueryOf (w query : Text) : Prop :=
  query = "@media (min-width: ".toList ++ w ++ ")".toList ∨
    query = "@media (width < ".toList ++ w ++ ")".toList

theorem oneLine_or_query {table : Table} {name selector : Text}
    (h : table.selector? name = some selector) :
    OneLine selector ∨ ∃ bp w, table.breakpoint? bp = some w ∧ ¬ OneLine w ∧ isQueryOf w selector := by
  have width {bp w query lead tail : Text} (found : table.breakpoint? bp = some w)
      (hl : OneLine lead) (ht : OneLine tail) (hq : query = lead ++ w ++ tail)
      (asked : isQueryOf w query) :
      OneLine query ∨ ∃ bp w, table.breakpoint? bp = some w ∧ ¬ OneLine w ∧ isQueryOf w query := by
    by_cases hw : OneLine w
    · left
      rw [hq, oneLine_append, oneLine_append]
      exact ⟨⟨hl, hw⟩, ht⟩
    · exact .inr ⟨bp, w, found, hw, asked⟩
  have state {name s : Text} (hs : state? name = some s) : OneLine s := by
    have checked : ∀ e ∈ pseudoNames, OneLine e.2 := by decide
    exact checked _ (Keyed.mem_of_get? (Option.filter_eq_some_iff.mp hs).1)
  simp only [Table.selector?, Option.orElse_eq_or, Option.or_eq_some_iff] at h
  rcases h with fixed | ⟨-, least | ⟨-, most | ⟨-, group | ⟨-, peer⟩⟩⟩⟩
  · have checked : ∀ e ∈ fixedNames, OneLine e.2 := by decide
    exact .inl (checked _ (Keyed.mem_of_get? fixed))
  · obtain ⟨w, hw, rfl⟩ := Option.map_eq_some_iff.mp least
    exact width hw (by decide) (by decide) rfl (.inl rfl)
  · obtain ⟨w, hw, rfl⟩ := Option.map_eq_some_iff.mp most
    obtain ⟨bp, -, hw⟩ := Option.bind_eq_some_iff.mp hw
    exact width hw (by decide) (by decide) rfl (.inr rfl)
  · obtain ⟨s, hs, rfl⟩ := Option.map_eq_some_iff.mp group
    obtain ⟨bp, -, hs⟩ := Option.bind_eq_some_iff.mp hs
    left
    rw [oneLine_append, oneLine_append]
    exact ⟨⟨by decide, state hs⟩, by decide⟩
  · obtain ⟨s, hs, rfl⟩ := Option.map_eq_some_iff.mp peer
    obtain ⟨bp, -, hs⟩ := Option.bind_eq_some_iff.mp hs
    left
    rw [oneLine_append, oneLine_append]
    exact ⟨⟨by decide, state hs⟩, by decide⟩

theorem isMedia_of_query {w query : Text} (h : isQueryOf w query) : (named query).kind = .media := by
  rcases h with rfl | rfl
  · rfl
  · rfl

end Variant

theorem Token.oneLine_or_breakpoint {table : Variant.Table} {raw : Text} {v : Variant}
    (plain : OneLine raw) (h : v ∈ (parse table raw).variants) :
    OneLine v.selector ∨ v.kind = .media ∧ ∃ bp w, table.breakpoint? bp = some w ∧ ¬ OneLine w ∧
      Variant.isQueryOf w v.selector := by
  obtain ⟨segment, hs, hv⟩ := List.mem_filterMap.mp h
  rw [variantOf?] at hv
  split at hv
  · cases hv
  · split at hv
    · rename_i inner hi
      obtain ⟨selector, hd, rfl⟩ := Option.map_eq_some_iff.mp hv
      rw [decode?] at hd
      split at hd
      · cases hd
      · obtain rfl := Option.some.inj hd
        left
        apply oneLine_decode
        exact plain.of_subset fun c hc => mem_of_mem_variantSegments hs (mem_of_bracketed? hi hc)
    · obtain ⟨selector, hr, rfl⟩ := Option.map_eq_some_iff.mp hv
      rcases Variant.oneLine_or_query hr with one | ⟨bp, w, found, broken, query⟩
      · exact .inl one
      · exact .inr ⟨Variant.isMedia_of_query query, bp, w, found, broken, query⟩

namespace Rule

theorem oneLine_wrap : OneLine (wrap s t) ↔ OneLine s ∧ OneLine t := by
  rw [wrap, oneLine_append, oneLine_append, oneLine_append]
  constructor
  · rintro ⟨⟨⟨hs, -⟩, ht⟩, -⟩
    exact ⟨hs, ht⟩
  · rintro ⟨hs, ht⟩
    exact ⟨⟨⟨hs, by decide⟩, ht⟩, by decide⟩

theorem oneLine_nest {heads : List Text} :
    OneLine (nest heads t) ↔ (∀ h ∈ heads, OneLine h) ∧ OneLine t := by
  induction heads with
  | nil => simp [nest]
  | cons head heads ih =>
    show OneLine (wrap head (nest heads t)) ↔ _
    rw [oneLine_wrap, ih, List.forall_mem_cons, and_assoc]

theorem oneLine_text {r : Rule} :
    OneLine r.text ↔ (∀ m, r.media = some m → OneLine m) ∧
      OneLine r.selector ∧ (∀ h ∈ r.nested, OneLine h) ∧ OneLine r.body := by
  rw [text]
  cases hm : r.media with
  | none =>
    rw [oneLine_wrap, oneLine_nest]
    simp
  | some m =>
    rw [oneLine_wrap, oneLine_wrap, oneLine_nest]
    simp

theorem oneLine_substitute {needle new : Text} (hn : OneLine new) (ht : OneLine t) :
    OneLine (substitute needle new t).text := by
  fun_induction substitute needle new t with
  | case1 => exact ht
  | case2 c t none ih =>
    rw [Replaced.text_add, oneLine_append]
    obtain ⟨hc, ht⟩ := oneLine_cons.mp ht
    exact ⟨oneLine_cons.mpr ⟨hc, List.forall_mem_nil _⟩, ih ht⟩
  | case3 c t rest found shorter goesOn ih =>
    rw [after?_eq_some_iff.mp found, oneLine_append] at ht
    rw [Replaced.text_add, oneLine_append]
    exact ⟨ht.1, ih ht.2⟩
  | case4 c t rest found shorter stops ih =>
    rw [after?_eq_some_iff.mp found, oneLine_append] at ht
    rw [Replaced.text_cutAfter, oneLine_append]
    exact ⟨hn, ih ht.2⟩
  | case5 => exact ht

theorem oneLine_markSegment {followed : Bool} (h : OneLine t) :
    OneLine (markSegment t followed) := by
  have parts : OneLine (trimEnd t) ∧ OneLine (blankTail t) := by
    rw [← oneLine_append, trimEnd_append_blankTail]
    exact h
  rw [markSegment]
  split
  · exact h
  · rw [oneLine_append, oneLine_append, oneLine_append]
    refine ⟨⟨⟨parts.1, ?_⟩, ?_⟩, parts.2⟩
    · split <;> decide
    · split <;> decide

theorem oneLine_markImportant (h : OneLine t) : OneLine (markImportant t) := by
  have split (body : Text) : (splitSegment 0 none body).1 ++ (splitSegment 0 none body).2 = body :=
    splitSegment_append 0 none body
  fun_induction markImportant t with
  | case1 body segment hs =>
    have whole := split body
    rw [hs, List.append_nil] at whole
    rw [← whole] at h
    exact oneLine_markSegment h
  | case2 body segment c rest hs ih =>
    have whole := split body
    rw [hs] at whole
    rw [← whole, oneLine_append, oneLine_cons] at h
    rw [oneLine_append, oneLine_cons]
    refine ⟨?_, h.2.1, ih h.2.2⟩
    split
    · exact h.1
    · exact oneLine_markSegment h.1

structure Flat (u : Utility) : Prop where
  body : OneLine u.body
  context : ∀ context, u.context = some context → OneLine context.selector

theorem oneLine_start {token : Token} {u : Utility} (plain : OneLine token.raw) (flat : Flat u) :
    OneLine ((start token u).1 ++ (start token u).2) := by
  have own := oneLine_classSelector plain
  rw [start]
  split
  · rw [List.append_nil]
    exact own
  · rename_i context hc
    split
    · rw [List.append_nil]
      exact own
    · have renamed : OneLine (substitute (classSelector u.className) (classSelector token.raw)
          context.selector).text := oneLine_substitute own (flat.context context hc)
      dsimp only
      rw [Replaced.text] at renamed
      split
      · rename_i head hh
        rw [hh] at renamed
        exact renamed
      · rename_i hh
        rw [hh] at renamed
        rw [List.append_nil]
        exact renamed

structure Draft.Flat (d : Draft) : Prop where
  selector : OneLine d.selector
  tail : OneLine d.tail
  nested : ∀ h ∈ d.nested, OneLine h

theorem Draft.Flat.apply {d : Draft} {v : Variant} (h : d.Flat)
    (one : v.kind ≠ .media → OneLine v.selector) : (d.apply v).Flat := by
  rw [Draft.apply]
  cases hk : v.kind with
  | media => exact ⟨h.selector, h.tail, h.nested⟩
  | pseudo =>
    have own := one (by simp [hk])
    exact ⟨oneLine_append.mpr ⟨h.selector, own⟩, h.tail, h.nested⟩
  | flat =>
    have own := one (by simp [hk])
    exact ⟨oneLine_fill (oneLine_append.mpr ⟨h.selector, h.tail⟩) own, List.forall_mem_nil _,
      h.nested⟩
  | nested =>
    have own := one (by simp [hk])
    obtain ⟨a, z, whole, -, -⟩ := exists_trim v.selector
    rw [whole, oneLine_append, oneLine_append] at own
    refine ⟨h.selector, h.tail, List.forall_mem_append.mpr ⟨h.nested, ?_⟩⟩
    intro head hh
    obtain rfl := List.mem_singleton.mp hh
    exact own.1.2

theorem Draft.Flat.foldl {vs : List Variant} {d : Draft} (h : d.Flat)
    (one : ∀ v ∈ vs, v.kind ≠ .media → OneLine v.selector) : (vs.foldl Draft.apply d).Flat := by
  induction vs generalizing d with
  | nil => exact h
  | cons v vs ih => exact ih (h.apply (one v (by simp))) fun w hw => one w (by simp [hw])

theorem oneLine_compose {table : Variant.Table} {raw : Text} {u : Utility} (plain : OneLine raw)
    (flat : Flat u) :
    OneLine (compose (.parse table raw) u).text ↔
      ∀ m, (Token.parse table raw).wrapper? = some m → OneLine m := by
  have body : OneLine (bodyOf (.parse table raw) u) := by
    rw [bodyOf]
    split
    · exact oneLine_markImportant flat.body
    · exact flat.body
  have started : OneLine (start (.parse table raw) u).1 ∧ OneLine (start (.parse table raw) u).2 :=
    oneLine_append.mp (oneLine_start plain flat)
  have drafted : (draft (.parse table raw) u).Flat := by
    refine Draft.Flat.foldl ⟨started.1, started.2, List.forall_mem_nil _⟩ ?_
    intro v hv other
    rcases Token.oneLine_or_breakpoint plain hv with one | ⟨media, -⟩
    · exact one
    · exact absurd media other
  have finished : OneLine ((draft (.parse table raw) u).finish (bodyOf (.parse table raw) u)).selector :=
    oneLine_append.mpr ⟨drafted.selector, drafted.tail⟩
  rw [oneLine_text, media_compose_eq]
  apply and_iff_left
  rw [compose.eq_def]
  split
  · rename_i context hc
    split
    · exact ⟨flat.context context hc, List.forall_mem_nil _, body⟩
    · exact ⟨finished, drafted.nested, body⟩
  · exact ⟨finished, drafted.nested, body⟩

end Rule

end UtilityLayer
