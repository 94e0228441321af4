import UtilityLayer.Proofs.Compiler.FirstPass
import UtilityLayer.Proofs.Compiler.Supply
import UtilityLayer.Proofs.Layer.ReadBack
import UtilityLayer.Proofs.Layer.RootTheme

/-!
# Compilers that share a cache

A cache entry is found by the joined class list and the hash of the theme text,
while a layer depends on its name, on the color targets and on the class set
itself. Sharing is harmless for some configurations, theme texts and class sets
exactly when these agree on every layer that the key cannot tell apart.
-/

set_option autoImplicit false

namespace UtilityLayer.Compiler

open Text Layer Cache

/-- The sink holds what the compiler would render for the call on its own. -/
def Bench.HoldsOwnLayer (b : Bench) (q : Request) : Prop :=
  ∃ theme css, q.fetched = some theme ∧ freshLayer b.compiler.config theme q.classes = .ok css ∧
    b.compiler.sink.layer = some css

namespace Scope

variable {S : Scope}

/-- However the passes of the scope interleave over one cache, every call answered
as compiled has written the layer of its own compiler. -/
def SharesHarmlessly (S : Scope) : Prop :=
  ∀ (setups : List Setup) (capacity : Nat) (ttl : Duration) (ms : List (Nat × Move)),
    (∀ s ∈ setups, s.config ∈ S.configs) →
    S.CoversAll ((Workshop.sharing setups capacity ttl).run ms) →
    ∀ b ∈ ((Workshop.sharing setups capacity ttl).run ms).benches, ∀ q hit rest,
      b.isIdle → b.record.answers = (q, .compiled hit) :: rest → b.HoldsOwnLayer q

/-- Any two compilers of the scope make the same of a theme and of class sets that
are joined alike. -/
def Agrees (S : Scope) : Prop :=
  ∀ k ∈ S.configs, ∀ k' ∈ S.configs, ∀ theme ∈ S.themes, isBlankText theme = false →
    ∀ s ∈ S.classSets, ∀ t ∈ S.classSets, s.joined = t.joined →
      freshLayer k theme s = freshLayer k' theme t

/-- Compilers that differ in nothing a layer depends on agree, if class names keep
the joined lists apart. -/
theorem agrees_of_uniform
    (layer : ∀ k ∈ S.configs, ∀ k' ∈ S.configs, k.layer = k'.layer ∧ k.colors = k'.colors)
    (joined : Set.InjOn TextSet.joined S.classSets) : S.Agrees := by
  intro k hk k' hk' theme _ _ s hs t ht hj
  obtain ⟨hl, hc⟩ := layer k hk k' hk'
  rw [joined hs ht hj, freshLayer, freshLayer, hl, hc]

/-- Compilers that agree on a theme that can be read write to layers of one name. -/
theorem layer_eq_of_agrees (agrees : S.Agrees) {k k' : Config} (hk : k ∈ S.configs)
    (hk' : k' ∈ S.configs) (plain : Css.name? k.layer = some (k.layer, []))
    (plain' : Css.name? k'.layer = some (k'.layer, [])) {theme : Text} (ht : theme ∈ S.themes)
    (nonblank : isBlankText theme = false) {index : Layer.Index}
    (read : Index.build theme k.colors = .ok index) {s : TextSet} (hs : s ∈ S.classSets) :
    k.layer = k'.layer := by
  have same := agrees k hk k' hk' theme ht nonblank s hs s hs rfl
  rw [freshLayer, freshLayer, read] at same
  cases read' : Index.build theme k'.colors with
  | error e => simp [read'] at same
  | ok index' =>
    rw [read'] at same
    have texts : index.render s k.layer = index'.render s k'.layer := Except.ok.inj same
    rw [Index.render_eq, Index.render_eq] at texts
    exact name_unique plain plain' texts

theorem holds_sharing {setups : List Setup} (configs : ∀ s ∈ setups, s.config ∈ S.configs)
    (capacity : Nat) (ttl : Duration) : S.Holds (Workshop.sharing setups capacity ttl) := by
  constructor
  · exact stocks_empty _ _
  · intro b hb
    obtain ⟨s, -, rfl⟩ := List.mem_map.mp hb
    exact Bench.Regular.fresh _ _ _ _
  · intro b hb
    obtain ⟨s, hs, rfl⟩ := List.mem_map.mp hb
    exact Sound.fresh (configs s hs) _ _ _

theorem sharesHarmlessly_of_agrees (distinct : Set.InjOn fingerprint S.themes)
    (agrees : S.Agrees) : S.SharesHarmlessly := by
  intro setups capacity ttl ms configs covers b hb q hit rest idle latest
  have holds := (holds_sharing configs capacity ttl).run covers distinct
  have sound := holds.sound b hb
  have kept := (holds.regular b hb).2
  have last : b.record.lastCompiled = some q := by
    simp [Record.lastCompiled, latest, Outcome.isCompiled]
  have listed : q.classes ∈ S.classSets := (covers b hb).classSets _ (kept.lastCompiled_listed last)
  obtain ⟨css, hcss, theme, ht, hf, hblank, k, hk, alike, ha, hj, made⟩ := sound.after q last
  have own := agrees k hk _ sound.config theme ht hblank alike ha q.classes listed hj
  exact ⟨theme, css, hf, own ▸ made, (sound.settled (delivering?_of_idle idle)).trans hcss⟩

end Scope

theorem build_error {theme : Text} {colors : Utility.Colors} {e : Css.SheetError}
    (h : Index.build theme colors = .error e) (colors' : Utility.Colors) :
    Index.build theme colors' = .error e := by
  rw [Index.build] at h ⊢
  cases hc : Utility.Collection.ofSheet theme with
  | error e' => simpa [hc, Except.map] using h
  | ok custom => simp [hc, Except.map] at h

namespace Scope

variable {S : Scope}

theorem agrees_of_sharesHarmlessly (harmless : S.SharesHarmlessly) : S.Agrees := by
  intro k hk k' hk' theme ht nonblank s hs t hts alike
  cases hb : Index.build theme k.colors with
  | error e => rw [freshLayer, freshLayer, hb, build_error hb k'.colors]
  | ok index =>
    obtain ⟨b, b', benches, hbr, hbr', idle, hcfg, hlayer⟩ :=
      run_firstPasses_sharing k' 1 .zero nonblank hb alike
    have configs : ∀ u ∈ [Setup.plain k theme s, Setup.plain k' theme t], u.config ∈ S.configs := by
      intro u hu
      simp only [List.mem_cons, List.not_mem_nil, or_false] at hu
      rcases hu with rfl | rfl
      · exact hk
      · exact hk'
    have covers : S.CoversAll
        ((Workshop.sharing [.plain k theme s, .plain k' theme t] 1 .zero).run firstPasses) := by
      intro c hc
      simp only [benches, List.mem_cons, List.not_mem_nil, or_false] at hc
      rcases hc with rfl | rfl
      · rw [hbr]
        exact ⟨by simpa [Record.ofFirst] using ht, by simpa [Record.ofFirst] using hs⟩
      · rw [hbr']
        exact ⟨by simpa [Record.ofFirst] using ht, by simpa [Record.ofFirst] using hts⟩
    have hm : b' ∈ ((Workshop.sharing [.plain k theme s, .plain k' theme t] 1 .zero).run
        firstPasses).benches := by
      rw [benches]
      simp
    obtain ⟨theme', css, hf, own, holds⟩ := harmless _ 1 .zero _ configs covers b' hm
      ⟨.zero, t, some theme⟩ true [] idle (by rw [hbr']; rfl)
    obtain rfl : theme = theme' := Option.some.inj hf
    obtain rfl : index.render s k.layer = css := Option.some.inj (hlayer.symm.trans holds)
    have made : freshLayer k theme s = .ok (index.render s k.layer) := by rw [freshLayer, hb]
    rw [made, ← own, hcfg]

/-- Sharing a cache changes no layer exactly when the compilers agree on all layers
that are filed under one key. -/
theorem sharesHarmlessly_iff (distinct : Set.InjOn fingerprint S.themes) :
    S.SharesHarmlessly ↔ S.Agrees :=
  ⟨agrees_of_sharesHarmlessly, sharesHarmlessly_of_agrees distinct⟩

def paced : Scope where
  configs := {{}, { interval := .zero }}
  themes := {colorTheme}
  classSets := {.ofList ["bg-primary"]}

theorem paced_sharesHarmlessly :
    Set.InjOn fingerprint paced.themes ∧ paced.SharesHarmlessly := by
  have distinct : Set.InjOn fingerprint paced.themes := Set.injOn_singleton _ _
  have joined : Set.InjOn TextSet.joined paced.classSets := Set.injOn_singleton _ _
  refine ⟨distinct, (sharesHarmlessly_iff distinct).mpr (agrees_of_uniform ?_ joined)⟩
  rintro k (rfl | rfl) k' (rfl | rfl)
  · exact ⟨rfl, rfl⟩
  · exact ⟨rfl, rfl⟩
  · exact ⟨rfl, rfl⟩
  · exact ⟨rfl, rfl⟩

end Scope

/-- A compiler for the layer `app` finds the layer `utilities` of another one and
writes that. -/
theorem other_name_written :
    ∃ b b', ((Workshop.sharing
        [.plain {} colorTheme (.ofList ["bg-primary"]),
          .plain { layer := "app" } colorTheme (.ofList ["bg-primary"])] 32 (.ofSeconds 60 0)).run
          firstPasses).benches = [b, b'] ∧
      b'.isIdle ∧
      b'.record.answers =
        [(⟨.zero, .ofList ["bg-primary"], some colorTheme⟩, .compiled true)] ∧
      ¬ b'.HoldsOwnLayer ⟨.zero, .ofList ["bg-primary"], some colorTheme⟩ := by
  have read : Index.build colorTheme ({} : Config).colors = .ok colorIndex := build_colorTheme
  obtain ⟨b, b', benches, -, hr, idle, hcfg, hlayer⟩ :=
    run_firstPasses_sharing { layer := "app" } 32 (.ofSeconds 60 0) (by decide) read
      (rfl : (TextSet.ofList ["bg-primary".toList]).joined = _)
  refine ⟨b, b', benches, idle, by rw [hr]; rfl, ?_⟩
  rintro ⟨theme, css, hf, own, holds⟩
  obtain rfl : colorTheme = theme := Option.some.inj hf
  have made : freshLayer { layer := "app" } colorTheme (.ofList ["bg-primary"]) =
      .ok (colorIndex.render (.ofList ["bg-primary"]) "app") := by
    rw [freshLayer, build_colorTheme]
  rw [hcfg, made] at own
  obtain rfl := Except.ok.inj own
  have differ : colorIndex.render (.ofList ["bg-primary"]) "utilities" ≠
      colorIndex.render (.ofList ["bg-primary"]) "app" := by
    decide
  exact differ (Option.some.inj (hlayer.symm.trans holds))

end UtilityLayer.Compiler
