import UtilityLayer.Proofs.TextSet
import UtilityLayer.Proofs.Compiler.FirstPass
import UtilityLayer.Proofs.Compiler.Supply
import UtilityLayer.Proofs.Layer.RootTheme

/-!
# One compiler with a cache of its own

The class sets of its passes only grow, so that equal joined lists mean equal
layers. What it keeps, from whatever source, is therefore the layer it would
render afresh.
-/

set_option autoImplicit false

namespace UtilityLayer

namespace Layer.Index

theorem token_empty_not_styled (index : Index) : index.fate (index.token []) ≠ .styled := by
  have hb : (index.token []).baseClass = [] := rfl
  have hu : index.hasUtility (index.token []).baseClass = false := by simp [hasUtility, hb]
  rw [fate, hu]
  split <;> simp

theorem rules_of_empty (index : Index) {classes : TextSet} (h : ∀ t ∈ classes, t = []) :
    index.rules classes = [] := by
  have hs : index.withFate .styled classes = [] := by
    rw [withFate, List.filter_eq_nil_iff]
    intro t ht
    obtain ⟨raw, hr, rfl⟩ := List.mem_map.mp ht
    rw [h raw hr]
    simpa using index.token_empty_not_styled
  simp [rules, hs]

end Layer.Index

namespace Compiler

open Text Layer Cache

variable {c d : Compiler} {r : Record} {cache cache' : Store} {clock : Duration} {now : UInt64}
variable {a : Option Outcome}

theorem render_of_rules {index : Layer.Index} {s t : TextSet} (h : index.rules s = index.rules t)
    (layer : Text) : index.render s layer = index.render t layer := by
  rw [Index.render, Index.render, Index.generate, Index.generate, h]

theorem freshLayer_of_le {s t : TextSet} (h : s ≤ t) (hj : s.joined = t.joined)
    (config : Config) (theme : Text) : freshLayer config theme s = freshLayer config theme t := by
  rcases TextSet.eq_of_joined h hj with rfl | ⟨hs, ht⟩
  · rfl
  · have hs' : ∀ u ∈ s, u = [] := fun u hu => by simp [TextSet.mem_iff, hs] at hu
    have ht' : ∀ u ∈ t, u = [] := fun u hu => by simpa [TextSet.mem_iff, ht] using hu
    rw [freshLayer, freshLayer]
    cases Index.build theme config.colors with
    | error e => rfl
    | ok index =>
      have hr := (index.rules_of_empty hs').trans (index.rules_of_empty ht').symm
      exact congrArg Except.ok (render_of_rules hr config.layer)

/-- The class sets of the passes of a compiler, the latest first, and the bounds
between which they grow. -/
structure Growing (c : Compiler) (r : Record) : Prop where
  first : c.phase ≠ .steady → ∀ s ∈ r.classSets, s = c.scanner.fixed
  bound : ∀ s ∈ r.classSets, s ≤ c.scanner.fixed.union c.scanner.observed
  chain : r.classSets.Pairwise fun later earlier => earlier ≤ later

namespace Growing

theorem fresh (config : Config) (theme : Option Text) (classes : TextSet)
    (critical : Option Text) : Growing (fresh config theme classes critical) {} := by
  constructor <;> simp

theorem congr {r' : Record} (h : Growing c r) (scanner : d.scanner = c.scanner)
    (phase : c.phase = .steady → d.phase = .steady) (sets : r'.classSets = r.classSets) :
    Growing d r' := by
  constructor
  · intro hp
    rw [sets, scanner]
    exact h.first fun hs => hp (phase hs)
  · rw [sets, scanner]
    exact h.bound
  · rw [sets]
    exact h.chain

theorem asked (h : Growing c r) (hp : Phased c) (idle : c.waiting = none) :
    (∀ s ∈ r.classSets, s ≤ c.requested) ∧
      c.requested ≤ c.scanner.fixed.union c.scanner.observed ∧
      (c.phase ≠ .steady → c.requested = c.scanner.fixed) := by
  by_cases first : c.phase = .uninitialized
  · rw [requested_first first]
    refine ⟨?_, TextSet.le_union_left _ _, fun _ => rfl⟩
    intro s hs
    rw [h.first (by simp [first]) s hs]
    exact fun u hu => hu
  · rw [requested, if_neg first]
    refine ⟨h.bound, fun u hu => hu, ?_⟩
    intro hn
    have hs := hp.still idle
    cases hc : c.phase with
    | uninitialized => exact absurd hc first
    | scanning => exact absurd hc hs
    | steady => exact absurd hc hn

theorem asks {r' : Record} (h : Growing c r) (hp : Phased c) (idle : c.waiting = none)
    (fixed : d.scanner.fixed = c.scanner.fixed) (observed : d.scanner.observed = c.scanner.observed)
    (phase : c.phase = .steady → d.phase = .steady)
    (sets : r'.classSets = c.requested :: r.classSets) : Growing d r' := by
  obtain ⟨hl, hb, hf⟩ := h.asked hp idle
  constructor
  · intro hn s hs
    have hc : c.phase ≠ .steady := fun hs => hn (phase hs)
    rw [sets] at hs
    rw [fixed]
    rcases List.mem_cons.mp hs with rfl | hs
    · exact hf hc
    · exact h.first hc s hs
  · intro s hs
    rw [sets] at hs
    rw [fixed, observed]
    rcases List.mem_cons.mp hs with rfl | hs
    · exact hb
    · exact h.bound s hs
  · rw [sets]
    exact List.pairwise_cons.mpr ⟨hl, h.chain⟩

theorem called (h : Growing c r) (hp : Phased c) (hc : Called c clock d a) :
    Growing d (r.afterCall ⟨clock, c.requested, none⟩ a) := by
  cases hc with
  | reentrant => exact h.congr rfl id rfl
  | rateLimited => exact h.congr rfl id rfl
  | unchanged idle => exact h.asks hp idle rfl rfl id rfl
  | firstScan idle due first => exact h.asks hp idle rfl rfl (by simp [first]) rfl
  | firstAgain classes idle due first => exact h.asks hp idle rfl rfl (by simp [first]) rfl
  | later idle => exact h.asks hp idle rfl rfl id rfl

end Growing

theorem Delivered.steady {w : Written} (hd : Delivered c w d a) :
    d.scanner = c.scanner ∧ (c.phase = .steady → d.phase = .steady) := by
  cases hd with
  | plain => exact ⟨rfl, fun _ => rfl⟩
  | handover => exact ⟨rfl, id⟩

theorem Resumed.steady (hr : Resumed c cache now d cache' a) :
    d.scanner = c.scanner ∧ (c.phase = .steady → d.phase = .steady) := by
  cases hr with
  | idle => exact ⟨rfl, id⟩
  | themeless => exact ⟨rfl, fun hs => by simp [hs]⟩
  | hit classes theme entry _ _ _ _ _ after => exact after.steady
  | malformed => exact ⟨rfl, fun _ => rfl⟩
  | made classes theme index _ _ _ _ _ _ after => exact after.steady
  | firstFrame => exact ⟨rfl, id⟩
  | secondFrame => exact ⟨rfl, fun _ => rfl⟩

theorem Record.classSets_answer (r : Record) (a : Option Outcome) :
    (r.answer a).classSets = r.classSets := by
  cases a with
  | none => rfl
  | some o => cases h : r.underway <;> simp [answer, h]

theorem Growing.move {b : Bench} (h : Growing b.compiler b.record) (hb : b.Regular)
    (cache : Store) (m : Move) :
    Growing (b.move cache m).1.compiler (b.move cache m).1.record := by
  cases m with
  | call clock => exact h.called hb.1 (Compiler.called b.compiler cache clock)
  | resume now =>
    obtain ⟨hs, hp⟩ := (Compiler.resumed b.compiler cache now).steady
    apply h.congr hs hp
    exact (Record.classSets_answer _ _).trans (Record.classSets_fetch _ _)
  | observe token =>
    constructor
    · exact h.first
    · intro s hs
      have grown : b.compiler.scanner.observed ≤ b.compiler.scanner.observed.insert token :=
        fun u hu => TextSet.mem_insert.mpr (.inr hu)
      exact TextSet.le_trans (h.bound s hs) (TextSet.union_le_union _ grown)
    · exact h.chain
  | setTheme theme => exact h.congr rfl id rfl
  | clearTheme => exact h.congr rfl id rfl
  | setCritical css => exact h.congr rfl id rfl

theorem Growing.freshLayer_eq (h : Growing c r) {s t : TextSet} (hs : s ∈ r.classSets)
    (ht : t ∈ r.classSets) (hj : s.joined = t.joined) (config : Config) (theme : Text) :
    freshLayer config theme s = freshLayer config theme t := by
  have chained : s ≤ t ∨ t ≤ s := by
    have later : r.classSets.Pairwise fun s t => s ≤ t ∨ t ≤ s := h.chain.imp fun hle => .inr hle
    have earlier := h.chain.imp fun {s t} (hle : t ≤ s) => (.inl hle : t ≤ s ∨ s ≤ t)
    exact later.forall_of_forall_of_flip (fun u _ => .inl fun x hx => hx) earlier hs ht
  rcases chained with hle | hle
  · exact freshLayer_of_le hle hj config theme
  · exact (freshLayer_of_le hle hj.symm config theme).symm

namespace Workshop

theorem growing_run {w : Workshop} {ms : List (Nat × Move)}
    (regular : ∀ b ∈ w.benches, b.Regular)
    (growing : ∀ b ∈ w.benches, Growing b.compiler b.record) :
    ∀ b ∈ (w.run ms).benches, Growing b.compiler b.record := by
  induction ms generalizing w with
  | nil => exact growing
  | cons m ms ih =>
    apply ih
    · intro b hb
      rcases mem_benches_move hb with hb | ⟨a, ha, -, rfl⟩
      · exact regular b hb
      · exact (regular a ha).move _ _
    · intro b hb
      rcases mem_benches_move hb with hb | ⟨a, ha, -, rfl⟩
      · exact growing b hb
      · exact (growing a ha).move (regular a ha) _ _

variable {config : Config} {theme critical : Option Text} {classes : TextSet}

def soloScope (config : Config) (r : Record) : Scope where
  configs := {config}
  themes := {t | t ∈ r.themes}
  classSets := {s | s ∈ r.classSets}

theorem solo_holds {ms : List (Nat × Move)} {b : Bench}
    (hb : ((solo config theme classes critical).run ms).benches = [b])
    (themes : Set.InjOn fingerprint {t | t ∈ b.record.themes}) :
    (soloScope config b.record).Holds ((solo config theme classes critical).run ms) := by
  have start : (soloScope config b.record).Holds (solo config theme classes critical) := by
    constructor
    · exact Scope.stocks_empty _ _
    · intro a ha
      obtain rfl := List.mem_singleton.mp ha
      exact Bench.Regular.fresh _ _ _ _
    · intro a ha
      obtain rfl := List.mem_singleton.mp ha
      exact Scope.Sound.fresh rfl _ _ _
  apply start.run ?_ themes
  intro a ha
  rw [hb] at ha
  obtain rfl := List.mem_singleton.mp ha
  exact ⟨fun _ ht => ht, fun _ hs => hs⟩

/-- One compiler over a cache of its own, after any run. Its sink holds the
layer it has recorded, none before the first is compiled, and once a call is
answered as compiled or unchanged this is the layer of its class set for the
theme of the last compiled call, rendered afresh. -/
theorem solo_layer_is_fresh {ms : List (Nat × Move)} {b : Bench}
    (hb : ((solo config theme classes critical).run ms).benches = [b])
    (themes : Set.InjOn fingerprint {t | t ∈ b.record.themes})
    (lists : Set.InjOn fingerprint {j | ∃ s ∈ b.record.classSets, s.joined = j}) :
    (b.compiler.delivering? = none → b.compiler.sink.layer = b.compiler.css) ∧
      (b.record.lastCompiled = none → b.compiler.css = none) ∧
      ∀ q o rest, b.isIdle → b.record.answers = (q, o) :: rest →
        o = .unchanged ∨ o.isCompiled = true →
        ∃ last text css, b.record.lastCompiled = some last ∧ last.fetched = some text ∧
          freshLayer config text q.classes = .ok css ∧
          b.compiler.css = some css ∧ b.compiler.sink.layer = some css := by
  have hm : b ∈ ((solo config theme classes critical).run ms).benches := by simp [hb]
  have holds := solo_holds hb themes
  have sound := holds.sound b hm
  have kept := (holds.regular b hm).2
  refine ⟨sound.settled, sound.before, ?_⟩
  intro q o rest idle latest ho
  have settled := sound.settled (delivering?_of_idle idle)
  have listed : q.classes ∈ b.record.classSets := by
    apply kept.answered q o ?_ ho.symm
    rw [latest]
    exact List.mem_cons_self
  have alike : ∃ last, b.record.lastCompiled = some last ∧
      last.classes.joined = q.classes.joined := by
    rcases ho with rfl | hc
    · have hu := kept.unchanged q rest latest
      rw [kept.layerClasses, Option.map_eq_some_iff] at hu
      obtain ⟨last, hl, hh⟩ := hu
      exact ⟨last, hl, lists ⟨_, kept.lastCompiled_listed hl, rfl⟩ ⟨_, listed, rfl⟩ hh⟩
    · refine ⟨q, ?_, rfl⟩
      rw [Record.lastCompiled, latest]
      simp [hc]
  obtain ⟨last, hl, hj⟩ := alike
  obtain ⟨css, hcss, text, ht, hf, -, k, hk, s, hs, hsj, hfresh⟩ := sound.after last hl
  obtain rfl : k = config := hk
  have growing : Growing b.compiler b.record := by
    apply growing_run ?_ ?_ b hm
    · intro a ha
      obtain rfl := List.mem_singleton.mp ha
      exact Bench.Regular.fresh _ _ _ _
    · intro a ha
      obtain rfl := List.mem_singleton.mp ha
      exact Growing.fresh _ _ _ _
  have same := growing.freshLayer_eq hs listed (hsj.trans hj) k text
  exact ⟨last, text, css, hl, hf, same ▸ hfresh, hcss, settled.trans hcss⟩

theorem solo_first_layer :
    ∃ b, ((solo {} (some colorTheme) (.ofList ["bg-primary"]) none).run
        [(0, .call .zero), (0, .resume 0)]).benches = [b] ∧
      Set.InjOn fingerprint {t | t ∈ b.record.themes} ∧
      Set.InjOn fingerprint {j | ∃ s ∈ b.record.classSets, s.joined = j} ∧
      ∃ css, freshLayer {} colorTheme (.ofList ["bg-primary"]) = .ok css ∧
        b.compiler.sink.layer = some css := by
  have hb : (solo {} (some colorTheme) (.ofList ["bg-primary"]) none).benches[0]? =
    some (Setup.plain {} colorTheme (.ofList ["bg-primary"])).bench := rfl
  have missing : stored? (solo {} (some colorTheme) (.ofList ["bg-primary"]) none).cache 0
    (.ofList ["bg-primary"]) (fingerprint colorTheme) = none := rfl
  have read : Index.build colorTheme ({} : Config).colors = .ok colorIndex := build_colorTheme
  obtain ⟨b, first, idle, hr⟩ := firstPass_made {} _ (by decide) missing read
  have benches : ((solo {} (some colorTheme) (.ofList ["bg-primary"]) none).run
      [(0, .call .zero), (0, .resume 0)]).benches = [b] := by
    rw [run_firstPass hb 0, first]
    rfl
  have themes : Set.InjOn fingerprint {t | t ∈ b.record.themes} := by
    rw [hr]
    rintro t ht u hu -
    rw [List.mem_singleton.mp ht, List.mem_singleton.mp hu]
  have lists : Set.InjOn fingerprint {j | ∃ s ∈ b.record.classSets, s.joined = j} := by
    rw [hr]
    rintro j ⟨s, hs, rfl⟩ l ⟨t, ht, rfl⟩ -
    rw [List.mem_singleton.mp hs, List.mem_singleton.mp ht]
  have answers : b.record.answers =
      [(⟨.zero, .ofList ["bg-primary"], some colorTheme⟩, .compiled false)] := by rw [hr]; rfl
  obtain ⟨-, -, fresh⟩ := solo_layer_is_fresh benches themes lists
  obtain ⟨last, text, css, hl, hf, made, -, layer⟩ := fresh _ _ _ idle answers (.inr rfl)
  have hlast : b.record.lastCompiled =
    some ⟨.zero, .ofList ["bg-primary"], some colorTheme⟩ := by rw [hr]; rfl
  obtain rfl := Option.some.inj (hlast.symm.trans hl)
  obtain rfl : colorTheme = text := Option.some.inj hf
  exact ⟨b, benches, themes, lists, css, made, layer⟩

end Workshop

end Compiler

end UtilityLayer
