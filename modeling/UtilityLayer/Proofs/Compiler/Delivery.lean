import UtilityLayer.Proofs.Compiler.Run

/-!
# What a call does to its sink

A call that compiles writes its layer once and sees the critical stylesheet
out; any other call leaves the sink and the recorded layer alone. Whatever else
happens in the meantime is left open, except that nobody else installs a
critical stylesheet.
-/

set_option autoImplicit false

namespace UtilityLayer.Compiler

open Text Layer Cache

/-- A sink that has taken in a layer and has let go of its critical stylesheet. -/
structure Received (before after : Sink) (css : Text) : Prop where
  layer : after.layer = some css
  writes : after.writes = before.writes + 1
  critical : after.critical = none
  history : after.history =
    before.history ++ (before.critical.map (pruneCritical (coverage css))).toList
  frames : after.frames = before.frames + if before.critical.isSome then 2 else 0

/-- What a call answered with `o` makes of a compiler. -/
def Effect (before : Compiler) (o : Outcome) (after : Compiler) : Prop :=
  if o.isCompiled then ∃ css, after.css = some css ∧ Received before.sink after.sink css
  else after.sink = before.sink ∧ after.css = before.css

def handing (s : Sink) (css critical : Text) : Sink :=
  ((s.write css).installCritical (pruneCritical (coverage css) critical)).awaitFrame

/-- How far the pass of a call made to `before` has got. -/
inductive Stage (before : Compiler) (c : Compiler) : Prop
  | fetching (classes : TextSet) (waits : c.waiting = some (.forTheme classes))
      (sink : c.sink = before.sink) (css : c.css = before.css)
  | first (w : Written) (critical : Text) (waits : c.waiting = some (.forFirstFrame w))
      (installed : before.sink.critical = some critical)
      (sink : c.sink = handing before.sink w.css critical)
  | second (w : Written) (critical : Text) (waits : c.waiting = some (.forSecondFrame w))
      (installed : before.sink.critical = some critical)
      (sink : c.sink = (handing before.sink w.css critical).awaitFrame)

variable {before c d : Compiler} {cache cache' : Store} {clock : Duration} {now : UInt64}
variable {o : Outcome}

theorem Stage.waits (h : Stage before c) : c.waiting ≠ none := by
  cases h with
  | fetching classes waits => simp [waits]
  | first w critical waits => simp [waits]
  | second w critical waits => simp [waits]

theorem Stage.congr (h : Stage before c) (waiting : d.waiting = c.waiting)
    (sink : d.sink = c.sink) (css : d.css = c.css) : Stage before d := by
  cases h with
  | fetching classes waits hs hc =>
    exact .fetching classes (waiting.trans waits) (sink.trans hs) (css.trans hc)
  | first w critical waits installed hs =>
    exact .first w critical (waiting.trans waits) installed (sink.trans hs)
  | second w critical waits installed hs =>
    exact .second w critical (waiting.trans waits) installed (sink.trans hs)

theorem received_of_bare {s : Sink} (css : Text) (bare : s.critical = none) :
    Received s (s.write css) css where
  layer := rfl
  writes := rfl
  critical := bare
  history := by simp [Sink.write, bare]
  frames := by simp [Sink.write, bare]

theorem received_of_handing {s : Sink} (css : Text) {critical : Text}
    (installed : s.critical = some critical) (counts : s.countsFrames = true) :
    Received s (handing s css critical).awaitFrame.dropCritical css where
  layer := by
    simp [handing, Sink.write, Sink.installCritical, Sink.awaitFrame, Sink.dropCritical, counts]
  writes := by
    simp [handing, Sink.write, Sink.installCritical, Sink.awaitFrame, Sink.dropCritical, counts]
  critical := rfl
  history := by
    simp [handing, Sink.write, Sink.installCritical, Sink.awaitFrame, Sink.dropCritical, counts,
      installed]
  frames := by
    simp [handing, Sink.write, Sink.installCritical, Sink.awaitFrame, Sink.dropCritical, counts,
      installed]

/-- After a step of its pass a call is answered, with the effect of the answer,
or has got to a further stage. -/
def Advances (before : Compiler) (after : Compiler) : Option Outcome → Prop
  | some o => Effect before o after
  | none => Stage before after

theorem Stage.of_theme {classes : TextSet} (h : Stage before c)
    (waits : c.waiting = some (.forTheme classes)) :
    c.sink = before.sink ∧ c.css = before.css := by
  cases h with
  | fetching _ _ sink css => exact ⟨sink, css⟩
  | first w _ waits' => simp [waits] at waits'
  | second w _ waits' => simp [waits] at waits'

theorem Stage.of_first {w : Written} (h : Stage before c)
    (waits : c.waiting = some (.forFirstFrame w)) :
    ∃ critical, before.sink.critical = some critical ∧
      c.sink = handing before.sink w.css critical := by
  cases h with
  | fetching _ waits' => simp [waits] at waits'
  | first v critical waits' installed sink =>
    obtain rfl : w = v := by simpa [waits] using waits'
    exact ⟨critical, installed, sink⟩
  | second v _ waits' => simp [waits] at waits'

theorem Stage.of_second {w : Written} (h : Stage before c)
    (waits : c.waiting = some (.forSecondFrame w)) :
    ∃ critical, before.sink.critical = some critical ∧
      c.sink = (handing before.sink w.css critical).awaitFrame := by
  cases h with
  | fetching _ waits' => simp [waits] at waits'
  | first v _ waits' => simp [waits] at waits'
  | second v critical waits' installed sink =>
    obtain rfl : w = v := by simpa [waits] using waits'
    exact ⟨critical, installed, sink⟩

theorem Called.advances {a : Option Outcome} (h : Called c clock d a) : Advances c d a := by
  cases h with
  | reentrant => exact ⟨rfl, rfl⟩
  | rateLimited => exact ⟨rfl, rfl⟩
  | unchanged => exact ⟨rfl, rfl⟩
  | firstScan => exact .fetching _ rfl rfl rfl
  | firstAgain => exact .fetching _ rfl rfl rfl
  | later => exact .fetching _ rfl rfl rfl

theorem Delivered.advances {w : Written} {a : Option Outcome} (h : Delivered c w d a)
    (sink : c.sink = before.sink) : Advances before d a := by
  cases h with
  | plain bare =>
    rw [sink] at bare
    refine ⟨w.css, rfl, ?_⟩
    rw [sink]
    exact received_of_bare w.css bare
  | handover critical installed =>
    rw [sink] at installed
    apply Stage.first w critical rfl installed
    rw [sink]
    rfl

theorem Stage.advances {a : Option Outcome} (h : Stage before c)
    (counts : before.sink.countsFrames = true) (hr : Resumed c cache now d cache' a) :
    Advances before d a := by
  cases hr with
  | idle idle => exact absurd idle h.waits
  | themeless classes waits => exact h.of_theme waits
  | hit classes theme entry _ _ waits _ _ after => exact after.advances (h.of_theme waits).1
  | malformed classes theme error waits => exact h.of_theme waits
  | made classes theme index _ _ waits _ _ _ after => exact after.advances (h.of_theme waits).1
  | firstFrame w waits =>
    obtain ⟨critical, installed, sink⟩ := h.of_first waits
    exact .second w critical rfl installed (congrArg Sink.awaitFrame sink)
  | secondFrame w waits =>
    obtain ⟨critical, installed, sink⟩ := h.of_second waits
    refine ⟨w.css, rfl, ?_⟩
    rw [sink]
    exact received_of_handing w.css installed counts

theorem Called.of_busy {a : Option Outcome} (h : Called c clock d a) (busy : c.waiting ≠ none) :
    d = c ∧ a = some (.skipped .reentrant) := by
  cases h with
  | reentrant => exact ⟨rfl, rfl⟩
  | rateLimited idle => exact absurd idle busy
  | unchanged idle => exact absurd idle busy
  | firstScan idle => exact absurd idle busy
  | firstAgain _ idle => exact absurd idle busy
  | later idle => exact absurd idle busy

theorem Stage.move {b : Bench} (cache : Store) {m : Move} (h : Stage before b.compiler)
    (counts : before.sink.countsFrames = true) (alone : ∀ css, m ≠ .setCritical css) :
    Advances before (b.move cache m).1.compiler (b.ending? cache m) := by
  cases m with
  | call clock =>
    have same := ((called b.compiler cache clock).of_busy h.waits).1
    rw [Bench.move, same]
    exact h
  | resume now => exact h.advances counts (resumed b.compiler cache now)
  | observe token => exact h.congr rfl rfl rfl
  | setTheme theme => exact h.congr rfl rfl rfl
  | clearTheme => exact h.congr rfl rfl rfl
  | setCritical css => exact absurd rfl (alone css)

namespace Workshop

theorem untilAnswer_effect {w w' : Workshop} {i : Nat} {b : Bench} {ms : List (Nat × Move)}
    (hb : w.benches[i]? = some b) (h : Stage before b.compiler)
    (counts : before.sink.countsFrames = true) (alone : ∀ css, (i, .setCritical css) ∉ ms)
    (ha : w.untilAnswer i ms = some (w', o)) :
    ∃ b', w'.benches[i]? = some b' ∧ Effect before o b'.compiler := by
  have allowed : ∀ m, (i, m) ∈ ms → ∀ css, m ≠ .setCritical css := by
    rintro m hm css rfl
    exact alone css hm
  refine untilAnswer_ends (fun b => Stage before b.compiler) (fun o b => Effect before o b.compiler)
    (fun m => ∀ css, m ≠ .setCritical css) ?_ ?_ hb h allowed ha
  · intro b cache m hs hm goesOn
    have advances := hs.move cache counts hm
    rwa [goesOn] at advances
  · intro b cache m o hs hm ends
    have advances := hs.move cache counts hm
    rwa [ends] at advances

/-- A call either compiles, and then it writes its layer once and sees the
critical stylesheet out, or leaves the sink and the recorded layer alone. -/
theorem call_all_or_nothing {w w' : Workshop} {i : Nat} {b : Bench} {clock : Duration}
    {meanwhile : List (Nat × Move)} (hb : w.benches[i]? = some b)
    (counts : b.compiler.sink.countsFrames = true)
    (alone : ∀ css, (i, .setCritical css) ∉ meanwhile)
    (answered : w.callWith i clock meanwhile = some (w', o)) :
    ∃ b', w'.benches[i]? = some b' ∧ Effect b.compiler o b'.compiler := by
  have hc := (called b.compiler w.cache clock).advances
  rw [callWith, hb, Option.bind_some] at answered
  cases ho : (b.compiler.call w.cache clock).outcome with
  | none =>
    rw [ho] at hc answered
    exact untilAnswer_effect (bench_move_self hb (.call clock)) hc counts alone answered
  | some a =>
    rw [ho] at hc answered
    obtain ⟨rfl, rfl⟩ : w.move i (.call clock) = w' ∧ a = o := by simpa using answered
    exact ⟨_, bench_move_self hb _, hc⟩

def stockedCache : Store :=
  .memory ((Memory.empty 8 (.ofSeconds 60 0)).put
    ⟨keyOf (.ofList ["z-1"]) (fingerprint ":root \x7b --z-1: 1; \x7d"),
      "@layer utilities \x7b\n.z-1 \x7b z-index: var(--z-1); \x7d\n\x7d", 0,
      fingerprint ":root \x7b --z-1: 1; \x7d"⟩)

def stockedWorkshop : Workshop :=
  ⟨[⟨fresh {} (some ":root \x7b --z-1: 1; \x7d") (.ofList ["z-1"])
      (some ".a \x7b color: red; \x7d"), {}⟩], stockedCache⟩

theorem stocked_call_delivers :
    ∃ (w' : Workshop) (b' : Bench),
      stockedWorkshop.callWith 0 .zero
          [(0, .resume 0), (0, .setTheme []), (0, .call .zero), (0, .resume 0), (0, .resume 0)] =
        some (w', .compiled true) ∧
      w'.benches[0]? = some b' ∧
      Effect (fresh {} (some ":root \x7b --z-1: 1; \x7d") (.ofList ["z-1"])
        (some ".a \x7b color: red; \x7d")) (.compiled true) b'.compiler := by
  obtain ⟨w', answered⟩ : ∃ w', stockedWorkshop.callWith 0 .zero
      [(0, .resume 0), (0, .setTheme []), (0, .call .zero), (0, .resume 0), (0, .resume 0)] =
    some (w', .compiled true) := ⟨_, rfl⟩
  obtain ⟨b', hb', effect⟩ := call_all_or_nothing rfl rfl (by simp) answered
  exact ⟨w', b', answered, hb', effect⟩

end Workshop

end UtilityLayer.Compiler
