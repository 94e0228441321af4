import UtilityLayer.Proofs.Compiler.Delivery
import UtilityLayer.Proofs.Compiler.Supply

/-!
# What the outcomes of calls account for

How often a compiler has fetched its theme, scanned its static classes and
written a layer, and the state it shows between calls, all follow from the
outcomes of its calls. A pass under way has its fetch and its write counted
before it is answered, so the balance is kept with the layer in hand.
-/

set_option autoImplicit false

namespace UtilityLayer.Compiler

open Text Layer Cache

namespace Outcome

/-- The call got as far as to ask for the theme. -/
def fetchesTheme : Outcome → Bool
  | compiled _ | failed _ | skipped .themeUnavailable => true
  | _ => false

/-- Neither a pass under way nor the interval stopped the call. -/
def isAdmitted : Outcome → Bool
  | skipped .reentrant | skipped .rateLimited => false
  | _ => true

/-- The call had a theme to work on, for better or worse. -/
def isThrough : Outcome → Bool
  | compiled _ | failed _ => true
  | _ => false

end Outcome

namespace Record

def outcomes (r : Record) : List Outcome := r.answers.map Prod.snd

def count (r : Record) (kind : Outcome → Bool) : Nat := r.outcomes.countP kind

def has (r : Record) (kind : Outcome → Bool) : Bool := r.outcomes.any kind

variable {r : Record} {q : Request} (kind : Outcome → Bool)

theorem outcomes_fetch (r : Record) (theme : Option Text) :
    (r.fetch theme).outcomes = r.outcomes := by
  rw [outcomes, answers_fetch, outcomes]

theorem count_fetch (theme : Option Text) : (r.fetch theme).count kind = r.count kind := by
  rw [count, outcomes_fetch, count]

theorem has_fetch (theme : Option Text) : (r.fetch theme).has kind = r.has kind := by
  rw [has, outcomes_fetch, has]

theorem answers_afterCall (o : Outcome) :
    (r.afterCall q (some o)).answers = (q, o) :: r.answers := by
  cases o <;> rfl

theorem count_of_answers {s : Record} {o : Outcome} (h : s.answers = (q, o) :: r.answers) :
    s.count kind = r.count kind + if kind o then 1 else 0 := by
  rw [count, outcomes, h, List.map_cons, List.countP_cons, count, outcomes]

theorem has_of_answers {s : Record} {o : Outcome} (h : s.answers = (q, o) :: r.answers) :
    s.has kind = (kind o || r.has kind) := by
  rw [has, outcomes, h, List.map_cons, List.any_cons, has, outcomes]

end Record

/-- How many layers are in the sink without their call being answered. -/
def inHand (c : Compiler) : Nat := if c.delivering?.isSome then 1 else 0

/-- The books of a compiler and the answers to its calls balance. -/
structure Accounted (c : Compiler) (r : Record) : Prop where
  fetches : c.theme.fetches = r.count Outcome.fetchesTheme + c.inHand
  writes : c.sink.writes = r.count Outcome.isCompiled + c.inHand
  scans : c.scanner.scans = if c.scanned.isSome then 1 else 0
  scanned : c.scanned.isSome = (r.has Outcome.isAdmitted || c.waiting.isSome)
  phase : c.phase =
    if r.has Outcome.isThrough then .steady
    else if c.waiting.isSome then .scanning else .uninitialized

variable {c d : Compiler} {r s : Record} {cache cache' : Store} {clock : Duration} {now : UInt64}
variable {a : Option Outcome} {o : Outcome} {q : Request} {w : Written}

theorem inHand_of_idle (h : c.waiting = none) : c.inHand = 0 := by
  rw [inHand, delivering?_of_idle h]
  rfl

theorem inHand_of_theme {classes : TextSet} (h : c.waiting = some (.forTheme classes)) :
    c.inHand = 0 := by
  rw [inHand, delivering?_of_theme h]
  rfl

theorem awaitFrame_writes (s : Sink) : s.awaitFrame.writes = s.writes := by
  rw [Sink.awaitFrame]
  split <;> rfl

namespace Accounted

theorem fresh (config : Config) (theme : Option Text) (classes : TextSet)
    (critical : Option Text) : Accounted (fresh config theme classes critical) {} := by
  constructor <;> rfl

theorem congr (h : Accounted c r) (fetches : d.theme.fetches = c.theme.fetches)
    (writes : d.sink.writes = c.sink.writes) (scanner : d.scanner.scans = c.scanner.scans)
    (scanned : d.scanned = c.scanned) (phase : d.phase = c.phase)
    (waiting : d.waiting = c.waiting) : Accounted d r := by
  have hand : d.inHand = c.inHand := by rw [inHand, inHand, delivering?, delivering?, waiting]
  constructor
  · rw [fetches, hand, h.fetches]
  · rw [writes, hand, h.writes]
  · rw [scanner, scanned, h.scans]
  · rw [scanned, waiting, h.scanned]
  · rw [phase, waiting, h.phase]

theorem through (h : Accounted c r) (idle : c.waiting = none) (later : c.phase ≠ .uninitialized) :
    r.has Outcome.isThrough = true := by
  by_contra hn
  have hp := h.phase
  rw [if_neg hn, idle] at hp
  exact later hp

theorem not_through (h : Accounted c r) (first : c.phase = .uninitialized) :
    r.has Outcome.isThrough = false := by
  rw [Bool.eq_false_iff]
  intro ht
  have hp := h.phase
  rw [if_pos ht, first] at hp
  cases hp

theorem turnedAway (h : Accounted c r) (hs : s.answers = (q, o) :: r.answers)
    (fetch : o.fetchesTheme = false) (layer : o.isCompiled = false)
    (admitted : o.isAdmitted = true → c.scanned.isSome = true) (passed : o.isThrough = false) :
    Accounted c s := by
  constructor
  · rw [Record.count_of_answers _ hs, fetch]
    exact h.fetches
  · rw [Record.count_of_answers _ hs, layer]
    exact h.writes
  · exact h.scans
  · rw [Record.has_of_answers _ hs, Bool.or_assoc, ← h.scanned]
    cases ha : o.isAdmitted with
    | false => rfl
    | true => exact admitted ha
  · rw [Record.has_of_answers _ hs, passed]
    exact h.phase

theorem begun {classes : TextSet} (h : Accounted c r) (idle : c.waiting = none)
    (waits : d.waiting = some (.forTheme classes)) (theme : d.theme = c.theme)
    (sink : d.sink = c.sink) (scans : d.scanner.scans = 1) (scanned : d.scanned.isSome = true)
    (phase : d.phase = if r.has Outcome.isThrough then .steady else .scanning) :
    Accounted d (r.afterCall q none) := by
  have hand : d.inHand = c.inHand := by rw [inHand_of_theme waits, inHand_of_idle idle]
  constructor
  · rw [theme, hand]
    exact h.fetches
  · rw [sink, hand]
    exact h.writes
  · rw [scans, scanned]
    rfl
  · rw [scanned, waits, Option.isSome_some, Bool.or_true]
  · rw [phase, waits]
    rfl

theorem called (h : Accounted c r) (hp : Phased c) (hc : Called c clock d a) :
    Accounted d (r.afterCall ⟨clock, c.requested, none⟩ a) := by
  cases hc with
  | reentrant =>
    exact h.turnedAway (Record.answers_afterCall _) rfl rfl (by simp [Outcome.isAdmitted]) rfl
  | rateLimited =>
    exact h.turnedAway (Record.answers_afterCall _) rfl rfl (by simp [Outcome.isAdmitted]) rfl
  | unchanged idle due later same =>
    have read : c.scanned.isSome = true := by rw [hp.known later]; rfl
    have hu := h.turnedAway (Record.answers_afterCall (q := ⟨clock, c.requested, none⟩) .unchanged)
      rfl rfl (fun _ => read) rfl
    exact hu.congr rfl rfl rfl rfl rfl rfl
  | firstScan idle due first unread =>
    have unscanned : c.scanner.scans = 0 := by
      rw [h.scans, unread]
      rfl
    apply h.begun idle
    · rfl
    · rfl
    · rfl
    · exact congrArg (· + 1) unscanned
    · rfl
    · rw [h.not_through first]
      rfl
  | firstAgain classes idle due first read =>
    have once : c.scanner.scans = 1 := by
      rw [h.scans, read]
      rfl
    apply h.begun idle
    · rfl
    · rfl
    · rfl
    · exact once
    · rfl
    · rw [h.not_through first]
      rfl
  | later idle due later changed =>
    have read : c.scanned.isSome = true := by rw [hp.known later]; rfl
    have once : c.scanner.scans = 1 := by
      rw [h.scans, read]
      rfl
    have through := h.through idle later
    apply h.begun idle
    · rfl
    · rfl
    · rfl
    · exact once
    · exact read
    · rw [through, h.phase, through]
      rfl

theorem fetched (h : Accounted c r) (theme : Option Text) : Accounted c (r.fetch theme) := by
  constructor
  · rw [Record.count_fetch]
    exact h.fetches
  · rw [Record.count_fetch]
    exact h.writes
  · exact h.scans
  · rw [Record.has_fetch]
    exact h.scanned
  · rw [Record.has_fetch]
    exact h.phase

theorem ended (h : Accounted c r) (busy : c.waiting ≠ none) (hs : s.answers = (q, o) :: r.answers)
    (finished : d.waiting = none)
    (fetches : d.theme.fetches = r.count Outcome.fetchesTheme + if o.fetchesTheme then 1 else 0)
    (writes : d.sink.writes = r.count Outcome.isCompiled + if o.isCompiled then 1 else 0)
    (scanner : d.scanner.scans = c.scanner.scans) (scanned : d.scanned = c.scanned)
    (admitted : o.isAdmitted = true)
    (phase : d.phase = if o.isThrough || r.has Outcome.isThrough then .steady else .uninitialized) :
    Accounted d s := by
  have read : c.scanned.isSome = true := by
    rw [h.scanned, Option.isSome_iff_ne_none.mpr busy, Bool.or_true]
  have hand := inHand_of_idle finished
  constructor
  · rw [fetches, hand, Record.count_of_answers _ hs]
    rfl
  · rw [writes, hand, Record.count_of_answers _ hs]
    rfl
  · rw [scanner, scanned, h.scans]
  · rw [scanned, read, Record.has_of_answers _ hs, admitted]
    rfl
  · rw [phase, finished, Record.has_of_answers _ hs]
    rfl

theorem goesOn (h : Accounted c r) (busy : c.waiting ≠ none) (still : d.waiting ≠ none)
    (fetches : d.theme.fetches = r.count Outcome.fetchesTheme + d.inHand)
    (writes : d.sink.writes = r.count Outcome.isCompiled + d.inHand)
    (scanner : d.scanner = c.scanner) (scanned : d.scanned = c.scanned)
    (phase : d.phase = c.phase) : Accounted d r := by
  have waits : d.waiting.isSome = c.waiting.isSome := by
    rw [Option.isSome_iff_ne_none.mpr busy, Option.isSome_iff_ne_none.mpr still]
  constructor
  · exact fetches
  · exact writes
  · rw [scanner, scanned, h.scans]
  · rw [scanned, waits, h.scanned]
  · rw [phase, waits, h.phase]

theorem delivered {classes : TextSet} (h : Accounted c r) (hk : Kept c r)
    (waits : c.waiting = some (.forTheme classes)) {index : Option (Text × Layer.Index)}
    (hd : Delivered { c.withFetch with index } w d a) : Accounted d (r.answer a) := by
  have busy : c.waiting ≠ none := by simp [waits]
  have fetches : c.theme.fetches + 1 = r.count Outcome.fetchesTheme + 1 := by
    rw [h.fetches, inHand_of_theme waits]
  have writes : c.sink.writes + 1 = r.count Outcome.isCompiled + 1 := by
    rw [h.writes, inHand_of_theme waits]
  cases hd with
  | plain =>
    obtain ⟨q, hq, -⟩ := hk.asked _ waits
    rw [Record.answer_some hq]
    exact h.ended busy rfl rfl fetches writes rfl rfl rfl rfl
  | handover critical =>
    apply h.goesOn busy
    · simp
    · exact fetches
    · rw [awaitFrame_writes]
      exact writes
    · rfl
    · rfl
    · rfl

theorem layerless {classes : TextSet} (h : Accounted c r) (hk : Kept c r)
    (waits : c.waiting = some (.forTheme classes)) (fetch : o.fetchesTheme = true)
    (layer : o.isCompiled = false) (admitted : o.isAdmitted = true)
    {phase : Phase} {index : Option (Text × Layer.Index)}
    (hp : phase = if o.isThrough || r.has Outcome.isThrough then .steady else .uninitialized) :
    Accounted { c.withFetch with phase, index, waiting := none } (r.answer (some o)) := by
  have busy : c.waiting ≠ none := by simp [waits]
  have fetches : c.theme.fetches + 1 = r.count Outcome.fetchesTheme + 1 := by
    rw [h.fetches, inHand_of_theme waits]
  have writes : c.sink.writes = r.count Outcome.isCompiled + 0 := by
    rw [h.writes, inHand_of_theme waits]
  obtain ⟨q, hq, -⟩ := hk.asked _ waits
  rw [Record.answer_some hq]
  apply h.ended busy rfl rfl
  · rw [fetch]
    exact fetches
  · rw [layer]
    exact writes
  · rfl
  · rfl
  · exact admitted
  · exact hp

theorem resumed (h : Accounted c r) (hk : Kept c r) (hr : Resumed c cache now d cache' a) :
    Accounted d ((r.fetch c.fetches?).answer a) := by
  have hf := h.fetched c.fetches?
  have hkf := hk.fetched c.fetches?
  cases hr with
  | idle => exact hf
  | themeless classes waits unusable =>
    apply hf.layerless hkf waits rfl rfl rfl
    rw [hf.phase, waits]
    cases (r.fetch c.fetches?).has Outcome.isThrough <;> rfl
  | hit classes theme entry _ _ waits _ _ after => exact hf.delivered hkf waits after
  | malformed classes theme error waits => exact hf.layerless hkf waits rfl rfl rfl rfl
  | made classes theme index _ _ waits _ _ _ after => exact hf.delivered hkf waits after
  | firstFrame w waits =>
    have hand : c.inHand = 1 := by rw [inHand, delivering?, waits]; rfl
    apply hf.goesOn (by simp [waits])
    · simp
    · rw [hf.fetches, hand]
      rfl
    · rw [awaitFrame_writes, hf.writes, hand]
      rfl
    · rfl
    · rfl
    · rfl
  | secondFrame w waits =>
    have hand : c.inHand = 1 := by rw [inHand, delivering?, waits]; rfl
    obtain ⟨q, hq, -⟩ := hkf.asked _ waits
    rw [Record.answer_some hq]
    apply hf.ended (by simp [waits]) rfl rfl
    · rw [hf.fetches, hand]
      rfl
    · exact hf.writes.trans (by rw [hand]; rfl)
    · rfl
    · rfl
    · rfl
    · rfl

theorem state_of_through (h : Accounted c r) (through : r.has Outcome.isThrough = true) :
    c.state ≠ .uninitialized := by
  have steady : c.phase = .steady := by rw [h.phase, if_pos through]
  rw [state, steady]
  split <;> simp

theorem state_of_idle (h : Accounted c r) (idle : c.waiting = none) :
    c.state = if r.has Outcome.isThrough then .steady else .uninitialized := by
  rw [state, h.phase, idle]
  cases r.has Outcome.isThrough <;> rfl

end Accounted

namespace Bench

theorem has_move {b : Bench} {kind : Outcome → Bool} (h : b.record.has kind = true)
    (cache : Store) (m : Move) : (b.move cache m).1.record.has kind = true := by
  cases m with
  | call clock =>
    rw [move]
    cases (b.compiler.call cache clock).outcome with
    | none => exact h
    | some o => rw [Record.has_of_answers kind (Record.answers_afterCall o), h, Bool.or_true]
  | resume now =>
    have hf : (b.record.fetch b.compiler.fetches?).has kind = true := by rw [Record.has_fetch, h]
    rw [move]
    cases (b.compiler.resume cache now).outcome with
    | none => exact hf
    | some o =>
      cases hu : (b.record.fetch b.compiler.fetches?).underway with
      | none => rwa [Record.answer, hu]
      | some q => rw [Record.answer_some hu, Record.has_of_answers kind rfl, hf, Bool.or_true]
  | observe token => exact h
  | setTheme theme => exact h
  | clearTheme => exact h
  | setCritical css => exact h

def Balanced (b : Bench) : Prop := b.Regular ∧ Accounted b.compiler b.record

theorem Balanced.move {b : Bench} (h : b.Balanced) (cache : Store) (m : Move) :
    (b.move cache m).1.Balanced := by
  obtain ⟨hr, ha⟩ := h
  refine ⟨hr.move cache m, ?_⟩
  cases m with
  | call clock => exact ha.called hr.1 (Compiler.called b.compiler cache clock)
  | resume now => exact ha.resumed hr.2 (Compiler.resumed b.compiler cache now)
  | observe token => exact ha.congr rfl rfl rfl rfl rfl rfl
  | setTheme theme => exact ha.congr rfl rfl rfl rfl rfl rfl
  | clearTheme => exact ha.congr rfl rfl rfl rfl rfl rfl
  | setCritical css => exact ha.congr rfl rfl rfl rfl rfl rfl

end Bench

namespace Workshop

theorem bench_run (keeps : Bench → Prop)
    (step : ∀ b cache m, keeps b → keeps (b.move cache m).1)
    {w : Workshop} {i : Nat} {b b' : Bench} {ms : List (Nat × Move)} (hb : w.benches[i]? = some b)
    (h : keeps b) (hb' : (w.run ms).benches[i]? = some b') : keeps b' := by
  induction ms generalizing w b with
  | nil =>
    obtain rfl : b = b' := Option.some.inj (hb.symm.trans hb')
    exact h
  | cons jm ms ih =>
    obtain ⟨j, m⟩ := jm
    by_cases hj : j = i
    · subst hj
      exact ih (bench_move_self hb m) (step b w.cache m h) hb'
    · exact ih ((bench_move_of_ne w hj m).trans hb) h hb'

/-- A compiler from its first call on. Between calls its counters and its state
are those of the outcomes so far, and once it is initialized it stays so. -/
theorem outcomes_account {w : Workshop} {i : Nat} {config : Config} {theme : Option Text}
    {classes : TextSet} {critical : Option Text} {ms : List (Nat × Move)} {b : Bench}
    (setUp : w.benches[i]? = some ⟨fresh config theme classes critical, {}⟩)
    (hb : (w.run ms).benches[i]? = some b) (idle : b.isIdle) :
    b.compiler.theme.fetches = b.record.count Outcome.fetchesTheme ∧
      b.compiler.sink.writes = b.record.count Outcome.isCompiled ∧
      (b.compiler.scanner.scans = if b.record.has Outcome.isAdmitted then 1 else 0) ∧
      (b.compiler.state = if b.record.has Outcome.isThrough then .steady else .uninitialized) ∧
      ∀ further b', ((w.run ms).run further).benches[i]? = some b' →
        b.compiler.state ≠ .uninitialized → b'.compiler.state ≠ .uninitialized := by
  have start : Bench.Balanced ⟨fresh config theme classes critical, {}⟩ :=
    ⟨Bench.Regular.fresh _ _ _ _, Accounted.fresh _ _ _ _⟩
  have step (b : Bench) (cache : Store) (m : Move) (h : b.Balanced) := h.move cache m
  have balanced := bench_run Bench.Balanced step setUp start hb
  have books := balanced.2
  have hand := inHand_of_idle idle
  have state := books.state_of_idle idle
  refine ⟨?_, ?_, ?_, state, ?_⟩
  · rw [books.fetches, hand, Nat.add_zero]
  · rw [books.writes, hand, Nat.add_zero]
  · rw [books.scans, books.scanned, idle, Option.isSome_none, Bool.or_false]
  · intro further b' hb' initialized
    have through : b.record.has Outcome.isThrough = true := by
      by_contra hn
      rw [state, if_neg hn] at initialized
      exact initialized rfl
    have balanced' := bench_run Bench.Balanced step hb balanced hb'
    have through' := bench_run (fun b => b.record.has Outcome.isThrough = true)
      (fun b cache m h => Bench.has_move h cache m) hb through hb'
    exact balanced'.2.state_of_through through'

def outageMoves : List (Nat × Move) :=
  [(0, .clearTheme), (0, .call .zero), (0, .resume 0), (0, .call .zero),
   (0, .setTheme ":root \x7b --z-1: 1; \x7d"), (0, .call (.ofMillis 100)), (0, .call (.ofMillis 100)),
   (0, .resume 0), (0, .resume 0), (0, .resume 0)]

theorem outage_accounts :
    ∃ b, (stockedWorkshop.run outageMoves).benches[0]? = some b ∧ b.isIdle ∧
      b.compiler.theme.fetches = 2 ∧ b.compiler.sink.writes = 1 ∧ b.compiler.scanner.scans = 1 ∧
      b.compiler.state = .steady := by
  have setUp : stockedWorkshop.benches[0]? = some ⟨fresh {} (some ":root \x7b --z-1: 1; \x7d")
    (.ofList ["z-1"]) (some ".a \x7b color: red; \x7d"), {}⟩ := rfl
  obtain ⟨b, hb, idle, outcomes⟩ : ∃ b, (stockedWorkshop.run outageMoves).benches[0]? = some b ∧
      b.isIdle ∧ b.record.outcomes = [.compiled true, .skipped .reentrant,
        .skipped .rateLimited, .skipped .themeUnavailable] := ⟨_, rfl, rfl, rfl⟩
  obtain ⟨fetches, writes, scans, state, -⟩ := outcomes_account setUp hb idle
  rw [Record.count, outcomes] at fetches writes
  rw [Record.has, outcomes] at scans state
  exact ⟨b, hb, idle, fetches, writes, scans, state⟩

end Workshop

end UtilityLayer.Compiler
