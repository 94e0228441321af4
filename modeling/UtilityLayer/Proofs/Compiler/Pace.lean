import UtilityLayer.Proofs.Compiler.Accounts

/-!
# How far apart passes start

A call is let through when no pass is under way and the last one started long
enough ago. What a compiler keeps for this is always the time of the latest call
that was let through, whatever became of it. The times of calls are arbitrary,
and so is what happens between them.
-/

set_option autoImplicit false

namespace UtilityLayer.Compiler

open Text Layer Cache

variable {c d : Compiler} {r : Record} {cache cache' : Store} {clock : Duration} {now : UInt64}
variable {a : Option Outcome} {o : Outcome} {q : Request} {w : Written} {interval : Duration}

def letsThrough (a : Option Outcome) : Bool := a.all Outcome.isAdmitted

theorem letsThrough_eq_false_iff (a : Option Outcome) :
    letsThrough a = false ↔
      a = some (.skipped .reentrant) ∨ a = some (.skipped .rateLimited) := by
  rcases a with _ | (hit | _ | (_ | _ | _) | error) <;> simp [letsThrough, Outcome.isAdmitted]

namespace Record

/-- The times of the calls that were let through, the latest first. -/
def starts (r : Record) : List Duration :=
  (r.underway.map Request.clock).toList ++
    (r.answers.filter fun a => a.2.isAdmitted).map fun a => a.1.clock

theorem starts_fetch (r : Record) (theme : Option Text) : (r.fetch theme).starts = r.starts := by
  rw [starts, underway_fetch, answers_fetch, Option.map_map]
  rfl

theorem starts_afterCall (free : letsThrough a = true → r.underway = none) :
    (r.afterCall q a).starts = if letsThrough a then q.clock :: r.starts else r.starts := by
  cases a with
  | none => simp [starts, afterCall, letsThrough, free rfl]
  | some o =>
    have under : (r.afterCall q (some o)).underway = r.underway := by cases o <;> rfl
    rw [starts, under, answers_afterCall]
    cases ho : o.isAdmitted with
    | false => simp [letsThrough, ho, starts]
    | true => simp [letsThrough, ho, starts, free ho]

theorem starts_answer (admitted : o.isAdmitted = true) :
    (r.answer (some o)).starts = r.starts := by
  cases hu : r.underway with
  | none => rw [answer, hu]
  | some q =>
    rw [answer_some hu]
    simp [starts, admitted, hu]

end Record

def Clear (interval later earlier : Duration) : Prop :=
  interval.nanos ≤ (earlier.since later).nanos

theorem Clear.trans {s t u : Duration} (h : Clear interval s t) (h' : Clear interval t u) :
    Clear interval s u := by
  simp only [Clear, Duration.since] at h h' ⊢
  omega

theorem clear_iff (interval later earlier : Duration) :
    Clear interval later earlier ↔ (earlier.since later).lt interval = false := by
  simp [Clear, Duration.lt]

theorem tooSoon_iff (c : Compiler) (clock : Duration) :
    c.tooSoon clock = true ↔ ∃ last, c.started = some last ∧ ¬ Clear c.config.interval clock last := by
  cases hs : c.started with
  | none => simp [tooSoon, hs]
  | some last => simp [tooSoon, hs, clear_iff]

theorem Called.started (h : Called c clock d a) :
    d.started = if letsThrough a then some clock else c.started := by
  cases h <;> rfl

theorem Called.config (h : Called c clock d a) : d.config = c.config := by
  cases h <;> rfl

theorem Called.due (h : Called c clock d a) (through : letsThrough a = true) :
    c.waiting = none ∧ c.tooSoon clock = false := by
  cases h with
  | reentrant => cases through
  | rateLimited => cases through
  | unchanged idle due => exact ⟨idle, due⟩
  | firstScan idle due => exact ⟨idle, due⟩
  | firstAgain _ idle due => exact ⟨idle, due⟩
  | later idle due => exact ⟨idle, due⟩

theorem Called.rateLimited_iff (h : Called c clock d a) (idle : c.waiting = none) :
    a = some (.skipped .rateLimited) ↔ c.tooSoon clock = true := by
  cases h with
  | reentrant busy => exact absurd idle busy
  | rateLimited _ soon => simp [soon]
  | unchanged _ due => simp [due]
  | firstScan _ due => simp [due]
  | firstAgain _ _ due => simp [due]
  | later _ due => simp [due]

theorem Delivered.pace (h : Delivered c w d a) :
    d.started = c.started ∧ d.config = c.config ∧ letsThrough a = true := by
  cases h <;> exact ⟨rfl, rfl, rfl⟩

theorem Resumed.pace (h : Resumed c cache now d cache' a) :
    d.started = c.started ∧ d.config = c.config ∧ letsThrough a = true := by
  cases h with
  | hit classes theme entry _ _ _ _ _ after => exact after.pace
  | made classes theme index _ _ _ _ _ _ after => exact after.pace
  | idle => exact ⟨rfl, rfl, rfl⟩
  | themeless => exact ⟨rfl, rfl, rfl⟩
  | malformed => exact ⟨rfl, rfl, rfl⟩
  | firstFrame => exact ⟨rfl, rfl, rfl⟩
  | secondFrame => exact ⟨rfl, rfl, rfl⟩

/-- The window of a compiler opens at the latest start on record, and the starts
keep the interval. -/
structure Paced (interval : Duration) (c : Compiler) (r : Record) : Prop where
  setting : c.config.interval = interval
  window : c.started = r.starts.head?
  apart : r.starts.Pairwise (Clear interval)

namespace Paced

theorem fresh (config : Config) (theme : Option Text) (classes : TextSet)
    (critical : Option Text) : Paced config.interval (fresh config theme classes critical) {} where
  setting := rfl
  window := rfl
  apart := List.Pairwise.nil

theorem congr (h : Paced interval c r) (config : d.config = c.config)
    (started : d.started = c.started) : Paced interval d r where
  setting := config ▸ h.setting
  window := started.trans h.window
  apart := h.apart

theorem clear_of_due (h : Paced interval c r) (due : c.tooSoon clock = false) :
    ∀ start ∈ r.starts, Clear interval clock start := by
  have clear : ∀ last, r.starts.head? = some last → Clear interval clock last := by
    intro last hl
    by_contra hn
    have soon := (tooSoon_iff c clock).mpr ⟨last, h.window.trans hl, by rwa [h.setting]⟩
    rw [due] at soon
    cases soon
  have apart := h.apart
  cases hs : r.starts with
  | nil => simp
  | cons last earlier =>
    rw [hs] at clear apart
    have latest := clear last rfl
    intro start hm
    rcases List.mem_cons.mp hm with rfl | hm
    · exact latest
    · exact latest.trans (List.rel_of_pairwise_cons apart hm)

theorem called (h : Paced interval c r) (hk : Kept c r) (hc : Called c clock d a)
    (time : q.clock = clock) : Paced interval d (r.afterCall q a) := by
  have starts := Record.starts_afterCall (q := q) fun through => hk.free (hc.due through).1
  rw [time] at starts
  constructor
  · rw [hc.config, h.setting]
  · rw [hc.started, starts, h.window]
    split <;> rfl
  · rw [starts]
    split
    · rename_i through
      exact List.Pairwise.cons (h.clear_of_due (hc.due through).2) h.apart
    · exact h.apart

theorem resumed (h : Paced interval c r) (hr : Resumed c cache now d cache' a) (theme : Option Text) :
    Paced interval d ((r.fetch theme).answer a) := by
  obtain ⟨started, config, through⟩ := hr.pace
  have starts : ((r.fetch theme).answer a).starts = r.starts := by
    rw [← Record.starts_fetch r theme]
    cases a with
    | none => rfl
    | some o => exact Record.starts_answer through
  constructor
  · rw [config, h.setting]
  · rw [started, starts, h.window]
  · rw [starts]
    exact h.apart

end Paced

namespace Bench

def Measured (interval : Duration) (b : Bench) : Prop :=
  b.Regular ∧ Paced interval b.compiler b.record

theorem Measured.move {b : Bench} (h : b.Measured interval) (cache : Store) (m : Move) :
    (b.move cache m).1.Measured interval := by
  obtain ⟨hr, hp⟩ := h
  refine ⟨hr.move cache m, ?_⟩
  cases m with
  | call clock => exact hp.called hr.2 (Compiler.called b.compiler cache clock) rfl
  | resume now => exact hp.resumed (Compiler.resumed b.compiler cache now) _
  | observe token => exact hp.congr rfl rfl
  | setTheme theme => exact hp.congr rfl rfl
  | clearTheme => exact hp.congr rfl rfl
  | setCritical css => exact hp.congr rfl rfl

end Bench

namespace Workshop

/-- Any two calls of a compiler that are let through are an interval apart. Between
passes the interval stops a call exactly when it comes too soon after the latest
of them, and a call that is stopped counts for nothing. -/
theorem passes_keep_interval {w : Workshop} {i : Nat} {config : Config} {theme : Option Text}
    {classes : TextSet} {critical : Option Text} {ms : List (Nat × Move)} {b : Bench}
    (setUp : w.benches[i]? = some ⟨fresh config theme classes critical, {}⟩)
    (hb : (w.run ms).benches[i]? = some b) :
    b.record.starts.Pairwise
        (fun later earlier => config.interval.nanos ≤ (earlier.since later).nanos) ∧
      b.compiler.started = b.record.starts.head? ∧
      ∀ cache clock,
        (b.isIdle → ((b.compiler.call cache clock).outcome = some (.skipped .rateLimited) ↔
          ∃ last, b.record.starts.head? = some last ∧
            (last.since clock).nanos < config.interval.nanos)) ∧
        (b.move cache (.call clock)).1.compiler.started =
          if (b.compiler.call cache clock).outcome = some (.skipped .reentrant) ∨
              (b.compiler.call cache clock).outcome = some (.skipped .rateLimited)
            then b.compiler.started else some clock := by
  have start : Bench.Measured config.interval ⟨fresh config theme classes critical, {}⟩ :=
    ⟨Bench.Regular.fresh _ _ _ _, Paced.fresh _ _ _ _⟩
  have step (b : Bench) (cache : Store) (m : Move) (h : b.Measured config.interval) :=
    h.move cache m
  obtain ⟨-, paced⟩ := bench_run (Bench.Measured config.interval) step setUp start hb
  refine ⟨paced.apart, paced.window, fun cache clock => ⟨fun idle => ?_, ?_⟩⟩
  · have hc := called b.compiler cache clock
    rw [hc.rateLimited_iff idle, tooSoon_iff, paced.window, paced.setting]
    simp [Clear]
  · have hc := (called b.compiler cache clock).started
    rw [Bench.move, hc]
    simp only [← letsThrough_eq_false_iff]
    cases letsThrough (b.compiler.call cache clock).outcome <;> rfl

def pacedMoves : List (Nat × Move) :=
  [(0, .clearTheme), (0, .call .zero), (0, .resume 0), (0, .call (.ofMillis 99)),
   (0, .setTheme ":root \x7b --z-1: 1; \x7d"), (0, .call (.ofMillis 100)), (0, .resume 0),
   (0, .call (.ofMillis 150)), (0, .resume 0), (0, .resume 0), (0, .call (.ofMillis 199)),
   (0, .call (.ofMillis 200))]

theorem paced_moves_start_apart :
    ∃ b, (stockedWorkshop.run pacedMoves).benches[0]? = some b ∧ b.isIdle ∧
      b.record.starts = [.ofMillis 200, .ofMillis 100, .zero] ∧
      (∀ cache, (b.compiler.call cache (.ofMillis 299)).outcome = some (.skipped .rateLimited)) ∧
      ∀ cache, (b.compiler.call cache (.ofMillis 300)).outcome ≠ some (.skipped .rateLimited) := by
  have setUp : stockedWorkshop.benches[0]? = some ⟨fresh {} (some ":root \x7b --z-1: 1; \x7d")
    (.ofList ["z-1"]) (some ".a \x7b color: red; \x7d"), {}⟩ := rfl
  obtain ⟨b, hb, idle, starts⟩ : ∃ b, (stockedWorkshop.run pacedMoves).benches[0]? = some b ∧
      b.isIdle ∧ b.record.starts = [.ofMillis 200, .ofMillis 100, .zero] :=
    ⟨_, rfl, rfl, rfl⟩
  obtain ⟨-, -, calls⟩ := passes_keep_interval setUp hb
  rw [starts] at calls
  refine ⟨b, hb, idle, starts, fun cache => ?_, fun cache => ?_⟩
  · exact ((calls cache _).1 idle).mpr ⟨_, rfl, by decide⟩
  · rw [ne_eq, (calls cache _).1 idle]
    rintro ⟨last, hl, soon⟩
    obtain rfl := Option.some.inj hl
    exact absurd soon (by decide)

end Workshop

end UtilityLayer.Compiler
