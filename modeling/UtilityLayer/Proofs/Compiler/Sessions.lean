import UtilityLayer.Proofs.Compiler.Calls
import UtilityLayer.Proofs.Compiler.FirstPass
import UtilityLayer.Proofs.Compiler.Record

/-!
# Sessions as workshops

A session makes its calls whole, so that between two commands no pass is under
way. Where all of its compilers use one cache, a command to one of them is a run
of moves, and what a compile call replies is the latest answer on record.
-/

set_option autoImplicit false

namespace UtilityLayer.Compiler

open Text Layer Cache

variable {c d : Compiler} {cache cache' : Store} {clock : Duration} {now : UInt64}
variable {a : Option Outcome} {o : Outcome} {q : Request}

namespace Bench

def Pursues (q : Request) (b : Bench) : Prop :=
  ¬ b.isIdle ∧ ∃ fetched, b.record.underway = some { q with fetched }

def Answered (q : Request) (o : Outcome) (b : Bench) : Prop :=
  b.isIdle ∧ ∃ fetched rest, b.record.answers = ({ q with fetched }, o) :: rest

theorem underway_fetch_with (r : Record) (theme : Option Text)
    (h : ∃ fetched, r.underway = some { q with fetched }) :
    ∃ fetched, (r.fetch theme).underway = some { q with fetched } := by
  obtain ⟨fetched, h⟩ := h
  refine ⟨theme.orElse fun _ => fetched, ?_⟩
  rw [Record.underway_fetch, h]
  rfl

theorem Pursues.goesOn {b : Bench} {m : Move} (h : b.Pursues q)
    (going : b.ending? cache m = none) : (b.move cache m).1.Pursues q := by
  obtain ⟨busy, under⟩ := h
  refine ⟨(Bench.goesOn busy going).1, ?_⟩
  cases m with
  | call clock =>
    have skipped := ((called b.compiler cache clock).of_busy busy).2
    rw [move, skipped]
    exact under
  | resume now =>
    have hn : (b.compiler.resume cache now).outcome = none := going
    rw [move, hn]
    exact underway_fetch_with _ _ under
  | observe token => exact under
  | setTheme theme => exact under
  | clearTheme => exact under
  | setCritical css => exact under

theorem Pursues.ends {b : Bench} {m : Move} (h : b.Pursues q)
    (ending : b.ending? cache m = some o) : (b.move cache m).1.Answered q o := by
  cases m with
  | resume now =>
    have hr := resumed b.compiler cache now
    have ho : (b.compiler.resume cache now).outcome = some o := ending
    obtain ⟨fetched, hu⟩ := underway_fetch_with b.record b.compiler.fetches? h.2
    rw [ho] at hr
    refine ⟨hr.idle_of_answer, fetched, b.record.answers, ?_⟩
    rw [move, ho]
    show ((b.record.fetch b.compiler.fetches?).answer (some o)).answers = _
    rw [Record.answer_some hu, Record.answers_fetch]
  | call clock => simp [ending?] at ending
  | observe token => simp [ending?] at ending
  | setTheme theme => simp [ending?] at ending
  | clearTheme => simp [ending?] at ending
  | setCritical css => simp [ending?] at ending

theorem Answered.of_call {b : Bench} (idle : b.isIdle)
    (ho : (b.compiler.call cache clock).outcome = some o) :
    (b.move cache (.call clock)).1.Answered ⟨clock, b.compiler.requested, none⟩ o := by
  have hc := called b.compiler cache clock
  rw [ho] at hc
  refine ⟨hc.idle_of_answer idle, none, b.record.answers, ?_⟩
  rw [move, ho]
  cases o <;> rfl

theorem Pursues.of_call {b : Bench} (ho : (b.compiler.call cache clock).outcome = none) :
    (b.move cache (.call clock)).1.Pursues ⟨clock, b.compiler.requested, none⟩ := by
  have hc := called b.compiler cache clock
  rw [ho] at hc
  refine ⟨hc.stepsLeft_le.1, none, ?_⟩
  rw [move, ho]
  rfl

end Bench

namespace Workshop

theorem callWith_answered {w w' : Workshop} {i : Nat} {b : Bench} {ms : List (Nat × Move)}
    (hb : w.benches[i]? = some b) (idle : b.isIdle)
    (answered : w.callWith i clock ms = some (w', o)) :
    ∃ b', w'.benches[i]? = some b' ∧ b'.Answered ⟨clock, b.compiler.requested, none⟩ o := by
  have hm := bench_move_self hb (.call clock)
  rw [callWith, hb, Option.bind_some] at answered
  cases ho : (b.compiler.call w.cache clock).outcome with
  | some a =>
    rw [ho] at answered
    obtain ⟨rfl, rfl⟩ : w.move i (.call clock) = w' ∧ a = o := by simpa using answered
    exact ⟨_, hm, .of_call idle ho⟩
  | none =>
    rw [ho] at answered
    exact untilAnswer_ends (·.Pursues _) (fun o b => b.Answered _ o) (fun _ => True)
      (fun _ _ _ h _ => h.goesOn) (fun _ _ _ _ h _ => h.ends) hm (.of_call ho)
      (fun _ _ => trivial) answered

end Workshop

theorem Resumed.memory (h : Resumed c cache now d cache' a) (hm : ∃ m, cache = .memory m) :
    ∃ m, cache' = .memory m := by
  obtain ⟨m, rfl⟩ := hm
  cases h <;> exact ⟨_, rfl⟩

theorem Workshop.run_memory {w : Workshop} (ms : List (Nat × Move))
    (h : ∃ m, w.cache = .memory m) : ∃ m, (w.run ms).cache = .memory m := by
  induction ms generalizing w with
  | nil => exact h
  | cons jm ms ih =>
    obtain ⟨j, m⟩ := jm
    apply ih
    cases hb : w.benches[j]? with
    | none => rwa [Workshop.move, hb]
    | some b =>
      rw [Workshop.move_of_bench hb]
      cases m with
      | call clock =>
        rw [Bench.move, call_cache]
        exact h
      | resume now => exact (resumed b.compiler w.cache now).memory h
      | observe token => exact h
      | setTheme theme => exact h
      | clearTheme => exact h
      | setCritical css => exact h

def Command.isForCompiler : Command → Bool
  | .cachePut _ => false
  | .cacheGet _ => false
  | _ => true

namespace Session

variable {s : Session} {w w' : Workshop} {i : Nat} {st : Station}

/-- All compilers of the session use this cache: it belongs to the only one there
is, or they share it. -/
inductive Uses (s : Session) : Store → Prop
  | own (c : Compiler) (cache : Store) (alone : s.stations = [⟨c, some cache⟩]) : Uses s cache
  | shared (m : Memory) (common : s.shared = some m) (bare : ∀ st ∈ s.stations, st.own = none) :
      Uses s (.memory m)

/-- A session and a workshop in the same state, between two calls. -/
structure Shows (s : Session) (w : Workshop) : Prop where
  compilers : ∀ i : Nat, s.stations[i]?.map Station.compiler = w.benches[i]?.map Bench.compiler
  idle : ∀ b ∈ w.benches, b.isIdle
  cache : s.Uses w.cache

theorem Uses.cacheOf (h : s.Uses cache) (hs : s.station? i = some st) : s.cacheOf st = cache := by
  have hm : st ∈ s.stations := List.mem_of_getElem? hs
  cases h with
  | own c cache alone =>
    rw [alone, List.mem_singleton] at hm
    rw [hm]
    rfl
  | shared m common bare => rw [Session.cacheOf, bare st hm, common]

theorem Uses.congr {s' : Session} (h : s.Uses cache) (stations : s'.stations = s.stations)
    (common : s'.shared = s.shared) : s'.Uses cache := by
  cases h with
  | own c cache alone => exact .own c cache (stations.trans alone)
  | shared m shared bare =>
    apply Uses.shared m (common.trans shared)
    rw [stations]
    exact bare

theorem own_of_mem_setCompiler {c : Compiler} (h : st ∈ (s.setCompiler i c).stations) :
    ∃ st' ∈ s.stations, st.own = st'.own := by
  obtain ⟨j, hj⟩ := List.mem_iff_getElem?.mp h
  rw [setCompiler, List.getElem?_modify, Option.map_eq_map, Option.map_eq_some_iff] at hj
  obtain ⟨st', hst, rfl⟩ := hj
  refine ⟨st', List.mem_of_getElem? hst, ?_⟩
  split <;> rfl

theorem Uses.setCompiler (h : s.Uses cache) (i : Nat) (c : Compiler) :
    (s.setCompiler i c).Uses cache := by
  cases h with
  | own c' cache alone =>
    cases i with
    | zero => exact .own c cache (by simp [Session.setCompiler, alone])
    | succ i => exact .own c' cache (by simp [Session.setCompiler, alone])
  | shared m common bare =>
    have still : (s.setCompiler i c).shared = some m := common
    apply Uses.shared m still
    intro st hst
    obtain ⟨st', hm, he⟩ := own_of_mem_setCompiler hst
    rw [he, bare st' hm]

theorem compilers_setCompiler (s : Session) (i j : Nat) (c : Compiler) :
    (s.setCompiler i c).stations[j]?.map Station.compiler =
      if i = j then s.stations[j]?.map fun _ => c else s.stations[j]?.map Station.compiler := by
  rw [setCompiler, List.getElem?_modify]
  by_cases h : i = j <;> simp [h, Function.comp_def]

theorem Uses.settleAt (h : s.Uses cache) (hs : s.station? i = some st) (c : Compiler)
    (kind : (∃ m, cache = .memory m) → ∃ m, cache' = .memory m) :
    (s.settleAt i c cache').Uses cache' := by
  have hc := h.setCompiler i c
  have hst : (s.setCompiler i c).station? i = some { st with compiler := c } := by
    rw [station?, Session.setCompiler, List.getElem?_modify_eq]
    rw [station?] at hs
    rw [hs]
    rfl
  have hm : ({ st with compiler := c } : Station) ∈ (s.setCompiler i c).stations :=
    List.mem_of_getElem? hst
  cases hc with
  | own c' cache alone =>
    rw [alone, List.mem_singleton] at hm
    have hi : i = 0 := by
      rw [station?, alone] at hst
      cases i with
      | zero => rfl
      | succ i => simp at hst
    subst hi
    rw [hm] at hst
    exact .own c' cache' (by simp [Session.settleAt, hst, alone])
  | shared m common bare =>
    obtain ⟨m', rfl⟩ := kind ⟨m, rfl⟩
    have hn : st.own = none := bare { st with compiler := c } hm
    have he : s.settleAt i c (.memory m') = { s.setCompiler i c with shared := some m' } := by
      simp [Session.settleAt, hst, hn]
    rw [he]
    exact .shared m' rfl bare

theorem compilers_settleAt (s : Session) (i j : Nat) (c : Compiler) (cache : Store) :
    (s.settleAt i c cache).stations[j]?.map Station.compiler =
      if i = j then s.stations[j]?.map fun _ => c else s.stations[j]?.map Station.compiler := by
  rw [← compilers_setCompiler]
  unfold settleAt
  dsimp only
  split
  · rfl
  · rw [List.getElem?_modify]
    by_cases h : i = j <;> simp [h, Function.comp_def]

theorem Shows.bench (h : s.Shows w) (hs : s.station? i = some st) :
    ∃ b, w.benches[i]? = some b ∧ b.compiler = st.compiler ∧ b.isIdle := by
  have hc := h.compilers i
  rw [station?] at hs
  rw [hs, Option.map_some] at hc
  obtain ⟨b, hb, he⟩ := Option.map_eq_some_iff.mp hc.symm
  exact ⟨b, hb, he, h.idle b (List.mem_of_getElem? hb)⟩

theorem Shows.setCompiler (h : s.Shows w) (hs : s.station? i = some st) {c : Compiler} {m : Move}
    (moves : ∀ b : Bench, b.compiler = st.compiler → (b.move w.cache m).1.compiler = c ∧
      (b.move w.cache m).2 = w.cache)
    (idle : c.waiting = none) : (s.setCompiler i c).Shows (w.run [(i, m)]) := by
  obtain ⟨b, hb, he, -⟩ := h.bench hs
  obtain ⟨hc, hcache⟩ := moves b he
  have hw : w.run [(i, m)] = ⟨w.benches.set i (b.move w.cache m).1, w.cache⟩ := by
    rw [Workshop.run, Workshop.run, Workshop.move_of_bench hb, hcache]
  rw [hw]
  constructor
  · intro j
    rw [compilers_setCompiler, List.getElem?_set]
    by_cases hj : i = j
    · subst hj
      have hl : i < w.benches.length := (List.getElem?_eq_some_iff.mp hb).1
      rw [station?] at hs
      simp [hs, hl, hc]
    · simpa [hj] using h.compilers j
  · intro b' hb'
    rcases List.mem_or_eq_of_mem_set hb' with hb' | rfl
    · exact h.idle b' hb'
    · rw [Bench.isIdle, hc]
      exact idle
  · exact h.cache.setCompiler i c

theorem Shows.settleAt {step : Step} {ms : List (Nat × Move)} (h : s.Shows w)
    (hs : s.station? i = some st) (answered : w.callWith i clock ms = some (w', o))
    (becomes : w.Becomes i step w') :
    (s.settleAt i step.compiler step.cache).Shows w' ∧
      ∃ b, w'.benches[i]? = some b ∧ b.compiler = step.compiler ∧
        b.Answered ⟨clock, st.compiler.requested, none⟩ o := by
  obtain ⟨b, hb, he, idle⟩ := h.bench hs
  obtain ⟨hcache, b', benches, hstep⟩ := becomes
  obtain ⟨b'', hb'', ha⟩ := Workshop.callWith_answered hb idle answered
  have hl : i < w.benches.length := (List.getElem?_eq_some_iff.mp hb).1
  obtain rfl : b' = b'' := by
    rw [benches, List.getElem?_set_self hl] at hb''
    exact Option.some.inj hb''
  rw [he] at ha
  refine ⟨?_, b', hb'', hstep, ha⟩
  constructor
  · intro j
    rw [compilers_settleAt, benches, List.getElem?_set]
    by_cases hj : i = j
    · subst hj
      rw [station?] at hs
      simp [hs, hl, hstep]
    · simpa [hj] using h.compilers j
  · intro a hm
    rw [benches] at hm
    rcases List.mem_or_eq_of_mem_set hm with hm | rfl
    · exact h.idle a hm
    · exact ha.1
  · rw [hcache]
    apply h.cache.settleAt hs step.compiler
    intro memory
    obtain ⟨made, -, -, rfl⟩ := Workshop.callWith_run answered
    rw [← hcache]
    exact Workshop.run_memory _ memory

theorem Shows.compile (h : s.Shows w) (hs : s.station? i = some st) :
    ∃ ms o b, (s.step i .compile).2.1 = .compiled (some o) (snapshot b.compiler) ∧
      (s.step i .compile).1.Shows (w.run ms) ∧ (w.run ms).benches[i]? = some b ∧
      b.Answered ⟨s.clock, st.compiler.requested, none⟩ o := by
  obtain ⟨b, hb, he, -⟩ := h.bench hs
  obtain ⟨w', o, answered, outcome, becomes⟩ := Workshop.callWith_compile hb s.clock s.wall
  obtain ⟨shows, b', hb', hc, ha⟩ := h.settleAt hs answered becomes
  obtain ⟨made, -, -, rfl⟩ := Workshop.callWith_run answered
  rw [he] at outcome shows hc
  refine ⟨_, o, b', ?_, ?_, hb', ha⟩
  · simp only [step, hs, h.cache.cacheOf hs, outcome, hc]
  · simp only [step, hs, h.cache.cacheOf hs]
    exact shows

theorem Shows.overlap (h : s.Shows w) (hs : s.station? i = some st) :
    ∃ ms second o b,
      (s.step i .overlap).2.1 = .overlapped second (some o) (snapshot b.compiler) ∧
      (s.step i .overlap).1.Shows (w.run ms) ∧ (w.run ms).benches[i]? = some b ∧
      b.Answered ⟨s.clock, st.compiler.requested, none⟩ o := by
  obtain ⟨b, hb, he, -⟩ := h.bench hs
  obtain ⟨w', o, answered, outcome, becomes⟩ := Workshop.callWith_overlap hb s.clock s.wall
  obtain ⟨shows, b', hb', hc, ha⟩ := h.settleAt hs answered becomes
  obtain ⟨made, -, -, rfl⟩ := Workshop.callWith_run answered
  rw [he] at outcome shows hc
  refine ⟨_, (Compiler.overlap st.compiler w.cache s.clock s.wall).1, o, b', ?_, ?_, hb', ha⟩
  · simp only [step, hs, h.cache.cacheOf hs, outcome, hc]
  · simp only [step, hs, h.cache.cacheOf hs]
    exact shows

theorem Shows.step (h : s.Shows w) (i : Nat) {command : Command}
    (own : command.isForCompiler = true) : ∃ ms, (s.step i command).1.Shows (w.run ms) := by
  cases hs : s.station? i with
  | none =>
    refine ⟨[], ?_⟩
    rw [Session.step, hs]
    exact h
  | some st =>
    obtain ⟨b, hb, he, idle⟩ := h.bench hs
    have waiting : st.compiler.waiting = none := he ▸ idle
    cases command with
    | compile =>
      obtain ⟨ms, -, -, -, shows, -⟩ := h.compile hs
      exact ⟨ms, shows⟩
    | overlap =>
      obtain ⟨ms, -, -, -, -, shows, -⟩ := h.overlap hs
      exact ⟨ms, shows⟩
    | observe token =>
      refine ⟨[(i, .observe token)], ?_⟩
      rw [Session.step, hs]
      exact h.setCompiler hs (fun b hb => ⟨by rw [← hb]; rfl, rfl⟩) waiting
    | setTheme theme =>
      refine ⟨[(i, .setTheme theme)], ?_⟩
      rw [Session.step, hs]
      exact h.setCompiler hs (fun b hb => ⟨by rw [← hb]; rfl, rfl⟩) waiting
    | clearTheme =>
      refine ⟨[(i, .clearTheme)], ?_⟩
      rw [Session.step, hs]
      exact h.setCompiler hs (fun b hb => ⟨by rw [← hb]; rfl, rfl⟩) waiting
    | setCritical css =>
      refine ⟨[(i, .setCritical css)], ?_⟩
      rw [Session.step, hs]
      exact h.setCompiler hs (fun b hb => ⟨by rw [← hb]; rfl, rfl⟩) waiting
    | advance time =>
      refine ⟨[], ?_⟩
      rw [Session.step, hs]
      exact ⟨h.compilers, h.idle, h.cache.congr rfl rfl⟩
    | snapshot =>
      refine ⟨[], ?_⟩
      rw [Session.step, hs]
      exact h
    | layer =>
      refine ⟨[], ?_⟩
      rw [Session.step, hs]
      exact h
    | cachePut entry => simp [Command.isForCompiler] at own
    | cacheGet key => simp [Command.isForCompiler] at own

/-- Every session whose compilers use one cache is a run of moves. -/
theorem Shows.run (h : s.Shows w) {commands : List (Nat × Command)}
    (own : ∀ c ∈ commands, c.2.isForCompiler = true) :
    ∃ ms, (s.run commands).1.Shows (w.run ms) := by
  induction commands generalizing s w with
  | nil => exact ⟨[], h⟩
  | cons c commands ih =>
    obtain ⟨first, shows⟩ := h.step c.1 (own c List.mem_cons_self)
    obtain ⟨rest, all⟩ := ih shows fun c hc => own c (List.mem_cons_of_mem _ hc)
    refine ⟨first ++ rest, ?_⟩
    rw [Workshop.run_append]
    exact all

def solo (wall : UInt64) (config : Config) (theme : Option Text) (classes : TextSet)
    (critical : Option Text) : Session where
  wall := wall
  shared := none
  stations := [⟨fresh config theme classes critical,
    some (.memory (.empty config.capacity config.ttl))⟩]

def sharing (wall : UInt64) (setups : List Setup) (capacity : Nat) (ttl : Duration) : Session where
  wall := wall
  shared := some (.empty capacity ttl)
  stations := setups.map fun s => ⟨s.bench.compiler, none⟩

theorem solo_run (wall : UInt64) (config : Config) (theme : Option Text) (classes : TextSet)
    (critical : Option Text) {commands : List (Nat × Command)}
    (own : ∀ c ∈ commands, c.2.isForCompiler = true) :
    ∃ ms, ((solo wall config theme classes critical).run commands).1.Shows
      ((Workshop.solo config theme classes critical).run ms) := by
  apply Shows.run ?_ own
  constructor
  · intro i
    cases i <;> rfl
  · intro b hb
    rw [List.mem_singleton.mp hb]
    rfl
  · exact .own _ _ rfl

theorem sharing_run (wall : UInt64) (setups : List Setup) (capacity : Nat) (ttl : Duration)
    {commands : List (Nat × Command)} (own : ∀ c ∈ commands, c.2.isForCompiler = true) :
    ∃ ms, ((sharing wall setups capacity ttl).run commands).1.Shows
      ((Workshop.sharing setups capacity ttl).run ms) := by
  apply Shows.run ?_ own
  constructor
  · intro i
    simp [sharing, Workshop.sharing, Function.comp_def]
  · intro b hb
    obtain ⟨s, -, rfl⟩ := List.mem_map.mp hb
    rfl
  · apply Uses.shared _ rfl
    intro st hst
    obtain ⟨s, -, rfl⟩ := List.mem_map.mp hst
    rfl

end Session

end UtilityLayer.Compiler
