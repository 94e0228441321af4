import UtilityLayer.Proofs.Compiler.Pass

/-!
# Compilers at work

A bench is a compiler with a record of the calls made to it, and a workshop is
any number of benches over one store. A call and every later step of its pass
are moves of their own, so that anything may happen in between: calls to the
same compiler, passes of the others, changes to a theme, a scanner or a
critical stylesheet. The times that moves carry are arbitrary.
-/

set_option autoImplicit false

namespace UtilityLayer.Compiler

open Text Layer Cache

inductive Move where
  | call (clock : Duration)
  | resume (now : UInt64)
  | observe (token : Text)
  | setTheme (theme : Text)
  | clearTheme
  | setCritical (css : Text)
  deriving DecidableEq

/-- A compile call with the class set it is about and the theme text it has
fetched, if any. -/
structure Request where
  clock : Duration
  classes : TextSet
  fetched : Option Text := none
  deriving DecidableEq

/-- The call under way, the answered calls, and the class sets and theme texts
of all passes, the latest first. -/
structure Record where
  underway : Option Request := none
  answers : List (Request × Outcome) := []
  classSets : List TextSet := []
  themes : List Text := []

namespace Record

def afterCall (r : Record) (q : Request) : Option Outcome → Record
  | none => { r with underway := some q, classSets := q.classes :: r.classSets }
  | some .unchanged =>
    { r with answers := (q, .unchanged) :: r.answers, classSets := q.classes :: r.classSets }
  | some o => { r with answers := (q, o) :: r.answers }

def fetch (r : Record) : Option Text → Record
  | none => r
  | some theme =>
    { r with
      underway := r.underway.map fun q => { q with fetched := some theme }
      themes := theme :: r.themes }

def answer (r : Record) : Option Outcome → Record
  | none => r
  | some o =>
    match r.underway with
    | none => r
    | some q => { r with underway := none, answers := (q, o) :: r.answers }

/-- The latest call that wrote a layer. -/
def lastCompiled (r : Record) : Option Request :=
  (r.answers.find? fun a => a.2.isCompiled).map Prod.fst

end Record

/-- The class set of a call made now: the static classes before the first pass
is through, and after it those with the classes observed so far. -/
def requested (c : Compiler) : TextSet :=
  if c.phase = .uninitialized then c.scanner.fixed else c.scanner.fixed.union c.scanner.observed

/-- The theme text that the next step of the pass fetches. -/
def fetches? (c : Compiler) : Option Text :=
  match c.waiting with
  | some (.forTheme _) => usable c.theme.text
  | _ => none

def fresh (config : Config) (theme : Option Text) (classes : TextSet) (critical : Option Text) :
    Compiler where
  config := config
  theme := { text := theme }
  scanner := { fixed := classes }
  sink := { critical := critical }

structure Bench where
  compiler : Compiler
  record : Record := {}

namespace Bench

def isIdle (b : Bench) : Prop := b.compiler.waiting = none

def withCompiler (b : Bench) (c : Compiler) : Bench := { b with compiler := c }

def move (b : Bench) (cache : Store) : Move → Bench × Store
  | .call clock =>
    let s := b.compiler.call cache clock
    (⟨s.compiler, b.record.afterCall ⟨clock, b.compiler.requested, none⟩ s.outcome⟩, s.cache)
  | .resume now =>
    let s := b.compiler.resume cache now
    (⟨s.compiler, (b.record.fetch b.compiler.fetches?).answer s.outcome⟩, s.cache)
  | .observe token =>
    (b.withCompiler { b.compiler with scanner := b.compiler.scanner.observe token }, cache)
  | .setTheme theme =>
    (b.withCompiler { b.compiler with theme := { b.compiler.theme with text := some theme } },
      cache)
  | .clearTheme =>
    (b.withCompiler { b.compiler with theme := { b.compiler.theme with text := none } }, cache)
  | .setCritical css =>
    (b.withCompiler { b.compiler with sink := b.compiler.sink.installCritical css }, cache)

/-- The answer to the call under way, if the move ends its pass. -/
def ending? (b : Bench) (cache : Store) : Move → Option Outcome
  | .resume now => (b.compiler.resume cache now).outcome
  | _ => none

end Bench

structure Workshop where
  benches : List Bench
  cache : Store

namespace Workshop

def solo (config : Config) (theme : Option Text) (classes : TextSet) (critical : Option Text) :
    Workshop :=
  ⟨[⟨fresh config theme classes critical, {}⟩], .memory (.empty config.capacity config.ttl)⟩

def move (w : Workshop) (i : Nat) (m : Move) : Workshop :=
  match w.benches[i]? with
  | none => w
  | some b => ⟨w.benches.set i (b.move w.cache m).1, (b.move w.cache m).2⟩

def run (w : Workshop) : List (Nat × Move) → Workshop
  | [] => w
  | (i, m) :: ms => (w.move i m).run ms

theorem run_append (w : Workshop) (ms ns : List (Nat × Move)) :
    w.run (ms ++ ns) = (w.run ms).run ns := by
  induction ms generalizing w with
  | nil => rfl
  | cons m ms ih => exact ih _

/-- The workshop when the pass of bench `i` ends, and the answer it ends with, if
it does so in the course of these moves. -/
def untilAnswer (w : Workshop) (i : Nat) : List (Nat × Move) → Option (Workshop × Outcome)
  | [] => none
  | (j, m) :: ms =>
    match if j = i then w.benches[i]?.bind fun b => b.ending? w.cache m else none with
    | some o => some (w.move j m, o)
    | none => (w.move j m).untilAnswer i ms

/-- A call to the compiler of bench `i`, with what else happens until it is
answered. -/
def callWith (w : Workshop) (i : Nat) (clock : Duration) (meanwhile : List (Nat × Move)) :
    Option (Workshop × Outcome) :=
  match w.benches[i]?.bind fun b => (b.compiler.call w.cache clock).outcome with
  | some o => some (w.move i (.call clock), o)
  | none => (w.move i (.call clock)).untilAnswer i meanwhile

theorem move_of_bench {w : Workshop} {i : Nat} {b : Bench} (h : w.benches[i]? = some b)
    (m : Move) : w.move i m = ⟨w.benches.set i (b.move w.cache m).1, (b.move w.cache m).2⟩ := by
  rw [move, h]

theorem bench_move_self {w : Workshop} {i : Nat} {b : Bench} (h : w.benches[i]? = some b)
    (m : Move) : (w.move i m).benches[i]? = some (b.move w.cache m).1 := by
  rw [move_of_bench h]
  exact List.getElem?_set_self (List.getElem?_eq_some_iff.mp h).1

theorem bench_move_of_ne (w : Workshop) {i j : Nat} (h : j ≠ i) (m : Move) :
    (w.move j m).benches[i]? = w.benches[i]? := by
  rw [move]
  split
  · rfl
  · exact List.getElem?_set_ne h

theorem mem_benches_move {w : Workshop} {i : Nat} {m : Move} {b : Bench}
    (h : b ∈ (w.move i m).benches) :
    b ∈ w.benches ∨ ∃ a ∈ w.benches, w.benches[i]? = some a ∧ b = (a.move w.cache m).1 := by
  rw [move] at h
  split at h
  · exact .inl h
  · rename_i a ha
    rcases List.mem_or_eq_of_mem_set h with hb | rfl
    · exact .inl hb
    · exact .inr ⟨a, List.mem_of_getElem? ha, ha, rfl⟩

/-- What a pass keeps up while it goes on, and what each of its answers leaves
behind, it does so in the midst of anything else. -/
theorem untilAnswer_ends (going : Bench → Prop) (ended : Outcome → Bench → Prop)
    (allowed : Move → Prop)
    (goesOn : ∀ b cache m, going b → allowed m → b.ending? cache m = none →
      going (b.move cache m).1)
    (ends : ∀ b cache m o, going b → allowed m → b.ending? cache m = some o →
      ended o (b.move cache m).1)
    {w w' : Workshop} {i : Nat} {b : Bench} {ms : List (Nat × Move)} {o : Outcome}
    (hb : w.benches[i]? = some b) (h : going b) (own : ∀ m, (i, m) ∈ ms → allowed m)
    (answered : w.untilAnswer i ms = some (w', o)) :
    ∃ b', w'.benches[i]? = some b' ∧ ended o b' := by
  induction ms generalizing w b with
  | nil => simp [untilAnswer] at answered
  | cons jm ms ih =>
    obtain ⟨j, m⟩ := jm
    have rest : ∀ m, (i, m) ∈ ms → allowed m := fun m hm => own m (List.mem_cons_of_mem _ hm)
    rw [untilAnswer] at answered
    by_cases hj : j = i
    · subst hj
      have hm : allowed m := own m List.mem_cons_self
      simp only [if_true, hb, Option.bind_some] at answered
      cases he : b.ending? w.cache m with
      | none =>
        rw [he] at answered
        exact ih (bench_move_self hb m) (goesOn b w.cache m h hm he) rest answered
      | some a =>
        rw [he] at answered
        obtain ⟨rfl, rfl⟩ : w.move j m = w' ∧ a = o := by simpa using answered
        exact ⟨_, bench_move_self hb m, ends b w.cache m a h hm he⟩
    · simp only [hj, if_false] at answered
      exact ih ((bench_move_of_ne w hj m).trans hb) h rest answered

theorem untilAnswer_run {w w' : Workshop} {i : Nat} {ms : List (Nat × Move)} {o : Outcome}
    (answered : w.untilAnswer i ms = some (w', o)) :
    ∃ made rest, ms = made ++ rest ∧ w' = w.run made := by
  induction ms generalizing w with
  | nil => simp [untilAnswer] at answered
  | cons jm ms ih =>
    obtain ⟨j, m⟩ := jm
    rw [untilAnswer] at answered
    split at answered
    · obtain ⟨rfl, -⟩ := Prod.mk.inj (Option.some.inj answered)
      exact ⟨[(j, m)], ms, rfl, rfl⟩
    · obtain ⟨made, rest, rfl, rfl⟩ := ih answered
      exact ⟨(j, m) :: made, rest, rfl, rfl⟩

theorem callWith_run {w w' : Workshop} {i : Nat} {clock : Duration} {ms : List (Nat × Move)}
    {o : Outcome} (answered : w.callWith i clock ms = some (w', o)) :
    ∃ made rest, ms = made ++ rest ∧ w' = w.run ((i, .call clock) :: made) := by
  rw [callWith] at answered
  split at answered
  · obtain ⟨rfl, -⟩ := Prod.mk.inj (Option.some.inj answered)
    exact ⟨[], ms, rfl, rfl⟩
  · exact untilAnswer_run answered

end Workshop

end UtilityLayer.Compiler
