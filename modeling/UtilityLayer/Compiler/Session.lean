import UtilityLayer.Compiler.Pass

/-!
# Sessions

Compilers that work side by side, each with a cache of its own or all with one
cache between them. A session runs on a clock that moves only when told to; the
wall time that dates cache entries stands still. `overlap` holds a call open
where it waits for its theme and makes a second call meanwhile.
-/

set_option autoImplicit false

namespace UtilityLayer.Compiler

open Cache

structure Station where
  compiler : Compiler
  own : Option Store

structure Session where
  clock : Duration := .zero
  wall : UInt64
  shared : Option Memory
  stations : List Station

inductive Command where
  | compile
  | overlap
  | observe (token : Text)
  | setTheme (theme : Text)
  | clearTheme
  | setCritical (css : Text)
  | advance (time : Duration)
  | cachePut (entry : Entry)
  | cacheGet (key : Text)
  | snapshot
  | layer
  deriving DecidableEq, Repr

structure Snapshot where
  state : State
  css : Option Text
  layer : Option Text
  writes : Nat
  critical : Option Text
  history : List Text
  frames : Nat
  fetches : Nat
  scans : Nat
  deriving DecidableEq, Repr

structure Intrusion where
  during : State
  outcome : Option Outcome
  deriving DecidableEq, Repr

inductive Reply where
  | compiled (outcome : Option Outcome) (after : Snapshot)
  | overlapped (second : Option Intrusion) (first : Option Outcome) (after : Snapshot)
  | entry (found : Option Entry)
  | snapshot (now : Snapshot)
  | name (layer : Text)
  | done
  deriving DecidableEq, Repr

def snapshot (c : Compiler) : Snapshot where
  state := c.state
  css := c.css
  layer := c.sink.layer
  writes := c.sink.writes
  critical := c.sink.critical
  history := c.sink.history
  frames := c.sink.frames
  fetches := c.theme.fetches
  scans := c.scanner.scans

/-- A call held open at its theme, a second one, and the end of the first. -/
def overlap (c : Compiler) (cache : Store) (clock : Duration) (now : UInt64) :
    Option Intrusion × Step :=
  let first := c.call cache clock
  if first.outcome.isSome then (none, first)
  else
    let second := (first.compiler.call first.cache clock).after first.events
    (some ⟨first.compiler.state, second.outcome⟩, settle now 3 { second with outcome := none })

namespace Session

def station? (s : Session) (target : Nat) : Option Station := s.stations[target]?

def cacheOf (s : Session) (station : Station) : Store :=
  match station.own, s.shared with
  | some cache, _ => cache
  | none, some m => .memory m
  | none, none => .refusing []

def setCompiler (s : Session) (target : Nat) (c : Compiler) : Session :=
  { s with stations := s.stations.modify target fun st => { st with compiler := c } }

def settleAt (s : Session) (target : Nat) (c : Compiler) (cache : Store) : Session :=
  let s := s.setCompiler target c
  match s.station? target, cache with
  | some ⟨_, none⟩, .memory m => { s with shared := some m }
  | _, _ =>
    { s with stations := s.stations.modify target fun st =>
        { st with own := st.own.map fun _ => cache } }

/-- A command to the compiler at `target`: the session after it, the reply and
the events. -/
def step (s : Session) (target : Nat) (command : Command) : Session × Reply × List Event :=
  match s.station? target with
  | none => (s, .done, [])
  | some station =>
    let c := station.compiler
    let cache := s.cacheOf station
    match command with
    | .compile =>
      let r := c.compile cache s.clock s.wall
      (s.settleAt target r.compiler r.cache, .compiled r.outcome (snapshot r.compiler), r.events)
    | .overlap =>
      let (second, r) := overlap c cache s.clock s.wall
      (s.settleAt target r.compiler r.cache,
        .overlapped second r.outcome (snapshot r.compiler), r.events)
    | .observe token =>
      (s.setCompiler target { c with scanner := c.scanner.observe token }, .done, [])
    | .setTheme theme =>
      (s.setCompiler target { c with theme := { c.theme with text := some theme } }, .done, [])
    | .clearTheme =>
      (s.setCompiler target { c with theme := { c.theme with text := none } }, .done, [])
    | .setCritical css =>
      (s.setCompiler target { c with sink := c.sink.installCritical css }, .done, [])
    | .advance time => ({ s with clock := s.clock.add time }, .done, [])
    | .cachePut entry =>
      match s.shared with
      | none => (s, .done, [])
      | some m => ({ s with shared := some (m.put entry) }, .done, m.putEvents entry)
    | .cacheGet key =>
      match s.shared with
      | none => (s, .entry none, [])
      | some m =>
        ({ s with shared := some (m.afterGet key s.wall) }, .entry (m.get? key s.wall),
          m.getEvents key s.wall)
    | .snapshot => (s, .snapshot (Compiler.snapshot c), [])
    | .layer => (s, .name c.config.layer, [])

def run (s : Session) : List (Nat × Command) → Session × List Reply × List Event
  | [] => (s, [], [])
  | (target, command) :: rest =>
    let (s, reply, events) := s.step target command
    let (s, replies, later) := s.run rest
    (s, reply :: replies, events ++ later)

end Session

end UtilityLayer.Compiler
