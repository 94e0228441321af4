import UtilityLayer.Cache.Store
import UtilityLayer.Compiler.State
import UtilityLayer.Text.Fingerprint

/-!
# Compile passes

A compile call either answers at once or starts a pass. A pass stops where it
has to wait: for the theme, and twice for a frame when it hands over a critical
stylesheet. `resume` takes it to its next stop. While a pass waits, every other
call is skipped and changes nothing.
-/

set_option autoImplicit false

namespace UtilityLayer.Compiler

open Text Layer Cache

def setHash (classes : TextSet) : Text := fingerprint classes.joined

/-- The result of a step: an outcome when the call is over. -/
structure Step where
  compiler : Compiler
  cache : Store
  outcome : Option Outcome := none
  events : List Event := []

namespace Step

def after (events : List Event) (s : Step) : Step := { s with events := events ++ s.events }

end Step

def tooSoon (c : Compiler) (clock : Duration) : Bool :=
  match c.started with
  | some last => (last.since clock).lt c.config.interval
  | none => false

def startInitial (c : Compiler) (cache : Store) : Step :=
  match c.scanned with
  | some classes =>
    { compiler := { c with phase := .scanning, waiting := some (.forTheme classes) }, cache }
  | none =>
    let classes := c.scanner.fixed
    { compiler := { c with
        phase := .scanning
        scanner := c.scanner.scanned
        scanned := some classes
        waiting := some (.forTheme classes) }
      cache
      events := [.firstScan classes.size] }

def steadyClasses (c : Compiler) : TextSet :=
  (c.scanned.getD .empty).union c.scanner.observed

def startSteady (c : Compiler) (cache : Store) : Step :=
  if c.layerClasses = some (setHash c.steadyClasses) then
    { compiler := c, cache, outcome := some .unchanged, events := [.unchangedClasses] }
  else { compiler := { c with waiting := some (.forTheme c.steadyClasses) }, cache }

def skip (c : Compiler) (cache : Store) (reason : Skip) : Step :=
  { compiler := c, cache, outcome := some (.skipped reason), events := [.skipped reason] }

def call (c : Compiler) (cache : Store) (clock : Duration) : Step :=
  if c.waiting.isSome then c.skip cache .reentrant
  else if c.tooSoon clock then c.skip cache .rateLimited
  else
    let c := { c with started := some clock }
    if c.phase = .uninitialized then c.startInitial cache else c.startSteady cache

def record (c : Compiler) (cache : Store) (w : Written) : Step :=
  { compiler := { c with
      phase := .steady
      layerClasses := some (setHash w.classes)
      css := some w.css
      waiting := none }
    cache
    outcome := some (.compiled w.cacheHit) }

/-- Writes the layer and starts to hand over the critical stylesheet, if any. -/
def deliver (c : Compiler) (cache : Store) (w : Written) : Step :=
  let wrote : Event := .wroteLayer c.config.layer (byteSize w.css) w.classes.size
  let sink := c.sink.write w.css
  match sink.critical with
  | none => ({ c with sink }.record cache w).after [wrote]
  | some critical =>
    let covered := coverage w.css
    { compiler := { c with
        sink := (sink.installCritical (pruneCritical covered critical)).awaitFrame
        waiting := some (.forFirstFrame w) }
      cache
      events := wrote :: coverageEvents w.css ++ criticalEvents covered critical }

/-- The index of a theme, read again only when the hash of its text changed. -/
def indexFor (c : Compiler) (theme hash : Text) : Except Css.SheetError Layer.Index :=
  match c.index with
  | some (known, index) => if known = hash then .ok index else Index.build theme c.config.colors
  | none => Index.build theme c.config.colors

def indexForEvents (c : Compiler) (theme hash : Text) : List Event :=
  if c.index.map Prod.fst = some hash then []
  else .themeChanged hash :: Index.buildEvents theme c.config.colors

def fail (c : Compiler) (cache : Store) (error : Fault) : Step :=
  { compiler := { c with phase := .steady, index := none, waiting := none }
    cache
    outcome := some (.failed error)
    events := [.passFailed error] }

def generate (c : Compiler) (cache : Store) (now : UInt64) (classes : TextSet)
    (theme hash : Text) : Step :=
  let indexEvents := c.indexForEvents theme hash
  match c.indexFor theme hash with
  | .error e => (c.fail cache (.generation e)).after indexEvents
  | .ok index =>
    let css := index.render classes c.config.layer
    let report := index.renderReport classes
    let entry : Entry := ⟨keyOf classes hash, css, now, hash⟩
    ({ c with index := some (hash, index) }.deliver (cache.put entry) ⟨classes, css, false⟩).after
      (indexEvents ++ index.generateEvents classes ++
        Event.generatedRules report.emitted report.duplicates report.unresolved.length
          report.partials.length :: cache.putEvents entry)

def stored? (cache : Store) (now : UInt64) (classes : TextSet) (hash : Text) : Option Entry :=
  (cache.get? (keyOf classes hash) now).filter fun e => e.themeHash = hash

def run (c : Compiler) (cache : Store) (now : UInt64) (classes : TextSet) (theme : Text) : Step :=
  let hash := fingerprint theme
  let key := keyOf classes hash
  let cache' := cache.afterGet key now
  match stored? cache now classes hash with
  | some entry =>
    (c.deliver cache' ⟨classes, entry.css, true⟩).after
      (cache.getEvents key now ++ [.cacheHit classes.size])
  | none => (c.generate cache' now classes theme hash).after (cache.getEvents key now)

def usable (theme : Option Text) : Option Text := theme.filter fun t => !isBlankText t

/-- A pass without a theme leaves the phase as it was before. -/
def giveUp (c : Compiler) (cache : Store) : Step :=
  { c with
    phase := if c.phase = Phase.scanning then .uninitialized else c.phase
    waiting := none }.skip cache .themeUnavailable

/-- Takes a waiting pass to its next stop or to its end. -/
def resume (c : Compiler) (cache : Store) (now : UInt64) : Step :=
  match c.waiting with
  | none => { compiler := c, cache }
  | some (.forTheme classes) =>
    let c := { c with theme := c.theme.fetched }
    match usable c.theme.text with
    | none => c.giveUp cache
    | some theme => c.run cache now classes theme
  | some (.forFirstFrame w) =>
    { compiler := { c with sink := c.sink.awaitFrame, waiting := some (.forSecondFrame w) }, cache }
  | some (.forSecondFrame w) =>
    ({ c with sink := c.sink.dropCritical }.record cache w).after [.retractedCritical]

/-- Resumes at most `n` times. A pass ends within three. -/
def settle (now : UInt64) : Nat → Step → Step
  | 0, s => s
  | n + 1, s =>
    if s.outcome.isSome then s
    else settle now n ((s.compiler.resume s.cache now).after s.events)

def compile (c : Compiler) (cache : Store) (clock : Duration) (now : UInt64) : Step :=
  settle now 3 (c.call cache clock)

end UtilityLayer.Compiler
