import UtilityLayer.Compiler.Pass

/-!
# The ways a call and a pass can go

One relation for a compile call, one for the delivery of a layer and one for a
resumed pass, each with a constructor for every way it can go. What holds of
compilers in the long run is read off these relations, not off the functions.
-/

set_option autoImplicit false

namespace UtilityLayer.Compiler

open Text Layer Cache

variable {c d : Compiler} {cache cache' : Store} {clock : Duration} {now : UInt64} {o : Outcome}

/-- A call leaves its cache alone and does one of these. -/
inductive Called (c : Compiler) (clock : Duration) : Compiler → Option Outcome → Prop
  | reentrant (busy : c.waiting ≠ none) : Called c clock c (some (.skipped .reentrant))
  | rateLimited (idle : c.waiting = none) (soon : c.tooSoon clock = true) :
      Called c clock c (some (.skipped .rateLimited))
  | unchanged (idle : c.waiting = none) (due : c.tooSoon clock = false)
      (later : c.phase ≠ .uninitialized)
      (same : c.layerClasses = some (setHash c.steadyClasses)) :
      Called c clock { c with started := some clock } (some .unchanged)
  | firstScan (idle : c.waiting = none) (due : c.tooSoon clock = false)
      (first : c.phase = .uninitialized) (unread : c.scanned = none) :
      Called c clock
        { c with
          started := some clock
          phase := .scanning
          scanner := c.scanner.scanned
          scanned := some c.scanner.fixed
          waiting := some (.forTheme c.scanner.fixed) }
        none
  | firstAgain (classes : TextSet) (idle : c.waiting = none) (due : c.tooSoon clock = false)
      (first : c.phase = .uninitialized) (read : c.scanned = some classes) :
      Called c clock
        { c with
          started := some clock
          phase := .scanning
          scanned := some classes
          waiting := some (.forTheme classes) }
        none
  | later (idle : c.waiting = none) (due : c.tooSoon clock = false)
      (later : c.phase ≠ .uninitialized)
      (changed : c.layerClasses ≠ some (setHash c.steadyClasses)) :
      Called c clock
        { c with
          started := some clock
          waiting := some (.forTheme c.steadyClasses) }
        none

theorem call_cache (c : Compiler) (cache : Store) (clock : Duration) :
    (c.call cache clock).cache = cache := by
  rw [call]
  split
  · rfl
  · split
    · rfl
    · dsimp only
      split
      · rw [startInitial]
        split <;> rfl
      · rw [startSteady]
        split <;> rfl

theorem called (c : Compiler) (cache : Store) (clock : Duration) :
    Called c clock (c.call cache clock).compiler (c.call cache clock).outcome := by
  by_cases hw : c.waiting.isSome = true
  · rw [call, if_pos hw]
    exact .reentrant (Option.isSome_iff_ne_none.mp hw)
  have idle : c.waiting = none := Option.not_isSome_iff_eq_none.mp hw
  by_cases hs : c.tooSoon clock = true
  · rw [call, if_neg hw, if_pos hs]
    exact .rateLimited idle hs
  have due : c.tooSoon clock = false := Bool.eq_false_iff.mpr hs
  by_cases hp : c.phase = .uninitialized
  · rw [call, if_neg hw, if_neg hs]
    simp only [hp, if_true, startInitial]
    match hr : c.scanned with
    | none => exact .firstScan idle due hp hr
    | some classes => exact .firstAgain classes idle due hp hr
  · rw [call, if_neg hw, if_neg hs]
    simp only [hp, if_false, startSteady]
    split
    · rename_i h
      exact .unchanged idle due hp h
    · rename_i h
      exact .later idle due hp h

inductive Delivered (c : Compiler) (w : Written) : Compiler → Option Outcome → Prop
  | plain (bare : c.sink.critical = none) :
      Delivered c w
        { c with
          sink := c.sink.write w.css
          phase := .steady
          layerClasses := some (setHash w.classes)
          css := some w.css
          waiting := none }
        (some (.compiled w.cacheHit))
  | handover (critical : Text) (installed : c.sink.critical = some critical) :
      Delivered c w
        { c with
          sink := ((c.sink.write w.css).installCritical
            (pruneCritical (coverage w.css) critical)).awaitFrame
          waiting := some (.forFirstFrame w) }
        none

theorem deliver_cache (c : Compiler) (cache : Store) (w : Written) :
    (c.deliver cache w).cache = cache := by
  rw [deliver]
  dsimp only
  split <;> rfl

theorem delivered (c : Compiler) (cache : Store) (w : Written) :
    Delivered c w (c.deliver cache w).compiler (c.deliver cache w).outcome := by
  cases h : c.sink.critical with
  | none =>
    have hw : (c.sink.write w.css).critical = none := h
    simp only [deliver, hw]
    exact .plain h
  | some critical =>
    have hw : (c.sink.write w.css).critical = some critical := h
    simp only [deliver, hw]
    exact .handover critical h

def withFetch (c : Compiler) : Compiler := { c with theme := c.theme.fetched }

/-- A pass resumed at the wall time `now` over the store `cache` does one of these. -/
inductive Resumed (c : Compiler) (cache : Store) (now : UInt64) :
    Compiler → Store → Option Outcome → Prop
  | idle (idle : c.waiting = none) : Resumed c cache now c cache none
  | themeless (classes : TextSet) (waits : c.waiting = some (.forTheme classes))
      (unusable : usable c.theme.text = none) :
      Resumed c cache now
        { c.withFetch with
          phase := if c.phase = .scanning then .uninitialized else c.phase
          waiting := none }
        cache (some (.skipped .themeUnavailable))
  | hit (classes : TextSet) (theme : Text) (entry : Entry) (d : Compiler) (o : Option Outcome)
      (waits : c.waiting = some (.forTheme classes)) (usable : usable c.theme.text = some theme)
      (found : stored? cache now classes (fingerprint theme) = some entry)
      (after : Delivered c.withFetch ⟨classes, entry.css, true⟩ d o) :
      Resumed c cache now d (cache.afterGet (keyOf classes (fingerprint theme)) now) o
  | malformed (classes : TextSet) (theme : Text) (error : Css.SheetError)
      (waits : c.waiting = some (.forTheme classes)) (usable : usable c.theme.text = some theme)
      (missing : stored? cache now classes (fingerprint theme) = none)
      (unread : c.indexFor theme (fingerprint theme) = .error error) :
      Resumed c cache now
        { c.withFetch with phase := .steady, index := none, waiting := none }
        (cache.afterGet (keyOf classes (fingerprint theme)) now)
        (some (.failed (.generation error)))
  | made (classes : TextSet) (theme : Text) (index : Layer.Index) (d : Compiler)
      (o : Option Outcome)
      (waits : c.waiting = some (.forTheme classes)) (usable : usable c.theme.text = some theme)
      (missing : stored? cache now classes (fingerprint theme) = none)
      (read : c.indexFor theme (fingerprint theme) = .ok index)
      (after : Delivered { c.withFetch with index := some (fingerprint theme, index) }
        ⟨classes, index.render classes c.config.layer, false⟩ d o) :
      Resumed c cache now d
        ((cache.afterGet (keyOf classes (fingerprint theme)) now).put
          ⟨keyOf classes (fingerprint theme), index.render classes c.config.layer, now,
            fingerprint theme⟩) o
  | firstFrame (w : Written) (waits : c.waiting = some (.forFirstFrame w)) :
      Resumed c cache now
        { c with sink := c.sink.awaitFrame, waiting := some (.forSecondFrame w) } cache none
  | secondFrame (w : Written) (waits : c.waiting = some (.forSecondFrame w)) :
      Resumed c cache now
        { c with
          sink := c.sink.dropCritical
          phase := .steady
          layerClasses := some (setHash w.classes)
          css := some w.css
          waiting := none }
        cache (some (.compiled w.cacheHit))

theorem run_resumed {classes : TextSet} {theme : Text}
    (waits : c.waiting = some (.forTheme classes)) (usable : usable c.theme.text = some theme) :
    Resumed c cache now (c.withFetch.run cache now classes theme).compiler
      (c.withFetch.run cache now classes theme).cache
      (c.withFetch.run cache now classes theme).outcome := by
  cases hs : stored? cache now classes (fingerprint theme) with
  | some entry =>
    simp only [run, hs, Step.after, deliver_cache]
    exact .hit classes theme entry _ _ waits usable hs (delivered _ _ _)
  | none =>
    have hi : c.withFetch.indexFor theme (fingerprint theme) =
      c.indexFor theme (fingerprint theme) := rfl
    cases hx : c.indexFor theme (fingerprint theme) with
    | error e =>
      simp only [run, hs, generate, hi, hx, Step.after]
      exact .malformed classes theme e waits usable hs hx
    | ok index =>
      simp only [run, hs, generate, hi, hx, Step.after, deliver_cache]
      exact .made classes theme index _ _ waits usable hs hx (delivered _ _ _)

theorem resumed (c : Compiler) (cache : Store) (now : UInt64) :
    Resumed c cache now (c.resume cache now).compiler (c.resume cache now).cache
      (c.resume cache now).outcome := by
  match hw : c.waiting with
  | none =>
    simp only [resume, hw]
    exact .idle hw
  | some (.forTheme classes) =>
    cases hu : usable c.theme.text with
    | none =>
      have hf : usable c.theme.fetched.text = none := hu
      simp only [resume, hw, hf]
      exact .themeless classes hw hu
    | some theme =>
      have hf : usable c.theme.fetched.text = some theme := hu
      simp only [resume, hw, hf]
      exact run_resumed hw hu
  | some (.forFirstFrame w) =>
    simp only [resume, hw]
    exact .firstFrame w hw
  | some (.forSecondFrame w) =>
    simp only [resume, hw]
    exact .secondFrame w hw

theorem Called.idle_of_answer (h : Called c clock d (some o)) (idle : c.waiting = none) :
    d.waiting = none := by
  cases h with
  | reentrant => exact idle
  | rateLimited => exact idle
  | unchanged => exact idle

theorem Resumed.idle_of_answer (h : Resumed c cache now d cache' (some o)) : d.waiting = none := by
  have delivers {c : Compiler} {w : Written} (hd : Delivered c w d (some o)) :
      d.waiting = none := by
    cases hd
    rfl
  cases h with
  | themeless => rfl
  | hit classes theme entry _ _ _ _ _ after => exact delivers after
  | malformed => rfl
  | made classes theme index _ _ _ _ _ _ after => exact delivers after
  | secondFrame => rfl

end UtilityLayer.Compiler
