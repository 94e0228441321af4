import UtilityLayer.Compiler.Session
import UtilityLayer.Proofs.Compiler.Delivery

/-!
# Calls made whole

A compile call without a pause, and one held open at its theme while a second
one is made, are runs of moves like any other. Both are always answered.
-/

set_option autoImplicit false

namespace UtilityLayer.Compiler

open Text Layer Cache

variable {c d : Compiler} {cache cache' : Store} {clock : Duration} {now : UInt64}
variable {a : Option Outcome}

/-- How many steps a pass has before it at most. -/
def stepsLeft (c : Compiler) : Nat :=
  match c.waiting with
  | none => 0
  | some (.forTheme _) => 3
  | some (.forFirstFrame _) => 2
  | some (.forSecondFrame _) => 1

theorem Resumed.stepsLeft_lt (h : Resumed c cache now d cache' a) (busy : c.waiting ≠ none) :
    a ≠ none ∨ (d.waiting ≠ none ∧ d.stepsLeft < c.stepsLeft) := by
  have delivers {c : Compiler} {w : Written} (hd : Delivered c w d a) :
      a ≠ none ∨ (d.waiting ≠ none ∧ d.stepsLeft = 2) := by
    cases hd with
    | plain => exact .inl (by simp)
    | handover => exact .inr ⟨by simp, rfl⟩
  cases h with
  | idle idle => exact absurd idle busy
  | themeless => exact .inl (by simp)
  | hit classes theme entry _ _ waits _ _ after =>
    rcases delivers after with ha | ⟨hw, hd⟩
    · exact .inl ha
    · have hc : c.stepsLeft = 3 := by rw [stepsLeft, waits]
      exact .inr ⟨hw, by omega⟩
  | malformed => exact .inl (by simp)
  | made classes theme index _ _ waits _ _ _ after =>
    rcases delivers after with ha | ⟨hw, hd⟩
    · exact .inl ha
    · have hc : c.stepsLeft = 3 := by rw [stepsLeft, waits]
      exact .inr ⟨hw, by omega⟩
  | firstFrame w waits => exact .inr ⟨by simp, by simp [stepsLeft, waits]⟩
  | secondFrame => exact .inl (by simp)

theorem Called.stepsLeft_le (h : Called c clock d none) : d.waiting ≠ none ∧ d.stepsLeft ≤ 3 := by
  cases h with
  | firstScan => exact ⟨by simp, by simp [stepsLeft]⟩
  | firstAgain => exact ⟨by simp, by simp [stepsLeft]⟩
  | later => exact ⟨by simp, by simp [stepsLeft]⟩

def Move.isResume : Move → Bool
  | resume _ => true
  | _ => false

namespace Bench

theorem goesOn {b : Bench} {m : Move} (busy : b.compiler.waiting ≠ none)
    (going : b.ending? cache m = none) :
    (b.move cache m).1.compiler.waiting ≠ none ∧
      (b.move cache m).1.compiler.stepsLeft + (if m.isResume then 1 else 0) ≤
        b.compiler.stepsLeft := by
  cases m with
  | call clock =>
    have same := ((called b.compiler cache clock).of_busy busy).1
    rw [move, same]
    exact ⟨busy, Nat.le_refl _⟩
  | resume now =>
    have hr := resumed b.compiler cache now
    have hn : (b.compiler.resume cache now).outcome = none := going
    rw [hn] at hr
    exact (hr.stepsLeft_lt busy).resolve_left (by simp)
  | observe token => exact ⟨busy, Nat.le_refl _⟩
  | setTheme theme => exact ⟨busy, Nat.le_refl _⟩
  | clearTheme => exact ⟨busy, Nat.le_refl _⟩
  | setCritical css => exact ⟨busy, Nat.le_refl _⟩

end Bench

theorem settle_of_outcome {s : Step} (h : s.outcome ≠ none) (n : Nat) : settle now n s = s := by
  cases n with
  | zero => rfl
  | succ n => rw [settle, if_pos (Option.isSome_iff_ne_none.mpr h)]

theorem settle_succ {s : Step} (h : s.outcome = none) (n : Nat) :
    settle now (n + 1) s = settle now n ((s.compiler.resume s.cache now).after s.events) := by
  rw [settle, if_neg (by simp [h])]

namespace Workshop

def Becomes (w : Workshop) (i : Nat) (s : Step) (w' : Workshop) : Prop :=
  w'.cache = s.cache ∧ ∃ b', w'.benches = w.benches.set i b' ∧ b'.compiler = s.compiler

theorem untilAnswer_settle {w : Workshop} {i n : Nat} {b : Bench} {s : Step} (now : UInt64)
    (hb : w.benches[i]? = some b) (compiler : s.compiler = b.compiler) (cache : s.cache = w.cache)
    (outcome : s.outcome = none) (busy : b.compiler.waiting ≠ none)
    (enough : b.compiler.stepsLeft ≤ n) :
    ∃ w' o, w.untilAnswer i (List.replicate n (i, .resume now)) = some (w', o) ∧
      (settle now n s).outcome = some o ∧ w.Becomes i (settle now n s) w' := by
  induction n generalizing w b s with
  | zero =>
    have hn : b.compiler.stepsLeft = 0 := by omega
    rw [stepsLeft] at hn
    split at hn <;> simp_all
  | succ n ih =>
    have hr := resumed b.compiler w.cache now
    have hm := bench_move_self hb (.resume now)
    rw [List.replicate_succ, untilAnswer, settle_succ outcome]
    simp only [if_true, hb, Option.bind_some, Bench.ending?]
    have hd : ((s.compiler.resume s.cache now).after s.events).compiler =
        (b.move w.cache (.resume now)).1.compiler := by
      rw [compiler, cache]
      rfl
    have hc : ((s.compiler.resume s.cache now).after s.events).cache =
        (w.move i (.resume now)).cache := by
      rw [move_of_bench hb, compiler, cache]
      rfl
    have hs : ((s.compiler.resume s.cache now).after s.events).outcome =
        (b.compiler.resume w.cache now).outcome := by
      rw [compiler, cache]
      rfl
    cases ho : (b.compiler.resume w.cache now).outcome with
    | some o =>
      rw [ho] at hs
      rw [settle_of_outcome (by simp [hs])]
      refine ⟨w.move i (.resume now), o, rfl, hs, hc.symm, _, ?_, hd.symm⟩
      rw [move_of_bench hb]
    | none =>
      rw [ho] at hr hs
      obtain ⟨hw, hlt⟩ := (hr.stepsLeft_lt busy).resolve_left (by simp)
      have left : (b.move w.cache (.resume now)).1.compiler.stepsLeft ≤ n :=
        Nat.le_of_lt_succ (Nat.lt_of_lt_of_le hlt enough)
      obtain ⟨w', o, hu, hs', hcache, b', hbs, hb'⟩ := ih hm hd hc hs hw left
      refine ⟨w', o, hu, hs', hcache, b', ?_, hb'⟩
      rw [hbs, move_of_bench hb, List.set_set]

theorem becomes_call {w : Workshop} {i : Nat} {b : Bench} (hb : w.benches[i]? = some b)
    (clock : Duration) :
    w.Becomes i (b.compiler.call w.cache clock) (w.move i (.call clock)) := by
  rw [move_of_bench hb]
  exact ⟨rfl, _, rfl, rfl⟩

theorem callWith_compile {w : Workshop} {i : Nat} {b : Bench} (hb : w.benches[i]? = some b)
    (clock : Duration) (now : UInt64) :
    ∃ w' o, w.callWith i clock (List.replicate 3 (i, .resume now)) = some (w', o) ∧
      (b.compiler.compile w.cache clock now).outcome = some o ∧
      w.Becomes i (b.compiler.compile w.cache clock now) w' := by
  have hm := bench_move_self hb (.call clock)
  rw [callWith, hb, Option.bind_some, compile]
  cases ho : (b.compiler.call w.cache clock).outcome with
  | some o =>
    rw [settle_of_outcome (by simp [ho])]
    exact ⟨w.move i (.call clock), o, rfl, ho, becomes_call hb clock⟩
  | none =>
    have hc := called b.compiler w.cache clock
    rw [ho] at hc
    obtain ⟨hw, hle⟩ := hc.stepsLeft_le
    have hcache : (b.compiler.call w.cache clock).cache = (w.move i (.call clock)).cache := by
      rw [move_of_bench hb]
      rfl
    obtain ⟨w', o, hu, hs, hc', b', hbs, hb'⟩ := untilAnswer_settle now hm rfl hcache ho hw hle
    refine ⟨w', o, hu, hs, hc', b', ?_, hb'⟩
    rw [hbs, move_of_bench hb, List.set_set]

/-- A call held open at its theme while a second one is made is a call with
another one among its resumptions. -/
theorem callWith_overlap {w : Workshop} {i : Nat} {b : Bench} (hb : w.benches[i]? = some b)
    (clock : Duration) (now : UInt64) :
    ∃ w' o, w.callWith i clock ((i, .call clock) :: List.replicate 3 (i, .resume now)) =
        some (w', o) ∧
      (overlap b.compiler w.cache clock now).2.outcome = some o ∧
      w.Becomes i (overlap b.compiler w.cache clock now).2 w' := by
  have hm := bench_move_self hb (.call clock)
  rw [callWith, hb, Option.bind_some, overlap]
  cases ho : (b.compiler.call w.cache clock).outcome with
  | some o =>
    simp only [ho, Option.isSome_some, if_true]
    exact ⟨w.move i (.call clock), o, rfl, rfl, becomes_call hb clock⟩
  | none =>
    have hc := called b.compiler w.cache clock
    rw [ho] at hc
    obtain ⟨hw, hle⟩ := hc.stepsLeft_le
    have hcache : (w.move i (.call clock)).cache = w.cache := by
      rw [move_of_bench hb]
      exact call_cache _ _ _
    have hm' := bench_move_self hm (.call clock)
    have same : ((b.move w.cache (.call clock)).1.move (w.move i (.call clock)).cache
        (.call clock)).1.compiler = (b.compiler.call w.cache clock).compiler :=
      ((called (b.compiler.call w.cache clock).compiler _ clock).of_busy hw).1
    rw [if_neg (by simp)]
    have kept : ((b.compiler.call w.cache clock).compiler.call (b.compiler.call w.cache clock).cache
        clock).cache = ((w.move i (.call clock)).move i (.call clock)).cache := by
      rw [call_cache, call_cache, move_of_bench hm]
      exact ((call_cache _ _ _).trans hcache).symm
    have settled := untilAnswer_settle now hm' (n := 3)
      (s := { ((b.compiler.call w.cache clock).compiler.call (b.compiler.call w.cache clock).cache
        clock).after (b.compiler.call w.cache clock).events with outcome := none })
      (by rw [call_cache, hcache]; rfl)
      kept
      rfl
      (by rw [same]; exact hw)
      (by rw [same]; exact hle)
    obtain ⟨w', o, hu, hs, hc', b', hbs, hb'⟩ := settled
    refine ⟨w', o, ?_, hs, hc', b', ?_, hb'⟩
    · rw [untilAnswer]
      simp only [if_true, hm, Option.bind_some, Bench.ending?]
      exact hu
    · rw [hbs, move_of_bench hm, move_of_bench hb, List.set_set, List.set_set]

end Workshop

end UtilityLayer.Compiler
