import UtilityLayer.Proofs.Compiler.Calls

/-!
# Calls during a pass

A pass is held up at its theme and at two frames, and any number of calls may
come in meanwhile. All of them are turned away, and leaving them out changes
neither the answer of the pass nor any compiler or the cache. Only the records
know of them.
-/

set_option autoImplicit false

namespace UtilityLayer.Compiler

open Text Layer Cache

variable {c d : Compiler} {cache cache' : Store} {clock : Duration} {now : UInt64}
variable {a : Option Outcome} {o : Outcome}

def Move.isCall : Move → Bool
  | call _ => true
  | _ => false

/-- The moves without the calls to the compiler of bench `i`. -/
def undisturbed (i : Nat) (ms : List (Nat × Move)) : List (Nat × Move) :=
  ms.filter fun m => !(m.1 == i && m.2.isCall)

/-- How often the moves take the pass of bench `i` on. -/
def resumptions (i : Nat) (ms : List (Nat × Move)) : Nat :=
  ms.countP fun m => m.1 == i && m.2.isResume

theorem stepsLeft_pos (busy : c.waiting ≠ none) : 0 < c.stepsLeft := by
  rw [stepsLeft]
  split
  · rename_i h
    exact absurd h busy
  · decide
  · decide
  · decide

theorem state_of_busy (busy : c.waiting ≠ none) : c.state = .compiling := by
  rw [state, if_pos (Option.isSome_iff_ne_none.mpr busy)]

namespace Bench

theorem move_congr {b b' : Bench} (h : b.compiler = b'.compiler) (cache : Store) (m : Move) :
    (b.move cache m).1.compiler = (b'.move cache m).1.compiler ∧
      (b.move cache m).2 = (b'.move cache m).2 ∧ b.ending? cache m = b'.ending? cache m := by
  cases m <;> simp [move, ending?, withCompiler, h]

end Bench

namespace Workshop

variable {w w' : Workshop} {i : Nat} {b : Bench}

/-- The same compilers over the same cache, with any records. -/
structure Alike (w w' : Workshop) : Prop where
  compilers : ∀ i : Nat, w.benches[i]?.map Bench.compiler = w'.benches[i]?.map Bench.compiler
  cache : w.cache = w'.cache

namespace Alike

theorem refl (w : Workshop) : w.Alike w := ⟨fun _ => rfl, rfl⟩

theorem trans {u : Workshop} (h : w.Alike w') (h' : w'.Alike u) : w.Alike u :=
  ⟨fun i => (h.compilers i).trans (h'.compilers i), h.cache.trans h'.cache⟩

theorem bench (h : w.Alike w') (hb : w.benches[i]? = some b) :
    ∃ b', w'.benches[i]? = some b' ∧ b.compiler = b'.compiler := by
  have hc := h.compilers i
  rw [hb, Option.map_some] at hc
  obtain ⟨b', hb', he⟩ := Option.map_eq_some_iff.mp hc.symm
  exact ⟨b', hb', he.symm⟩

theorem no_bench (h : w.Alike w') (hb : w.benches[i]? = none) : w'.benches[i]? = none := by
  have hc := h.compilers i
  rw [hb] at hc
  exact Option.map_eq_none_iff.mp hc.symm

theorem move (h : w.Alike w') (i : Nat) (m : Move) : (w.move i m).Alike (w'.move i m) := by
  cases hb : w.benches[i]? with
  | none =>
    rw [Workshop.move, hb, Workshop.move, h.no_bench hb]
    exact h
  | some b =>
    obtain ⟨b', hb', same⟩ := h.bench hb
    obtain ⟨compiler, cache, -⟩ := Bench.move_congr same w.cache m
    constructor
    · intro j
      by_cases hj : i = j
      · subst hj
        rw [bench_move_self hb, bench_move_self hb', ← h.cache]
        exact congrArg some compiler
      · rw [bench_move_of_ne w hj, bench_move_of_ne w' hj, h.compilers j]
    · rw [move_of_bench hb, move_of_bench hb', ← h.cache]
      exact cache

theorem of_busy (hb : w.benches[i]? = some b) (busy : b.compiler.waiting ≠ none)
    (clock : Duration) : (w.move i (.call clock)).Alike w := by
  constructor
  · intro j
    by_cases hj : i = j
    · subst hj
      rw [bench_move_self hb, hb]
      exact congrArg some ((called b.compiler w.cache clock).of_busy busy).1
    · rw [bench_move_of_ne w hj]
  · rw [move_of_bench hb]
    exact call_cache _ _ _

end Alike

/-- Two passes that have ended alike, if they have ended. -/
def EndAlike (p p' : Option (Workshop × Outcome)) : Prop :=
  Option.Rel (fun e e' => e.1.Alike e'.1 ∧ e.2 = e'.2) p p'

theorem untilAnswer_cons (hb : w.benches[i]? = some b) (m : Move) (ms : List (Nat × Move)) :
    w.untilAnswer i ((i, m) :: ms) =
      match b.ending? w.cache m with
      | some o => some (w.move i m, o)
      | none => (w.move i m).untilAnswer i ms := by
  cases he : b.ending? w.cache m <;> simp [untilAnswer, hb, he]

theorem untilAnswer_cons_of_ne {j : Nat} (hj : j ≠ i) (m : Move) (ms : List (Nat × Move)) :
    w.untilAnswer i ((j, m) :: ms) = (w.move j m).untilAnswer i ms := by
  rw [untilAnswer, if_neg hj]

theorem untilAnswer_undisturbed (alike : w.Alike w') (hb : w.benches[i]? = some b)
    (busy : b.compiler.waiting ≠ none) (ms : List (Nat × Move)) :
    EndAlike (w.untilAnswer i ms) (w'.untilAnswer i (undisturbed i ms)) := by
  induction ms generalizing w w' b with
  | nil => exact .none
  | cons jm ms ih =>
    obtain ⟨j, m⟩ := jm
    by_cases hj : j = i
    · subst hj
      by_cases hm : m.isCall = true
      · -- A further call, which the other workshop never sees.
        obtain ⟨clock, rfl⟩ : ∃ clock, m = .call clock := by
          cases m with
          | call clock => exact ⟨clock, rfl⟩
          | _ => cases hm
        have left : undisturbed j ((j, .call clock) :: ms) = undisturbed j ms := by
          simp [undisturbed, Move.isCall]
        rw [left, untilAnswer_cons hb]
        exact ih ((Alike.of_busy hb busy clock).trans alike) (bench_move_self hb _)
          (Bench.goesOn busy rfl).1
      · have kept : undisturbed j ((j, m) :: ms) = (j, m) :: undisturbed j ms := by
          simp [undisturbed, hm]
        obtain ⟨b', hb', same⟩ := alike.bench hb
        obtain ⟨-, -, ending⟩ := Bench.move_congr same w.cache m
        rw [kept, untilAnswer_cons hb, untilAnswer_cons hb', ← alike.cache, ← ending]
        cases he : b.ending? w.cache m with
        | some o => exact .some ⟨alike.move j m, rfl⟩
        | none => exact ih (alike.move j m) (bench_move_self hb m) (Bench.goesOn busy he).1
    · have kept : undisturbed i ((j, m) :: ms) = (j, m) :: undisturbed i ms := by
        simp [undisturbed, hj]
      rw [kept, untilAnswer_cons_of_ne hj, untilAnswer_cons_of_ne hj]
      exact ih (alike.move j m) ((bench_move_of_ne w hj m).trans hb) busy

theorem busy_of_unanswered {ms : List (Nat × Move)} (hb : w.benches[i]? = some b)
    (busy : b.compiler.waiting ≠ none) (unanswered : w.untilAnswer i ms = none) :
    ∃ b', (w.run ms).benches[i]? = some b' ∧ b'.compiler.waiting ≠ none := by
  induction ms generalizing w b with
  | nil => exact ⟨b, hb, busy⟩
  | cons jm ms ih =>
    obtain ⟨j, m⟩ := jm
    by_cases hj : j = i
    · subst hj
      rw [untilAnswer_cons hb] at unanswered
      cases he : b.ending? w.cache m with
      | some o => simp [he] at unanswered
      | none =>
        rw [he] at unanswered
        exact ih (bench_move_self hb m) (Bench.goesOn busy he).1 unanswered
    · rw [untilAnswer_cons_of_ne hj] at unanswered
      exact ih ((bench_move_of_ne w hj m).trans hb) busy unanswered

theorem untilAnswer_isSome {ms : List (Nat × Move)} (hb : w.benches[i]? = some b)
    (busy : b.compiler.waiting ≠ none) (enough : b.compiler.stepsLeft ≤ resumptions i ms) :
    (w.untilAnswer i ms).isSome = true := by
  induction ms generalizing w b with
  | nil =>
    have pos := stepsLeft_pos busy
    have none : resumptions i [] = 0 := rfl
    omega
  | cons jm ms ih =>
    obtain ⟨j, m⟩ := jm
    by_cases hj : j = i
    · subst hj
      rw [untilAnswer_cons hb]
      cases he : b.ending? w.cache m with
      | some o => rfl
      | none =>
        obtain ⟨still, closer⟩ := Bench.goesOn busy he
        have count : resumptions j ((j, m) :: ms) =
            resumptions j ms + if m.isResume then 1 else 0 := by
          simp [resumptions, List.countP_cons]
        exact ih (bench_move_self hb m) still (by omega)
    · have count : resumptions i ((j, m) :: ms) = resumptions i ms := by
        simp [resumptions, hj]
      rw [untilAnswer_cons_of_ne hj]
      exact ih ((bench_move_of_ne w hj m).trans hb) busy (count ▸ enough)

/-- While the pass of a call is held up, every further call is turned away and the
compiler shows that it is compiling. The call is answered as if there had been no
further ones, with the same compilers and the same cache in the end, and it is
answered once its pass has been resumed three times. -/
theorem overlap_harmless (hb : w.benches[i]? = some b) (clock : Duration) :
    (∀ before clock', w.callWith i clock before = none →
      ∃ b', (w.run ((i, .call clock) :: before)).benches[i]? = some b' ∧
        b'.compiler.state = .compiling ∧
        (b'.compiler.call (w.run ((i, .call clock) :: before)).cache clock').outcome =
          some (.skipped .reentrant)) ∧
      ∀ meanwhile,
        EndAlike (w.callWith i clock meanwhile) (w.callWith i clock (undisturbed i meanwhile)) ∧
        (3 ≤ resumptions i meanwhile → (w.callWith i clock meanwhile).isSome = true) := by
  have hm := bench_move_self hb (.call clock)
  have hc := called b.compiler w.cache clock
  simp only [callWith, hb, Option.bind_some]
  cases ho : (b.compiler.call w.cache clock).outcome with
  | some o => exact ⟨by simp, fun _ => ⟨.some ⟨Alike.refl _, rfl⟩, fun _ => rfl⟩⟩
  | none =>
    rw [ho] at hc
    obtain ⟨busy, steps⟩ := hc.stepsLeft_le
    refine ⟨fun before clock' unanswered => ?_, fun meanwhile => ⟨?_, fun enough => ?_⟩⟩
    · obtain ⟨b', hb', busy'⟩ := busy_of_unanswered hm busy unanswered
      exact ⟨b', hb', state_of_busy busy', ((called _ _ clock').of_busy busy').2⟩
    · exact untilAnswer_undisturbed (Alike.refl _) hm busy meanwhile
    · exact untilAnswer_isSome hm busy (Nat.le_trans steps enough)

def intrusiveMoves : List (Nat × Move) :=
  [(0, .call .zero), (0, .resume 0), (0, .call (.ofMillis 5)), (0, .call (.ofMillis 200)),
   (0, .resume 0), (0, .call (.ofMillis 300)), (0, .resume 0)]

theorem intrusive_moves_harmless :
    ∃ w w', stockedWorkshop.callWith 0 .zero intrusiveMoves = some (w, .compiled true) ∧
      stockedWorkshop.callWith 0 .zero [(0, .resume 0), (0, .resume 0), (0, .resume 0)] =
        some (w', .compiled true) ∧ w.Alike w' := by
  have hb : stockedWorkshop.benches[0]? = some ⟨fresh {} (some ":root \x7b --z-1: 1; \x7d")
    (.ofList ["z-1"]) (some ".a \x7b color: red; \x7d"), {}⟩ := rfl
  obtain ⟨w, answered⟩ : ∃ w, stockedWorkshop.callWith 0 .zero intrusiveMoves =
    some (w, .compiled true) := ⟨_, rfl⟩
  have ends := ((overlap_harmless hb .zero).2 intrusiveMoves).1
  rw [answered] at ends
  cases hu : stockedWorkshop.callWith 0 .zero (undisturbed 0 intrusiveMoves) with
  | none =>
    rw [hu] at ends
    cases ends
  | some e =>
    obtain ⟨w', o⟩ := e
    rw [hu] at ends
    obtain ⟨alike, rfl⟩ : w.Alike w' ∧ .compiled true = o := by
      cases ends with
      | some h => exact h
    exact ⟨w, w', answered, hu, alike⟩

end Workshop

end UtilityLayer.Compiler
