import UtilityLayer.Proofs.Compiler.Run

/-!
# What a record says of its compiler

The record of a bench names the class set of the pass under way, and the hash
that decides whether anything has changed is that of the last compiled set.
Both hold however the calls to the compiler overlap.
-/

set_option autoImplicit false

namespace UtilityLayer.Compiler

open Text Layer Cache

def Waiting.classes : Waiting → TextSet
  | .forTheme classes => classes
  | .forFirstFrame w => w.classes
  | .forSecondFrame w => w.classes

variable {c d : Compiler} {r : Record} {cache cache' : Store} {clock : Duration} {now : UInt64}
variable {a : Option Outcome} {o : Outcome} {q : Request} {w : Written}

namespace Record

theorem lastCompiled_cons (r : Record) (q : Request) (o : Outcome) (u : Option Request) :
    ({ r with underway := u, answers := (q, o) :: r.answers } : Record).lastCompiled =
      if o.isCompiled then some q else r.lastCompiled := by
  by_cases h : o.isCompiled = true <;> simp [lastCompiled, h]

theorem lastCompiled_fetch (r : Record) (theme : Option Text) :
    (r.fetch theme).lastCompiled = r.lastCompiled := by
  cases theme <;> rfl

theorem answers_fetch (r : Record) (theme : Option Text) :
    (r.fetch theme).answers = r.answers := by
  cases theme <;> rfl

theorem classSets_fetch (r : Record) (theme : Option Text) :
    (r.fetch theme).classSets = r.classSets := by
  cases theme <;> rfl

theorem underway_fetch (r : Record) (theme : Option Text) :
    (r.fetch theme).underway =
      r.underway.map fun q => { q with fetched := theme.orElse fun _ => q.fetched } := by
  cases theme with
  | none => cases h : r.underway <;> simp [fetch, h]
  | some t => rfl

theorem answer_some (h : r.underway = some q) (o : Outcome) :
    r.answer (some o) = { r with underway := none, answers := (q, o) :: r.answers } := by
  rw [answer, h]

theorem lastCompiled_afterCall (r : Record) (q : Request) (h : o.isCompiled = false) :
    (r.afterCall q (some o)).lastCompiled = r.lastCompiled := by
  cases o with
  | compiled hit => simp [Outcome.isCompiled] at h
  | unchanged => simp [afterCall, lastCompiled, Outcome.isCompiled]
  | skipped reason => simp [afterCall, lastCompiled, Outcome.isCompiled]
  | failed error => simp [afterCall, lastCompiled, Outcome.isCompiled]

end Record

/-- Between passes a compiler is never scanning, and past the first pass it has
scanned its static classes. -/
structure Phased (c : Compiler) : Prop where
  scanned : ∀ classes, c.scanned = some classes → classes = c.scanner.fixed
  known : c.phase ≠ .uninitialized → c.scanned = some c.scanner.fixed
  begun : c.waiting ≠ none → c.phase ≠ .uninitialized
  still : c.waiting = none → c.phase ≠ .scanning

namespace Phased

theorem fresh (config : Config) (theme : Option Text) (classes : TextSet)
    (critical : Option Text) : Phased (fresh config theme classes critical) := by
  constructor <;> simp [Compiler.fresh]

theorem congr (h : Phased c) (scanned : d.scanned = c.scanned)
    (fixed : d.scanner.fixed = c.scanner.fixed) (phase : d.phase = c.phase)
    (waiting : d.waiting = c.waiting) : Phased d := by
  constructor
  · rw [scanned, fixed]
    exact h.scanned
  · rw [scanned, fixed, phase]
    exact h.known
  · rw [waiting, phase]
    exact h.begun
  · rw [waiting, phase]
    exact h.still

theorem called (h : Phased c) (hc : Called c clock d a) : Phased d := by
  cases hc with
  | reentrant => exact h
  | rateLimited => exact h
  | unchanged => exact h.congr rfl rfl rfl rfl
  | firstScan => constructor <;> simp [Scanner.scanned]
  | firstAgain classes idle due first read =>
    obtain rfl := h.scanned classes read
    constructor <;> simp
  | later idle due later =>
    have hk := h.known later
    constructor <;> simp [hk, later]

theorem of_waiting (h : Phased c) (busy : c.waiting ≠ none) (scanned : d.scanned = c.scanned)
    (fixed : d.scanner = c.scanner)
    (phase : d.phase = .steady ∨ (d.phase = c.phase ∧ d.waiting ≠ none)) : Phased d := by
  have hk := h.known (h.begun busy)
  constructor
  · rw [scanned, fixed]
    exact h.scanned
  · rw [scanned, fixed]
    intro _
    exact hk
  · intro hw
    rcases phase with hp | ⟨hp, -⟩
    · simp [hp]
    · rw [hp]
      exact h.begun busy
  · intro hw
    rcases phase with hp | ⟨-, hn⟩
    · simp [hp]
    · exact absurd hw hn

theorem delivered (h : Phased c) (busy : c.waiting ≠ none) (hd : Delivered c w d a) :
    Phased d := by
  cases hd with
  | plain => exact h.of_waiting busy rfl rfl (.inl rfl)
  | handover => exact h.of_waiting busy rfl rfl (.inr ⟨rfl, by simp⟩)

theorem resumed (h : Phased c) (hr : Resumed c cache now d cache' a) : Phased d := by
  cases hr with
  | idle => exact h
  | themeless classes waits =>
    have hk := h.known (h.begun (by simp [waits]))
    constructor
    · exact h.scanned
    · intro _
      exact hk
    · simp
    · by_cases hp : c.phase = .scanning <;> simp [hp]
  | hit classes theme entry _ _ waits _ _ after =>
    exact (h.congr (d := c.withFetch) rfl rfl rfl rfl).delivered (by simp [withFetch, waits]) after
  | malformed classes theme error waits =>
    exact h.of_waiting (by simp [waits]) rfl rfl (.inl rfl)
  | made classes theme index _ _ waits _ _ _ after =>
    have hi := h.congr (d := { c.withFetch with index := some (fingerprint theme, index) })
      rfl rfl rfl rfl
    exact hi.delivered (by simp [withFetch, waits]) after
  | firstFrame w waits => exact h.of_waiting (by simp [waits]) rfl rfl (.inr ⟨rfl, by simp⟩)
  | secondFrame w waits => exact h.of_waiting (by simp [waits]) rfl rfl (.inl rfl)

theorem requested_later (h : Phased c) (later : c.phase ≠ .uninitialized) :
    c.requested = c.steadyClasses := by
  rw [requested, if_neg later, steadyClasses, h.known later, Option.getD_some]

end Phased

theorem requested_first (first : c.phase = .uninitialized) : c.requested = c.scanner.fixed := by
  rw [requested, if_pos first]

/-- A compiler and the record of its calls agree. -/
structure Kept (c : Compiler) (r : Record) : Prop where
  free : c.waiting = none → r.underway = none
  asked : ∀ s, c.waiting = some s → ∃ q, r.underway = some q ∧ q.classes = s.classes
  layerClasses : c.layerClasses = r.lastCompiled.map fun q => setHash q.classes
  unchanged : ∀ q rest, r.answers = (q, .unchanged) :: rest →
    c.layerClasses = some (setHash q.classes)
  underway : ∀ q, r.underway = some q → q.classes ∈ r.classSets
  answered : ∀ q o, (q, o) ∈ r.answers → o.isCompiled = true ∨ o = .unchanged →
    q.classes ∈ r.classSets

namespace Kept

theorem fresh (config : Config) (theme : Option Text) (classes : TextSet)
    (critical : Option Text) : Kept (fresh config theme classes critical) {} := by
  constructor <;> simp [Compiler.fresh, Record.lastCompiled]

theorem lastCompiled_listed (h : Kept c r) (hl : r.lastCompiled = some q) :
    q.classes ∈ r.classSets := by
  rw [Record.lastCompiled, Option.map_eq_some_iff] at hl
  obtain ⟨⟨q', o'⟩, hf, rfl⟩ := hl
  have compiled := List.find?_some hf
  exact h.answered q' o' (List.mem_of_find?_eq_some hf) (.inl compiled)

theorem congr (h : Kept c r) (waiting : d.waiting = c.waiting)
    (layerClasses : d.layerClasses = c.layerClasses) : Kept d r := by
  constructor
  · rw [waiting]
    exact h.free
  · rw [waiting]
    exact h.asked
  · rw [layerClasses]
    exact h.layerClasses
  · rw [layerClasses]
    exact h.unchanged
  · exact h.underway
  · exact h.answered

theorem skipped (h : Kept c r) (reason : Skip) :
    Kept c (r.afterCall q (some (.skipped reason))) := by
  constructor
  · exact h.free
  · exact h.asked
  · rw [Record.lastCompiled_afterCall r q rfl]
    exact h.layerClasses
  · intro q' rest hq
    simp [Record.afterCall] at hq
  · exact h.underway
  · intro q' o' hm ho
    rcases List.mem_cons.1 hm with he | hm
    · obtain ⟨-, rfl⟩ := Prod.mk.inj he
      simp [Outcome.isCompiled] at ho
    · exact h.answered q' o' hm ho

theorem foundUnchanged (h : Kept c r) (same : c.layerClasses = some (setHash q.classes)) :
    Kept c (r.afterCall q (some .unchanged)) := by
  constructor
  · exact h.free
  · exact h.asked
  · rw [Record.lastCompiled_afterCall r q rfl]
    exact h.layerClasses
  · intro q' rest hq
    obtain ⟨rfl, -⟩ : q = q' ∧ r.answers = rest := by simpa [Record.afterCall] using hq
    exact same
  · intro q' hq
    exact List.mem_cons_of_mem _ (h.underway q' hq)
  · intro q' o' hm ho
    rcases List.mem_cons.1 hm with he | hm
    · obtain ⟨rfl, -⟩ := Prod.mk.inj he
      exact List.mem_cons_self
    · exact List.mem_cons_of_mem _ (h.answered q' o' hm ho)

theorem started (h : Kept c r) (layer : d.layerClasses = c.layerClasses)
    (waits : d.waiting = some (.forTheme q.classes)) : Kept d (r.afterCall q none) := by
  constructor
  · simp [waits]
  · intro s hs
    obtain rfl : Waiting.forTheme q.classes = s := by simpa [waits] using hs
    exact ⟨q, rfl, rfl⟩
  · rw [layer]
    exact h.layerClasses
  · rw [layer]
    exact h.unchanged
  · intro q' hq
    obtain rfl : q = q' := by simpa [Record.afterCall] using hq
    exact List.mem_cons_self
  · intro q' o' hm ho
    exact List.mem_cons_of_mem _ (h.answered q' o' hm ho)

theorem called (h : Kept c r) (hp : Phased c) (hc : Called c clock d a) :
    Kept d (r.afterCall ⟨clock, c.requested, none⟩ a) := by
  cases hc with
  | reentrant => exact h.skipped _
  | rateLimited => exact h.skipped _
  | unchanged idle due later same =>
    rw [hp.requested_later later]
    have hk := h.foundUnchanged (q := ⟨clock, c.steadyClasses, none⟩) same
    exact hk.congr rfl rfl
  | firstScan idle due first =>
    rw [requested_first first]
    exact h.started rfl rfl
  | firstAgain classes idle due first read =>
    obtain rfl := hp.scanned classes read
    rw [requested_first first]
    exact h.started rfl rfl
  | later idle due later =>
    rw [hp.requested_later later]
    exact h.started rfl rfl

theorem fetched (h : Kept c r) (theme : Option Text) : Kept c (r.fetch theme) := by
  constructor
  · intro hw
    rw [Record.underway_fetch, h.free hw]
    rfl
  · intro s hs
    obtain ⟨q, hq, he⟩ := h.asked s hs
    rw [Record.underway_fetch, hq]
    exact ⟨_, rfl, he⟩
  · rw [Record.lastCompiled_fetch]
    exact h.layerClasses
  · rw [Record.answers_fetch]
    exact h.unchanged
  · intro q hq
    rw [Record.underway_fetch, Option.map_eq_some_iff] at hq
    obtain ⟨q', hq', rfl⟩ := hq
    rw [Record.classSets_fetch]
    exact h.underway q' hq'
  · rw [Record.answers_fetch, Record.classSets_fetch]
    exact h.answered

theorem goesOn {s s' : Waiting} (h : Kept c r) (waits : c.waiting = some s)
    (next : d.waiting = some s') (same : s'.classes = s.classes)
    (layer : d.layerClasses = c.layerClasses) : Kept d r := by
  constructor
  · simp [next]
  · intro t ht
    obtain rfl : s' = t := by simpa [next] using ht
    rw [same]
    exact h.asked s waits
  · rw [layer]
    exact h.layerClasses
  · rw [layer]
    exact h.unchanged
  · exact h.underway
  · exact h.answered

theorem ended {s : Waiting} (h : Kept c r) (waits : c.waiting = some s)
    (finished : d.waiting = none) (pass : o ≠ .unchanged)
    (layer : d.layerClasses = if o.isCompiled then some (setHash s.classes) else c.layerClasses) :
    Kept d (r.answer (some o)) := by
  obtain ⟨q, hq, he⟩ := h.asked s waits
  rw [Record.answer_some hq]
  constructor
  · intro _
    rfl
  · simp [finished]
  · rw [Record.lastCompiled_cons, layer, ← he]
    by_cases ho : o.isCompiled = true
    · simp [ho]
    · simp only [ho, Bool.false_eq_true, if_false]
      exact h.layerClasses
  · intro q' rest hu
    exact absurd (Prod.mk.inj (List.cons.inj hu).1).2 pass
  · simp
  · intro q' o' hm ho
    rcases List.mem_cons.1 hm with hx | hm
    · obtain ⟨rfl, -⟩ := Prod.mk.inj hx
      exact h.underway q' hq
    · exact h.answered q' o' hm ho

theorem delivered {s : Waiting} (h : Kept c r) (waits : c.waiting = some s)
    (same : w.classes = s.classes) (hd : Delivered c w d a) : Kept d (r.answer a) := by
  cases hd with
  | plain => exact h.ended waits rfl (by simp) (by simp [Outcome.isCompiled, same])
  | handover => exact h.goesOn waits rfl same rfl

theorem resumed (h : Kept c r) (hr : Resumed c cache now d cache' a) :
    Kept d ((r.fetch c.fetches?).answer a) := by
  have hf := h.fetched c.fetches?
  cases hr with
  | idle => exact hf
  | themeless classes waits => exact hf.ended waits rfl (by simp) rfl
  | hit classes theme entry _ _ waits _ _ after =>
    exact (hf.congr (d := c.withFetch) rfl rfl).delivered waits rfl after
  | malformed classes theme error waits => exact hf.ended waits rfl (by simp) rfl
  | made classes theme index _ _ waits _ _ _ after =>
    have hi := hf.congr (d := { c.withFetch with index := some (fingerprint theme, index) }) rfl rfl
    exact hi.delivered waits rfl after
  | firstFrame w waits => exact hf.goesOn waits rfl rfl rfl
  | secondFrame w waits => exact hf.ended waits rfl (by simp) rfl

end Kept

namespace Bench

def Regular (b : Bench) : Prop := Phased b.compiler ∧ Kept b.compiler b.record

theorem Regular.fresh (config : Config) (theme : Option Text) (classes : TextSet)
    (critical : Option Text) : Regular ⟨fresh config theme classes critical, {}⟩ :=
  ⟨Phased.fresh config theme classes critical, Kept.fresh config theme classes critical⟩

theorem Regular.move {b : Bench} (h : b.Regular) (cache : Store) (m : Move) :
    (b.move cache m).1.Regular := by
  obtain ⟨hp, hk⟩ := h
  cases m with
  | call clock =>
    have hc := called b.compiler cache clock
    exact ⟨hp.called hc, hk.called hp hc⟩
  | resume now =>
    have hr := resumed b.compiler cache now
    exact ⟨hp.resumed hr, hk.resumed hr⟩
  | observe token => exact ⟨hp.congr rfl rfl rfl rfl, hk.congr rfl rfl⟩
  | setTheme theme => exact ⟨hp.congr rfl rfl rfl rfl, hk.congr rfl rfl⟩
  | clearTheme => exact ⟨hp.congr rfl rfl rfl rfl, hk.congr rfl rfl⟩
  | setCritical css => exact ⟨hp.congr rfl rfl rfl rfl, hk.congr rfl rfl⟩

end Bench

end UtilityLayer.Compiler
