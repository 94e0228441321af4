import Mathlib.Data.Set.Function
import UtilityLayer.Proofs.Cache.Contents
import UtilityLayer.Proofs.Compiler.Record

/-!
# Where a layer comes from

A layer that a compiler delivers was rendered by some compiler of the workshop,
from a theme text with the same hash and from a class set with the same joined
list. With hashes that tell the theme texts apart this holds through every kept
index and every cache entry, whoever put it there and whatever has been evicted
since.
-/

set_option autoImplicit false

namespace UtilityLayer.Compiler

open Text Layer Cache

/-- The layer that is in the sink and waits for its frames. -/
def delivering? (c : Compiler) : Option Written :=
  match c.waiting with
  | some (.forFirstFrame w) => some w
  | some (.forSecondFrame w) => some w
  | _ => none

variable {c d : Compiler} {r : Record} {cache cache' : Store} {clock : Duration} {now : UInt64}
variable {a : Option Outcome} {o : Outcome} {q : Request} {w : Written}

theorem delivering?_of_idle (h : c.waiting = none) : c.delivering? = none := by
  rw [delivering?, h]

theorem delivering?_of_theme {classes : TextSet} (h : c.waiting = some (.forTheme classes)) :
    c.delivering? = none := by
  rw [delivering?, h]

theorem fetches?_of_theme {classes : TextSet} (h : c.waiting = some (.forTheme classes)) :
    c.fetches? = usable c.theme.text := by
  rw [fetches?, h]

theorem fetches?_of_delivering (h : c.delivering? = some w) : c.fetches? = none := by
  rw [delivering?] at h
  rw [fetches?]
  split at h
  · simp_all
  · simp_all
  · simp at h

/-- The configurations of some compilers, and the theme texts and class sets of
their passes. -/
structure Scope where
  configs : Set Config
  themes : Set Text
  classSets : Set TextSet

namespace Scope

variable {S : Scope}

/-- A compiler of the scope renders `css` from the theme and from a set that is
written like `classes`. -/
def Supplies (S : Scope) (theme : Text) (classes : TextSet) (css : Text) : Prop :=
  ∃ k ∈ S.configs, ∃ alike ∈ S.classSets,
    alike.joined = classes.joined ∧ freshLayer k theme alike = .ok css

/-- Every entry of the cache that a pass can ask for has been supplied. -/
def Stocks (S : Scope) (cache : Store) : Prop :=
  ∀ theme ∈ S.themes, ∀ classes entry,
    cache.held? (keyOf classes (fingerprint theme)) = some entry →
      S.Supplies theme classes entry.css

def Wrote (S : Scope) (q : Request) (css : Text) : Prop :=
  ∃ theme ∈ S.themes, q.fetched = some theme ∧ isBlankText theme = false ∧
    S.Supplies theme q.classes css

/-- A record of passes in the scope. -/
structure Covers (S : Scope) (r : Record) : Prop where
  themes : ∀ theme ∈ r.themes, theme ∈ S.themes
  classSets : ∀ classes ∈ r.classSets, classes ∈ S.classSets

/-- A compiler of the scope that keeps a supplied layer, in its sink and for
itself, and the index of a theme in the scope. -/
structure Sound (S : Scope) (c : Compiler) (r : Record) : Prop where
  config : c.config ∈ S.configs
  index : ∀ hash index, c.index = some (hash, index) →
    ∃ theme ∈ S.themes, fingerprint theme = hash ∧ Index.build theme c.config.colors = .ok index
  delivering : ∀ w, c.delivering? = some w →
    c.sink.layer = some w.css ∧ ∃ q, r.underway = some q ∧ S.Wrote q w.css
  settled : c.delivering? = none → c.sink.layer = c.css
  before : r.lastCompiled = none → c.css = none
  after : ∀ q, r.lastCompiled = some q → ∃ css, c.css = some css ∧ S.Wrote q css

theorem stocks_empty (capacity : Nat) (ttl : Duration) :
    S.Stocks (.memory (.empty capacity ttl)) := by
  intro theme _ classes entry h
  simp [Store.held?, Memory.held?_empty] at h

theorem Stocks.afterGet (h : S.Stocks cache) (key : Text) (now : UInt64) :
    S.Stocks (cache.afterGet key now) := by
  intro theme ht classes entry he
  exact h theme ht classes entry (Store.held?_of_afterGet he)

theorem Stocks.put (h : S.Stocks cache) (distinct : Set.InjOn fingerprint S.themes)
    {theme css : Text} {classes : TextSet} (ht : theme ∈ S.themes)
    (supplied : S.Supplies theme classes css) (now : UInt64) :
    S.Stocks (cache.put ⟨keyOf classes (fingerprint theme), css, now, fingerprint theme⟩) := by
  intro theme' ht' classes' entry he
  rcases Store.held?_of_put he with ⟨hk, rfl⟩ | he
  · have hl : (fingerprint theme').length = (fingerprint theme).length := by
      rw [fingerprint_length, fingerprint_length]
    obtain ⟨hj, hh⟩ := keyOf_inj hl hk
    obtain rfl := distinct ht' ht hh
    obtain ⟨k, hkc, alike, ha, haj, hf⟩ := supplied
    exact ⟨k, hkc, alike, ha, haj.trans hj.symm, hf⟩
  · exact h theme' ht' classes' entry he

theorem Stocks.stored (h : S.Stocks cache) {theme : Text} (ht : theme ∈ S.themes)
    {classes : TextSet} {entry : Entry}
    (found : stored? cache now classes (fingerprint theme) = some entry) :
    S.Supplies theme classes entry.css := by
  rw [stored?, Option.filter_eq_some_iff] at found
  exact h theme ht classes entry (Store.held?_of_get? found.1)

namespace Sound

theorem fresh {config : Config} (h : config ∈ S.configs) (theme : Option Text)
    (classes : TextSet) (critical : Option Text) :
    S.Sound (fresh config theme classes critical) {} := by
  constructor
  · exact h
  · simp [Compiler.fresh]
  · simp [Compiler.fresh, delivering?]
  · intro _
    rfl
  · intro _
    rfl
  · simp [Record.lastCompiled]

theorem indexFor (h : S.Sound c r) (distinct : Set.InjOn fingerprint S.themes) {theme : Text}
    (ht : theme ∈ S.themes) {index : Layer.Index}
    (read : c.indexFor theme (fingerprint theme) = .ok index) :
    Index.build theme c.config.colors = .ok index := by
  rw [Compiler.indexFor] at read
  split at read
  · rename_i known kept hk
    split at read
    · rename_i hh
      obtain rfl := Except.ok.inj read
      obtain ⟨theme', ht', rfl, hb⟩ := h.index known kept hk
      rw [distinct ht ht' hh.symm]
      exact hb
    · exact read
  · exact read

theorem congr (h : S.Sound c r) (config : d.config = c.config) (index : d.index = c.index)
    (waiting : d.waiting = c.waiting) (layer : d.sink.layer = c.sink.layer)
    (css : d.css = c.css) : S.Sound d r := by
  have hd : d.delivering? = c.delivering? := by rw [delivering?, delivering?, waiting]
  constructor
  · rw [config]
    exact h.config
  · rw [index, config]
    exact h.index
  · rw [hd, layer]
    exact h.delivering
  · rw [hd, layer, css]
    exact h.settled
  · rw [css]
    exact h.before
  · rw [css]
    exact h.after

theorem between {r' : Record} (h : S.Sound c r) (config : d.config = c.config)
    (index : d.index = c.index ∨ d.index = none) (hc : c.delivering? = none)
    (hd : d.delivering? = none) (layer : d.sink.layer = c.sink.layer) (css : d.css = c.css)
    (last : r'.lastCompiled = r.lastCompiled) : S.Sound d r' := by
  constructor
  · rw [config]
    exact h.config
  · intro hash i hi
    rw [config]
    rcases index with he | he
    · exact h.index hash i (he ▸ hi)
    · simp [he] at hi
  · simp [hd]
  · intro _
    rw [layer, css]
    exact h.settled hc
  · rw [css, last]
    exact h.before
  · rw [css, last]
    exact h.after

theorem skipped (h : S.Sound c r) (q : Request) (reason : Skip) :
    S.Sound c (r.afterCall q (some (.skipped reason))) := by
  have hl := Record.lastCompiled_afterCall r q (o := .skipped reason) rfl
  constructor
  · exact h.config
  · exact h.index
  · exact h.delivering
  · exact h.settled
  · rw [hl]
    exact h.before
  · rw [hl]
    exact h.after

theorem called (h : S.Sound c r) (hc : Called c clock d a) (q : Request) :
    S.Sound d (r.afterCall q a) := by
  cases hc with
  | reentrant => exact h.skipped q _
  | rateLimited => exact h.skipped q _
  | unchanged idle =>
    have hn := delivering?_of_idle idle
    exact h.between rfl (.inl rfl) hn hn rfl rfl (Record.lastCompiled_afterCall r q rfl)
  | firstScan idle => exact h.between rfl (.inl rfl) (delivering?_of_idle idle) rfl rfl rfl rfl
  | firstAgain classes idle =>
    exact h.between rfl (.inl rfl) (delivering?_of_idle idle) rfl rfl rfl rfl
  | later idle => exact h.between rfl (.inl rfl) (delivering?_of_idle idle) rfl rfl rfl rfl

theorem fetched (h : S.Sound c r) : S.Sound c (r.fetch c.fetches?) := by
  cases hd : c.delivering? with
  | none => exact h.between rfl (.inl rfl) hd hd rfl rfl (Record.lastCompiled_fetch r _)
  | some w =>
    rw [fetches?_of_delivering hd]
    exact h

theorem ended (h : S.Sound c r) (config : d.config = c.config)
    (index : d.index = c.index ∨ d.index = none) (hc : c.delivering? = none)
    (finished : d.waiting = none) (layer : d.sink.layer = c.sink.layer) (css : d.css = c.css)
    (ho : o.isCompiled = false) : S.Sound d (r.answer (some o)) := by
  apply h.between config index hc (delivering?_of_idle finished) layer css
  cases hu : r.underway with
  | none => simp [Record.answer, hu]
  | some q => simp [Record.answer, hu, Record.lastCompiled, ho]

theorem compiled (h : S.Sound c r) (hu : r.underway = some q) (wrote : S.Wrote q w.css)
    (config : d.config = c.config) (index : d.index = c.index) (finished : d.waiting = none)
    (layer : d.sink.layer = some w.css) (css : d.css = some w.css) (hit : Bool) :
    S.Sound d (r.answer (some (.compiled hit))) := by
  have hl : (r.answer (some (.compiled hit))).lastCompiled = some q := by
    rw [Record.answer_some hu, Record.lastCompiled_cons]
    rfl
  constructor
  · rw [config]
    exact h.config
  · rw [index, config]
    exact h.index
  · simp [delivering?_of_idle finished]
  · intro _
    rw [layer, css]
  · simp [hl]
  · intro q' hq'
    obtain rfl : q = q' := by simpa [hl] using hq'
    exact ⟨w.css, css, wrote⟩

theorem delivered (h : S.Sound c r) (hu : r.underway = some q) (wrote : S.Wrote q w.css)
    (hd : Delivered c w d a) : S.Sound d (r.answer a) := by
  cases hd with
  | plain =>
    apply h.compiled hu wrote
    · rfl
    · rfl
    · rfl
    · rfl
    · rfl
  | handover critical =>
    have hl : ((((c.sink.write w.css).installCritical
        (pruneCritical (coverage w.css) critical)).awaitFrame).layer) = some w.css := by
      rw [Sink.awaitFrame]
      split <;> rfl
    constructor
    · exact h.config
    · exact h.index
    · intro v hv
      obtain rfl : w = v := by simpa [delivering?] using hv
      exact ⟨hl, q, hu, wrote⟩
    · simp [delivering?]
    · exact h.before
    · exact h.after

theorem wrote (hk : Kept c r) (covers : S.Covers (r.fetch c.fetches?)) {classes : TextSet}
    {theme css : Text} (waits : c.waiting = some (.forTheme classes))
    (usable : usable c.theme.text = some theme) (supplied : S.Supplies theme classes css) :
    ∃ q, (r.fetch c.fetches?).underway = some q ∧ S.Wrote q css := by
  obtain ⟨q, hq, rfl⟩ := (hk.fetched c.fetches?).asked _ waits
  have hf : c.fetches? = some theme := (fetches?_of_theme waits).trans usable
  have hb : isBlankText theme = false := by
    rw [Compiler.usable, Option.filter_eq_some_iff] at usable
    simpa using usable.2
  rw [hf] at hq covers ⊢
  refine ⟨q, hq, theme, covers.themes theme List.mem_cons_self, ?_, hb, supplied⟩
  rw [Record.underway_fetch, Option.map_eq_some_iff] at hq
  obtain ⟨q', -, rfl⟩ := hq
  rfl

theorem resumed (h : S.Sound c r) (hk : Kept c r) (covers : S.Covers (r.fetch c.fetches?))
    (stocks : S.Stocks cache) (distinct : Set.InjOn fingerprint S.themes)
    (hr : Resumed c cache now d cache' a) :
    S.Sound d ((r.fetch c.fetches?).answer a) ∧ S.Stocks cache' := by
  have hf := h.fetched
  have themed {classes : TextSet} {theme : Text} (waits : c.waiting = some (.forTheme classes))
      (usable : usable c.theme.text = some theme) :
      theme ∈ S.themes ∧ classes ∈ S.classSets := by
    have hft : c.fetches? = some theme := (fetches?_of_theme waits).trans usable
    obtain ⟨q, hq, rfl⟩ := hk.asked _ waits
    rw [hft] at covers
    exact ⟨covers.themes _ List.mem_cons_self, covers.classSets _ (hk.underway q hq)⟩
  cases hr with
  | idle => exact ⟨hf, stocks⟩
  | themeless classes waits =>
    exact ⟨hf.ended rfl (.inl rfl) (delivering?_of_theme waits) rfl rfl rfl rfl, stocks⟩
  | hit classes theme entry _ _ waits usable found after =>
    have supplied := stocks.stored (themed waits usable).1 found
    obtain ⟨q, hq, hw⟩ := wrote hk covers waits usable supplied
    have hs := hf.congr (d := c.withFetch) rfl rfl rfl rfl rfl
    exact ⟨hs.delivered hq hw after, stocks.afterGet _ _⟩
  | malformed classes theme error waits =>
    exact ⟨hf.ended rfl (.inr rfl) (delivering?_of_theme waits) rfl rfl rfl rfl,
      stocks.afterGet _ _⟩
  | made classes theme index _ _ waits usable missing read after =>
    obtain ⟨ht, hc⟩ := themed waits usable
    have hb := h.indexFor distinct ht read
    have made : freshLayer c.config theme classes = .ok (index.render classes c.config.layer) := by
      rw [freshLayer, hb]
    have supplied : S.Supplies theme classes (index.render classes c.config.layer) :=
      ⟨c.config, h.config, classes, hc, rfl, made⟩
    obtain ⟨q, hq, hw⟩ := wrote hk covers waits usable supplied
    have hs : S.Sound { c.withFetch with index := some (fingerprint theme, index) }
        (r.fetch c.fetches?) := by
      constructor
      · exact h.config
      · intro hash i hi
        obtain ⟨rfl, rfl⟩ : fingerprint theme = hash ∧ index = i := by simpa using hi
        exact ⟨theme, ht, rfl, hb⟩
      · exact hf.delivering
      · exact hf.settled
      · exact hf.before
      · exact hf.after
    exact ⟨hs.delivered hq hw after, (stocks.afterGet _ _).put distinct ht supplied now⟩
  | firstFrame w waits =>
    have hd : c.delivering? = some w := by rw [delivering?, waits]
    refine ⟨?_, stocks⟩
    constructor
    · exact hf.config
    · exact hf.index
    · intro v hv
      obtain rfl : w = v := by simpa [delivering?] using hv
      obtain ⟨hl, hq⟩ := hf.delivering w hd
      rw [← hl]
      refine ⟨?_, hq⟩
      rw [Sink.awaitFrame]
      split <;> rfl
    · simp [delivering?]
    · exact hf.before
    · exact hf.after
  | secondFrame w waits =>
    have hd : c.delivering? = some w := by rw [delivering?, waits]
    obtain ⟨hl, q, hq, hw⟩ := hf.delivering w hd
    refine ⟨hf.compiled hq hw ?_ ?_ ?_ ?_ ?_ _, stocks⟩
    · rfl
    · rfl
    · rfl
    · exact hl
    · rfl

end Sound

structure Holds (S : Scope) (w : Workshop) : Prop where
  stocks : S.Stocks w.cache
  regular : ∀ b ∈ w.benches, b.Regular
  sound : ∀ b ∈ w.benches, S.Sound b.compiler b.record

theorem Covers.of_afterCall {q : Request} {r : Record} (h : S.Covers (r.afterCall q a)) :
    S.Covers r := by
  cases a with
  | none => exact ⟨h.themes, fun s hs => h.classSets s (List.mem_cons_of_mem _ hs)⟩
  | some o =>
    cases o with
    | unchanged => exact ⟨h.themes, fun s hs => h.classSets s (List.mem_cons_of_mem _ hs)⟩
    | compiled hit => exact ⟨h.themes, h.classSets⟩
    | skipped reason => exact ⟨h.themes, h.classSets⟩
    | failed error => exact ⟨h.themes, h.classSets⟩

theorem Covers.of_answer (h : S.Covers (r.answer a)) : S.Covers r := by
  cases a with
  | none => exact h
  | some o =>
    cases hu : r.underway with
    | none => simpa [Record.answer, hu] using h
    | some q =>
      rw [Record.answer_some hu] at h
      exact ⟨h.themes, h.classSets⟩

theorem Covers.of_fetch {theme : Option Text} (h : S.Covers (r.fetch theme)) : S.Covers r := by
  cases theme with
  | none => exact h
  | some t => exact ⟨fun s hs => h.themes s (List.mem_cons_of_mem _ hs), h.classSets⟩

theorem Covers.of_move {b : Bench} {cache : Store} {m : Move}
    (h : S.Covers (b.move cache m).1.record) : S.Covers b.record := by
  cases m with
  | call clock => exact h.of_afterCall
  | resume now => exact h.of_answer.of_fetch
  | observe token => exact h
  | setTheme theme => exact h
  | clearTheme => exact h
  | setCritical css => exact h

theorem Sound.move {b : Bench} {cache : Store} {m : Move} (h : S.Sound b.compiler b.record)
    (hk : b.Regular) (covers : S.Covers (b.move cache m).1.record) (stocks : S.Stocks cache)
    (distinct : Set.InjOn fingerprint S.themes) :
    S.Sound (b.move cache m).1.compiler (b.move cache m).1.record ∧
      S.Stocks (b.move cache m).2 := by
  cases m with
  | call clock =>
    have hs := h.called (Compiler.called b.compiler cache clock)
      ⟨clock, b.compiler.requested, none⟩
    refine ⟨hs, ?_⟩
    rw [show (b.move cache (.call clock)).2 = cache from call_cache _ _ _]
    exact stocks
  | resume now =>
    exact h.resumed hk.2 covers.of_answer stocks distinct (Compiler.resumed b.compiler cache now)
  | observe token => exact ⟨h.congr rfl rfl rfl rfl rfl, stocks⟩
  | setTheme theme => exact ⟨h.congr rfl rfl rfl rfl rfl, stocks⟩
  | clearTheme => exact ⟨h.congr rfl rfl rfl rfl rfl, stocks⟩
  | setCritical css => exact ⟨h.congr rfl rfl rfl rfl rfl, stocks⟩

/-- All passes of a workshop so far are in the scope. -/
def CoversAll (S : Scope) (w : Workshop) : Prop := ∀ b ∈ w.benches, S.Covers b.record

theorem CoversAll.of_move {w : Workshop} {i : Nat} {m : Move} (h : S.CoversAll (w.move i m)) :
    S.CoversAll w := by
  intro b hb
  obtain ⟨j, hj⟩ := List.mem_iff_getElem?.mp hb
  by_cases he : i = j
  · subst he
    exact (h _ (List.mem_of_getElem? (Workshop.bench_move_self hj m))).of_move
  · exact h b (List.mem_of_getElem? ((Workshop.bench_move_of_ne w he m).trans hj))

theorem CoversAll.of_run {w : Workshop} {ms : List (Nat × Move)} (h : S.CoversAll (w.run ms)) :
    S.CoversAll w := by
  induction ms generalizing w with
  | nil => exact h
  | cons m ms ih => exact (ih h).of_move

theorem Holds.move {w : Workshop} {i : Nat} {m : Move} (h : S.Holds w)
    (covers : S.CoversAll (w.move i m)) (distinct : Set.InjOn fingerprint S.themes) :
    S.Holds (w.move i m) := by
  cases hb : w.benches[i]? with
  | none => rwa [Workshop.move, hb]
  | some b =>
    have hm := List.mem_of_getElem? hb
    have hn := covers _ (List.mem_of_getElem? (Workshop.bench_move_self hb m))
    obtain ⟨hs, hc⟩ := (h.sound b hm).move (h.regular b hm) hn h.stocks distinct
    constructor
    · rw [Workshop.move_of_bench hb]
      exact hc
    · intro b' hb'
      rcases Workshop.mem_benches_move hb' with hb' | ⟨a, -, ha, rfl⟩
      · exact h.regular b' hb'
      · obtain rfl : b = a := Option.some.inj (hb.symm.trans ha)
        exact (h.regular b hm).move _ _
    · intro b' hb'
      rcases Workshop.mem_benches_move hb' with hb' | ⟨a, -, ha, rfl⟩
      · exact h.sound b' hb'
      · obtain rfl : b = a := Option.some.inj (hb.symm.trans ha)
        exact hs

/-- What holds at the start of a run holds at its end, when the scope covers all
passes of the run. -/
theorem Holds.run {w : Workshop} {ms : List (Nat × Move)} (h : S.Holds w)
    (covers : S.CoversAll (w.run ms)) (distinct : Set.InjOn fingerprint S.themes) :
    S.Holds (w.run ms) := by
  induction ms generalizing w with
  | nil => exact h
  | cons m ms ih =>
    have rest : S.CoversAll ((w.move m.1 m.2).run ms) := covers
    exact ih (h.move rest.of_run distinct) rest

end Scope

end UtilityLayer.Compiler
