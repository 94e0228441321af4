import UtilityLayer.Proofs.Cache.Contents
import UtilityLayer.Proofs.Compiler.Run

/-!
# First passes

What the first call to a compiler comes to when its theme can be read: it makes
its layer, or finds one in the cache. Of two compilers that start one after the
other over one cache the second finds what the first has made.
-/

set_option autoImplicit false

namespace UtilityLayer.Compiler

open Text Layer Cache

structure Setup where
  config : Config
  theme : Option Text
  classes : TextSet
  critical : Option Text

def Setup.bench (s : Setup) : Bench := ⟨fresh s.config s.theme s.classes s.critical, {}⟩

def Workshop.sharing (setups : List Setup) (capacity : Nat) (ttl : Duration) : Workshop :=
  ⟨setups.map Setup.bench, .memory (.empty capacity ttl)⟩

variable {theme : Text} {cache : Store} {now : UInt64}

def Setup.plain (config : Config) (theme : Text) (classes : TextSet) : Setup :=
  ⟨config, some theme, classes, none⟩

def Bench.firstPass (b : Bench) (cache : Store) (now : UInt64) : Bench × Store :=
  (b.move cache (.call .zero)).1.move cache (.resume now)

def Record.ofFirst (theme : Text) (classes : TextSet) (hit : Bool) : Record where
  answers := [(⟨.zero, classes, some theme⟩, .compiled hit)]
  classSets := [classes]
  themes := [theme]

def Setup.called (config : Config) (theme : Text) (classes : TextSet) : Bench where
  compiler :=
    { fresh config (some theme) classes none with
      started := some .zero
      phase := .scanning
      scanner := { fixed := classes, scans := 1 }
      scanned := some classes
      waiting := some (.forTheme classes) }
  record := { underway := some ⟨.zero, classes, none⟩, classSets := [classes] }

theorem firstPass_eq (config : Config) (theme : Text) (classes : TextSet) (cache : Store)
    (now : UInt64) : (Setup.plain config theme classes).bench.firstPass cache now =
      (Setup.called config theme classes).move cache (.resume now) := rfl

theorem firstPass_hit {entry : Entry} (config : Config) (classes : TextSet)
    (nonblank : isBlankText theme = false)
    (found : stored? cache now classes (fingerprint theme) = some entry) :
    ∃ b, (Setup.plain config theme classes).bench.firstPass cache now =
        (b, cache.afterGet (keyOf classes (fingerprint theme)) now) ∧
      b.isIdle ∧ b.compiler.config = config ∧ b.compiler.sink.layer = some entry.css ∧
      b.record = .ofFirst theme classes true := by
  have hu : usable (some theme) = some theme := by simp [usable, nonblank]
  rw [firstPass_eq]
  simp only [Setup.called, Bench.move, resume, fetches?, ThemeFeed.fetched, fresh, hu, run, found,
    deliver, Step.after, record, Sink.write]
  exact ⟨_, rfl, rfl, rfl, rfl, rfl⟩

theorem firstPass_made {index : Layer.Index} (config : Config) (classes : TextSet)
    (nonblank : isBlankText theme = false)
    (missing : stored? cache now classes (fingerprint theme) = none)
    (read : Index.build theme config.colors = .ok index) :
    ∃ b, (Setup.plain config theme classes).bench.firstPass cache now =
        (b, (cache.afterGet (keyOf classes (fingerprint theme)) now).put
          ⟨keyOf classes (fingerprint theme), index.render classes config.layer, now,
            fingerprint theme⟩) ∧
      b.isIdle ∧ b.record = .ofFirst theme classes false := by
  have hu : usable (some theme) = some theme := by simp [usable, nonblank]
  rw [firstPass_eq]
  simp only [Setup.called, Bench.move, resume, fetches?, ThemeFeed.fetched, fresh, hu, run, missing,
    generate, indexFor, read, deliver, Step.after, record, Sink.write]
  exact ⟨_, rfl, rfl, rfl⟩

theorem run_firstPass {w : Workshop} {i : Nat} {b : Bench} (hb : w.benches[i]? = some b)
    (now : UInt64) : w.run [(i, .call .zero), (i, .resume now)] =
      ⟨w.benches.set i (b.firstPass w.cache now).1, (b.firstPass w.cache now).2⟩ := by
  have hm := Workshop.bench_move_self hb (.call .zero)
  have hcache : (w.move i (.call .zero)).cache = w.cache := by
    rw [Workshop.move_of_bench hb]
    exact call_cache _ _ _
  rw [Workshop.run, Workshop.run, Workshop.run, Workshop.move_of_bench hm, hcache,
    Workshop.move_of_bench hb, List.set_set, Bench.firstPass]

theorem run_firstPasses {b₁ b₂ b₁' b₂' : Bench} {cache₁ cache₂ : Store}
    (first : b₁.firstPass cache now = (b₁', cache₁))
    (second : b₂.firstPass cache₁ now = (b₂', cache₂)) :
    (⟨[b₁, b₂], cache⟩ : Workshop).run
      ([(0, .call .zero), (0, .resume now)] ++ [(1, .call .zero), (1, .resume now)]) =
        ⟨[b₁', b₂'], cache₂⟩ := by
  have h₁ : (⟨[b₁, b₂], cache⟩ : Workshop).benches[0]? = some b₁ := rfl
  have h₂ : (⟨[b₁', b₂], cache₁⟩ : Workshop).benches[1]? = some b₂ := rfl
  rw [Workshop.run_append, run_firstPass h₁, first]
  have rest := run_firstPass h₂ now
  rw [second] at rest
  exact rest

def firstPasses : List (Nat × Move) :=
  [(0, .call .zero), (0, .resume 0), (1, .call .zero), (1, .resume 0)]

theorem run_firstPasses_sharing {k : Config} {s t : TextSet} {index : Layer.Index} (k' : Config)
    (capacity : Nat) (ttl : Duration) (nonblank : isBlankText theme = false)
    (read : Index.build theme k.colors = .ok index) (alike : s.joined = t.joined) :
    ∃ b b', ((Workshop.sharing [.plain k theme s, .plain k' theme t] capacity ttl).run
        firstPasses).benches = [b, b'] ∧
      b.record = .ofFirst theme s false ∧ b'.record = .ofFirst theme t true ∧
      b'.isIdle ∧ b'.compiler.config = k' ∧
      b'.compiler.sink.layer = some (index.render s k.layer) := by
  have missing : stored? (.memory (.empty capacity ttl)) 0 s (fingerprint theme) = none := rfl
  obtain ⟨b, first, -, hbr⟩ := firstPass_made k s nonblank missing read
  have found : stored? (.memory ((Memory.empty capacity ttl).put
      ⟨keyOf s (fingerprint theme), index.render s k.layer, 0, fingerprint theme⟩)) 0 t
      (fingerprint theme) = some
        ⟨keyOf s (fingerprint theme), index.render s k.layer, 0, fingerprint theme⟩ := by
    have key : keyOf t (fingerprint theme) = keyOf s (fingerprint theme) := by
      rw [keyOf, keyOf, alike]
    have hget := Memory.get?_put_empty capacity ttl
      ⟨keyOf s (fingerprint theme), index.render s k.layer, 0, fingerprint theme⟩
    rw [stored?, key, Store.get?, hget]
    simp
  obtain ⟨b', second, idle, hcfg, hlayer, hbr'⟩ := firstPass_hit k' t nonblank found
  exact ⟨b, b', congrArg Workshop.benches (run_firstPasses first second), hbr, hbr', idle, hcfg,
    hlayer⟩

end UtilityLayer.Compiler
