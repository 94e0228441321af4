import UtilityLayer.Cache.Memory
import UtilityLayer.Event

/-!
# Cache stores

A store is a cache in memory, or one that finds nothing and refuses every put.
-/

set_option autoImplicit false

namespace UtilityLayer.Cache

open Compiler

namespace Memory

def putEvents (m : Memory) (e : Entry) : List Event := (m.store e).evicted.map .evicted

def getEvents (m : Memory) (key : Text) (now : UInt64) : List Event :=
  if m.look key now = .expired then [.entryExpired] else []

end Memory

inductive Store where
  | memory (m : Memory)
  | refusing (detail : Text)

namespace Store

def get? : Store → Text → UInt64 → Option Entry
  | memory m, key, now => m.get? key now
  | refusing _, _, _ => none

def afterGet : Store → Text → UInt64 → Store
  | memory m, key, now => memory (m.afterGet key now)
  | refusing d, _, _ => refusing d

def getEvents : Store → Text → UInt64 → List Event
  | memory m, key, now => m.getEvents key now
  | refusing _, _, _ => []

def put : Store → Entry → Store
  | memory m, e => memory (m.put e)
  | refusing d, _ => refusing d

def putEvents : Store → Entry → List Event
  | memory m, e => m.putEvents e
  | refusing d, _ => [.cacheRefused (.cache d)]

end Store

end UtilityLayer.Cache
