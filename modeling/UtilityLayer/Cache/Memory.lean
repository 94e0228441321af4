import UtilityLayer.Duration
import UtilityLayer.Keyed
import UtilityLayer.TextSet

/-!
# The cache in memory

A compiled layer is stored with its creation time in milliseconds and the hash
of its theme, under a key that joins the class set and this hash. The cache holds
entries by key, and the keys in the order of their last use. A put makes its
key the latest and drops the earliest keys while the cache is over capacity. A
get of a live entry makes its key the latest; an expired entry is dropped.
`toList` is the cache as entries in the order of last use.
-/

set_option autoImplicit false

namespace UtilityLayer.Cache

structure Entry where
  key : Text
  css : Text
  timestamp : UInt64
  themeHash : Text
  deriving DecidableEq, Repr

def keyOf (classes : TextSet) (themeHash : Text) : Text := classes.joined ++ '-' :: themeHash

/-- Older than `ttl`. An entry from the future has no age. -/
def Entry.isStale (e : Entry) (ttl : Duration) (now : UInt64) : Bool :=
  ttl.millis < now.toNat - e.timestamp.toNat

structure Memory where
  capacity : Nat
  ttl : Duration
  entries : List (Text × Entry)
  recency : List Text

namespace Memory

def empty (capacity : Nat) (ttl : Duration) : Memory := ⟨max capacity 1, ttl, [], []⟩

def size (m : Memory) : Nat := m.entries.length

def toList (m : Memory) : List Entry := m.recency.filterMap fun k => Keyed.get? k m.entries

def touch (m : Memory) (key : Text) : Memory :=
  { m with recency := m.recency.erase key ++ [key] }

def forget (m : Memory) (key : Text) : Memory :=
  { m with entries := Keyed.erase key m.entries, recency := m.recency.filter (· ≠ key) }

/-- The keys popped from the front of the queue while there are more than
`capacity` entries, and the queue and the entries without them. -/
def shed (capacity : Nat) :
    List Text → List (Text × Entry) → List Text × List Text × List (Text × Entry)
  | [], es => ([], [], es)
  | k :: ks, es =>
    if capacity < es.length then
      let (popped, left) := shed capacity ks (Keyed.erase k es)
      (k :: popped, left)
    else ([], k :: ks, es)

def evicted (m : Memory) : List Text := (shed m.capacity m.recency m.entries).1

def evict (m : Memory) : Memory :=
  let left := (shed m.capacity m.recency m.entries).2
  { m with recency := left.1, entries := left.2 }

def store (m : Memory) (e : Entry) : Memory :=
  { m with entries := Keyed.set e.key e m.entries }.touch e.key

def put (m : Memory) (e : Entry) : Memory := (m.store e).evict

inductive Found where
  | missing
  | expired
  | live (entry : Entry)
  deriving DecidableEq, Repr

def look (m : Memory) (key : Text) (now : UInt64) : Found :=
  match Keyed.get? key m.entries with
  | none => .missing
  | some e => if e.isStale m.ttl now then .expired else .live e

def get? (m : Memory) (key : Text) (now : UInt64) : Option Entry :=
  match m.look key now with
  | .live e => some e
  | _ => none

def afterGet (m : Memory) (key : Text) (now : UInt64) : Memory :=
  match m.look key now with
  | .missing => m
  | .expired => m.forget key
  | .live _ => m.touch key

end Memory

end UtilityLayer.Cache
