/-!
# Durations

Spans of time in nanoseconds. Whole milliseconds are what remains when the rest
is cut off.
-/

set_option autoImplicit false

namespace UtilityLayer

structure Duration where
  nanos : Nat
  deriving DecidableEq, Repr

namespace Duration

def zero : Duration := ⟨0⟩

def ofMicros (n : Nat) : Duration := ⟨n * 1000⟩

def ofMillis (n : Nat) : Duration := ⟨n * 1000000⟩

def ofSeconds (seconds nanos : Nat) : Duration := ⟨seconds * 1000000000 + nanos⟩

def millis (d : Duration) : Nat := d.nanos / 1000000

def add (d e : Duration) : Duration := ⟨d.nanos + e.nanos⟩

def since (start stop : Duration) : Duration := ⟨stop.nanos - start.nanos⟩

def lt (d e : Duration) : Bool := d.nanos < e.nanos

end Duration

end UtilityLayer
