import UtilityLayer.TextSet

/-!
# What a compiler is connected to

The theme it fetches, the classes it is told of, and the sink that holds the
layer and the critical stylesheet. Each counts what is asked of it.
-/

set_option autoImplicit false

namespace UtilityLayer.Compiler

structure ThemeFeed where
  text : Option Text
  fetches : Nat := 0

def ThemeFeed.fetched (f : ThemeFeed) : ThemeFeed := { f with fetches := f.fetches + 1 }

structure Scanner where
  fixed : TextSet
  observed : TextSet := .empty
  scans : Nat := 0

namespace Scanner

def scanned (s : Scanner) : Scanner := { s with scans := s.scans + 1 }

def observe (s : Scanner) (token : Text) : Scanner := { s with observed := s.observed.insert token }

end Scanner

/-- `countsFrames` tells whether the sink keeps count of the frames it waits for. -/
structure Sink where
  layer : Option Text := none
  writes : Nat := 0
  critical : Option Text := none
  history : List Text := []
  frames : Nat := 0
  countsFrames : Bool := true

namespace Sink

def write (s : Sink) (css : Text) : Sink := { s with layer := some css, writes := s.writes + 1 }

def installCritical (s : Sink) (css : Text) : Sink :=
  { s with critical := some css, history := s.history ++ [css] }

def dropCritical (s : Sink) : Sink := { s with critical := none }

def awaitFrame (s : Sink) : Sink :=
  if s.countsFrames then { s with frames := s.frames + 1 } else s

end Sink

end UtilityLayer.Compiler
