import UtilityLayer.Compiler.Config
import UtilityLayer.Compiler.Host

/-!
# Compilers

What a compiler remembers between calls, and where a pass under way waits.
-/

set_option autoImplicit false

namespace UtilityLayer

namespace Compiler

inductive Phase where
  | uninitialized
  | scanning
  | steady
  deriving DecidableEq, Repr

/-- A layer that has been written and is to be recorded when its pass ends. -/
structure Written where
  classes : TextSet
  css : Text
  cacheHit : Bool

inductive Waiting where
  | forTheme (classes : TextSet)
  | forFirstFrame (written : Written)
  | forSecondFrame (written : Written)

inductive State where
  | uninitialized
  | scanning
  | steady
  | compiling
  deriving DecidableEq, Repr

end Compiler

open Compiler in
/-- A compiler with everything it drives except its cache. `index` is the last
theme that was read, under the hash of its text; `layerClasses` is the hash
of the class set behind `css`. -/
structure Compiler where
  config : Config
  theme : ThemeFeed
  scanner : Scanner
  sink : Sink
  phase : Phase := .uninitialized
  started : Option Duration := none
  scanned : Option TextSet := none
  layerClasses : Option Text := none
  index : Option (Text × Layer.Index) := none
  css : Option Text := none
  waiting : Option Waiting := none

namespace Compiler

def state (c : Compiler) : State :=
  if c.waiting.isSome then .compiling
  else match c.phase with
    | .uninitialized => .uninitialized
    | .scanning => .scanning
    | .steady => .steady

end Compiler

end UtilityLayer
