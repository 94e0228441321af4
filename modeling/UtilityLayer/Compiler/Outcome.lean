import UtilityLayer.Css.Statement

/-!
# Outcomes of a compile call

A call compiles, finds nothing to do, is skipped for a reason, or fails and
leaves the layer of the last pass in place.
-/

set_option autoImplicit false

namespace UtilityLayer.Compiler

open Css

inductive Skip where
  | reentrant
  | rateLimited
  | themeUnavailable
  deriving DecidableEq, Repr

def Skip.message : Skip → Text
  | reentrant => "pass already in flight"
  | rateLimited => "rate limited"
  | themeUnavailable => "theme unavailable"

inductive Fault where
  | generation (cause : SheetError)
  | cache (detail : Text)
  deriving DecidableEq, Repr

def Fault.message : Fault → Text
  | generation cause => "utility generation failed: " ++ cause.message
  | cache detail => "cache error: " ++ detail

inductive Outcome where
  | compiled (cacheHit : Bool)
  | unchanged
  | skipped (reason : Skip)
  | failed (error : Fault)
  deriving DecidableEq, Repr

def Outcome.isCompiled : Outcome → Bool
  | compiled _ => true
  | _ => false

end UtilityLayer.Compiler
