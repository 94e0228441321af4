import UtilityLayer.Event
import UtilityLayer.Layer.Critical
import UtilityLayer.Layer.Index

/-!
# Events of generation and handover

What the readers, the generator and the critical filter report, derived from
their inputs in the order in which the work is done. Work that ends in an error
reports what came before it.
-/

set_option autoImplicit false

namespace UtilityLayer

open Css

def Token.events (t : Token) : List Event := t.ignored.map (.ignoredSegment t.raw)

/-- One event for every text that another one replaces. -/
def replacements (token : Text) : List Text → List Event
  | old :: new :: rest => .replacedMedia token old new :: replacements token (new :: rest)
  | _ => []

def Token.composeEvents (t : Token) : List Event :=
  replacements t.raw ((t.variants.filter Variant.isMedia).map Variant.selector)

namespace Utility

def authoredEvents (theme : Text) : List Event :=
  ((authored theme).filterMap Authored.unsupported?).map .unsupportedSelector

end Utility

namespace Layer

def coverageEvents (css : Text) : List Event :=
  match coverage? css with
  | .ok _ => []
  | .error e => [.unreadableLayer e]

def droppedHead? (covered : TextSet) : Node → Option Text
  | .block head _ => if isCovered covered head then some head else none
  | _ => none

def criticalEvents (covered : TextSet) (critical : Text) : List Event :=
  match readTree isGrouping (withoutComments critical) with
  | .error e => [.unreadableCritical e]
  | .ok ns =>
    ((beforeError (leavesOf ns)).filterMap (droppedHead? covered)).map .droppedCritical ++
      ((firstError (leavesOf ns)).map Event.unreadableCritical).toList

namespace Index

def indexed (index : Index) : Event :=
  .indexedTheme index.vars.size index.utilities.size index.custom.size

def buildEvents (theme : Text) (colors : Utility.Colors) : List Event :=
  Utility.authoredEvents theme ++
    match build theme colors with
    | .ok index => [index.indexed]
    | .error _ => []

def fateEvents (index : Index) (t : Token) : List Event :=
  match index.fate t with
  | .partly => [.unknownVariants t.raw t.ignored]
  | .unresolved => [.noUtility t.raw]
  | .styled => []

def generateEvents (index : Index) (classes : TextSet) : List Event :=
  let styled := index.withFate .styled classes
  (index.tokens classes).flatMap (fun t => t.events ++ index.fateEvents t) ++
    styled.flatMap (fun t => if (index.generatedRule? t).isSome then t.composeEvents else []) ++
    styled.flatMap fun t => (index.customRules t).flatMap fun _ => t.composeEvents

end Index

end Layer

end UtilityLayer
