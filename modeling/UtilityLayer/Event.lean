import UtilityLayer.Compiler.Outcome
import UtilityLayer.Text.Quoted

/-!
# Events

What the library reports while it works. Every event has a severity and a
message; a log shows the events down to a chosen severity, each as a line with
its severity in brackets.
-/

set_option autoImplicit false

namespace UtilityLayer

open Text Css Compiler

inductive Severity where
  | error
  | warn
  | info
  | debug
  | trace
  deriving DecidableEq, Repr

namespace Severity

def rank : Severity → Nat
  | error => 0
  | warn => 1
  | info => 2
  | debug => 3
  | trace => 4

def label : Severity → Text
  | error => "ERROR"
  | warn => "WARN"
  | info => "INFO"
  | debug => "DEBUG"
  | trace => "TRACE"

end Severity

inductive Event where
  | ignoredSegment (token segment : Text)
  | unsupportedSelector (selector : Text)
  | replacedMedia (token old new : Text)
  | unreadableLayer (error : SheetError)
  | unreadableCritical (error : SheetError)
  | droppedCritical (head : Text)
  | indexedTheme (declared generated custom : Nat)
  | unknownVariants (token : Text) (segments : List Text)
  | noUtility (token : Text)
  | noUtilities (tokens : List Text)
  | evicted (key : Text)
  | entryExpired
  | skipped (reason : Skip)
  | firstScan (classes : Nat)
  | unchangedClasses
  | cacheHit (classes : Nat)
  | themeChanged (hash : Text)
  | passFailed (error : Fault)
  | generatedRules (emitted duplicates unresolved partials : Nat)
  | cacheRefused (error : Fault)
  | wroteLayer (name : Text) (bytes classes : Nat)
  | retractedCritical
  deriving DecidableEq, Repr

namespace Event

def severity : Event → Severity
  | passFailed _ => .error
  | unreadableCritical _ | cacheRefused _ | skipped .themeUnavailable => .warn
  | wroteLayer .. => .info
  | ignoredSegment .. | unsupportedSelector _ | droppedCritical _ | noUtility _ | evicted _
  | unchangedClasses => .trace
  | _ => .debug

def message : Event → Text
  | ignoredSegment token segment =>
    "token `" ++ token ++ "`: ignoring variant segment `" ++ segment ++ "`"
  | unsupportedSelector selector =>
    "custom utility: skipping unsupported selector `" ++ selector ++ "`"
  | replacedMedia token old new =>
    "token `" ++ token ++ "`: media variant `" ++ old ++ "` replaced by `" ++ new ++ "`"
  | unreadableLayer error => "base classes: unreadable layer text: " ++ error.message
  | unreadableCritical error => "critical CSS left as is: " ++ error.message
  | droppedCritical head => "critical: dropping `" ++ head ++ "`"
  | indexedTheme declared generated custom =>
    "theme index: " ++ decimal declared ++ " variables, " ++ decimal generated ++
      " generated utilities, " ++ decimal custom ++ " custom classes"
  | unknownVariants token segments =>
    "skipping `" ++ token ++ "`: unknown variants " ++ quoteList segments
  | noUtility token => "no utility for `" ++ token ++ "`"
  | noUtilities tokens => "no utility for: " ++ join ", " tokens
  | evicted key => "cache: evicting `" ++ key ++ "`"
  | entryExpired => "cache: entry expired"
  | skipped reason => "compile skipped: " ++ reason.message
  | firstScan classes => "initial scan found " ++ decimal classes ++ " classes"
  | unchangedClasses => "class set unchanged"
  | cacheHit classes => "cache hit for " ++ decimal classes ++ " classes"
  | themeChanged hash => "theme changed, rebuilding index (" ++ hash ++ ")"
  | passFailed error => error.message ++ "; keeping previous layer"
  | generatedRules emitted duplicates unresolved partials =>
    "generated " ++ decimal emitted ++ " rules (" ++ decimal duplicates ++ " duplicates), " ++
      decimal unresolved ++ " unresolved, " ++ decimal partials ++ " skipped"
  | cacheRefused error => error.message
  | wroteLayer name bytes classes =>
    "wrote layer `" ++ name ++ "` (" ++ decimal bytes ++ " bytes, " ++ decimal classes ++ " classes)"
  | retractedCritical => "critical stylesheet retracted"

def line (e : Event) : Text := '[' :: e.severity.label ++ "] " ++ e.message

/-- The log of `events` down to `limit`. A message of several lines stays so. -/
def log (limit : Severity) (events : List Event) : List Text :=
  (events.filter fun e => e.severity.rank ≤ limit.rank).flatMap fun e => pieces (· = '\n') e.line

end Event

end UtilityLayer
