import BoolCalc.Json.Writer
import BoolCalc.Limits
import BoolCalc.Log.Code
import BoolCalc.Log.Level
import BoolCalc.Source.Span
import BoolCalc.Text.Truncation

namespace BoolCalc.Log

/-!
# Log events

* `Context` : pairs of a key and a value, in the order of the keys;
* `Event` : a level, a code, a message, perhaps a span, and a context;
* `Event.failure`, `Event.completion`, `Event.stage`, `Event.caution` : the events the program reports,
  with the messages of failures and completions cut to the limit;
* `Event.line`, `Event.detailed`, `Event.toJson` : the three printed forms.
-/

/-- Keys with their values, in the order of the keys' code points and no key twice, as `Context.put` keeps them. -/
abbrev Context := List (String × String)

/-- The context with `key` set to `value`, whatever it was set to before. -/
def Context.put (key value : String) : Context → Context
  | [] => [(key, value)]
  | (k, v) :: rest =>
    if key = k then (key, value) :: rest
    else if key < k then (key, value) :: (k, v) :: rest
    else (k, v) :: Context.put key value rest

/-- What the program reports. -/
structure Event where
  /-- How much detail it belongs to; `Service.accepts` decides by it. -/
  level : Level
  code : Code
  message : String
  span : Option Span := none
  /-- Further facts, `request` and `duration_us` for example. -/
  context : Context := []
  deriving DecidableEq, Repr, Inhabited

namespace Event

/-! ### Making events -/

/-- An event of the level `error`. -/
def error (code : Code) (message : String) : Event := { level := .error, code, message }

/-- An event of the level `warning`, with `Code.plainWarning`. -/
def warning (message : String) : Event := { level := .warning, code := .plainWarning, message }

/-- An event of the level `info`, with `Code.plainInfo`. -/
def info (message : String) : Event := { level := .info, code := .plainInfo, message }

/-- An event of the level `info`, with a code of its own. -/
def success (code : Code) (message : String) : Event := { level := .info, code, message }

/-- An event of the level `debug`, with `Code.plainDebug`. -/
def debug (message : String) : Event := { level := .debug, code := .plainDebug, message }

/-- An event of the level `debug`, with a code of its own. -/
def debugWithCode (code : Code) (message : String) : Event := { level := .debug, code, message }

/-- The event `e` with `key` set to `value` in its context. -/
def withContext (e : Event) (key value : String) : Event :=
  { e with context := Context.put key value e.context }

/-- The event `e` with all `pairs` set in its context, from left to right. -/
def withContexts (e : Event) (pairs : List (String × String)) : Event :=
  pairs.foldl (fun e (key, value) => e.withContext key value) e

def withSpan (e : Event) (span : Option Span) : Event := { e with span := span }

/-- The longest beginning of `message` within `Limits.logMessage` bytes. -/
def shortened (message : String) : String := Text.truncate Limits.logMessage message

/-- A failure: an error whose message is `shortened`. -/
def failure (code : Code) (message : String) (span : Option Span)
    (context : List (String × String)) : Event :=
  ((error code (shortened message)).withSpan span).withContexts context

/-- A completion worth knowing: information whose message is `shortened`. -/
def completion (code : Code) (message : String) (context : List (String × String)) : Event :=
  (success code (shortened message)).withContexts context

/-- The completion of a stage, for debugging. Its `message` is one of a few fixed ones and needs no cut. -/
def stage (code : Code) (message : String) (context : List (String × String)) : Event :=
  (debugWithCode code message).withContexts context

/-- A warning with the facts in `context`. -/
def caution (message : String) (context : List (String × String)) : Event :=
  (warning message).withContexts context

/-! ### Asking about events -/

def isError (e : Event) : Bool := e.level == .error

def isWarning (e : Event) : Bool := e.level == .warning

def category (e : Event) : String := e.code.category

def severity (e : Event) : Severity := e.code.severity

/-! ### Printed forms -/

/-- The position ` at 1:5` in a line, or nothing for an event without span. -/
def spanText (e : Event) : String :=
  match e.span with
  | some s => s!" at {s.start.display}"
  | none => ""

/-- The context ` (k=v, l=w)` in a line, or nothing if it is empty. -/
def contextText (e : Event) : String :=
  if e.context.isEmpty then ""
  else " (" ++ String.intercalate ", " (e.context.map fun (k, v) => k ++ "=" ++ v) ++ ")"

/-- The form for a log line: `[ERROR] E040 - message at 1:5 (k=v)`. -/
def line (e : Event) : String :=
  s!"[{e.level.tag}] {e.code.text} - {e.message}{e.spanText}{e.contextText}"

/-- The form for an error report: `e.line` and what is known about `e.code`, a fact to a line. -/
def detailed (e : Event) : String :=
  let facts := s!"{e.line}\n  Category: {e.category}\n  Severity: {e.severity.name}"
  if e.isError then
    let description :=
      if e.code.description == "Unknown error" then ""
      else s!"\n  Description: {e.code.description}"
    s!"{facts}\n  Recoverable: {e.code.isRecoverable}{description}" ++
      s!"\n  Recommended action: {e.code.action}"
  else facts

/-- The member `span` of `Event.toJson`. -/
def spanJson (s : Span) : Json :=
  .object [("column", .nat s.start.column), ("length", .nat s.length), ("line", .nat s.start.line),
    ("offset", .nat s.start.offset)]

/-- The form for other programs, at the time `timestamp` in milliseconds; keys are sorted at every level. -/
def toJson (e : Event) (timestamp : Nat) : Json :=
  let context := Json.object (e.context.map fun (k, v) => (k, Json.string v))
  .object ([("category", .string e.category), ("code", .string e.code.text)] ++
    Json.optional "context" (if e.context.isEmpty then none else some context) ++
    [("level", .string e.level.tag), ("message", .string e.message)] ++
    Json.optional "span" (e.span.map spanJson) ++
    [("timestamp_ms", .nat timestamp)])

end Event

end BoolCalc.Log
