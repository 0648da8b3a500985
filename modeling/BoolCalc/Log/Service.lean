import BoolCalc.Log.Buffer

namespace BoolCalc.Log

/-!
# Where events go

* `Sink`, `Sink.print` : what becomes of an event, and what of it reaches the console;
* `Service`, `Service.accepts` : a sink behind a level;
* `Filter`, `Entry` : the levels of a logging facade, and what it is sent;
* `Entry.facadeLine` : the line a facade receives.
-/

/-- What becomes of an event that a service lets through. -/
inductive Sink where
  /-- A line on the console: `Event.detailed` for errors, `Event.line` for others. -/
  | console
  /-- A line of JSON on the console, `Event.toJson`. -/
  | structured
  | silent
  /-- The event goes into a `Buffer`. -/
  | buffer
  /-- The event goes to a logging facade, see `Entry.facadeLine`. -/
  | facade
  deriving DecidableEq, Repr, Inhabited

/-- What the event `e` adds to the console at the time `timestamp` in milliseconds. -/
def Sink.print (s : Sink) (timestamp : Nat) (e : Event) : String :=
  match s with
  | .console => (if e.level = .error then e.detailed else e.line) ++ "\n"
  | .structured => (e.toJson timestamp).compact ++ "\n"
  | .silent | .buffer | .facade => ""

/-- A `sink` behind a level. -/
structure Service where
  sink : Sink
  minLevel : Level
  deriving DecidableEq, Repr, Inhabited

/-- Critical events of this level and graver ones always get through, see `Service.accepts`. -/
def securityLevel : Level := .ofSecurityRank Limits.securityLevel

/-- True if `s` lets `e` through: `e` is not too detailed for `s.minLevel`, or it is critical. -/
def Service.accepts (s : Service) (e : Event) : Bool :=
  e.level.atMost s.minLevel || (e.level.atMost securityLevel && e.severity == .critical)

/-! ### The facade -/

/-- The most detailed level that a facade passes on; `off` passes on nothing. -/
inductive Filter where
  | off
  | error
  | warn
  | info
  | debug
  | trace
  deriving DecidableEq, Repr, Inhabited

namespace Filter

/-- The filter called `name`, in any case of its letters. -/
def ofName? (name : String) : Option Filter :=
  match String.ofList (name.toList.map Char.toLower) with
  | "off" => some .off
  | "error" => some .error
  | "warn" => some .warn
  | "info" => some .info
  | "debug" => some .debug
  | "trace" => some .trace
  | _ => none

/-- The level of a service that sends a facade all it passes on; errors are sent even for `off`. -/
def minLevel : Filter → Level
  | .off | .error => .error
  | .warn => .warning
  | .info => .info
  | .debug | .trace => .debug

/-- True if the facade passes the level `l` on. -/
def admits (f : Filter) (l : Level) : Bool := f != .off && l.atMost f.minLevel

end Filter

/-- What reaches a facade: an `Event` of the pipeline, or a note of the service around it. -/
inductive Entry where
  | event (e : Event)
  | note (level : Level) (text : String)
  deriving DecidableEq, Repr, Inhabited

namespace Entry

def level : Entry → Level
  | .event e => e.level
  | .note l _ => l

/-- The event of an entry, if it is no `.note`. -/
def event? : Entry → Option Event
  | .event e => some e
  | .note .. => none

/-- The line a facade receives: level, the part of the program, and the message of the entry. -/
def facadeLine : Entry → String
  | .event e => s!"{e.level.tag} boolexpr_compiler: {e.line}"
  | .note l text => s!"{l.tag} boolexpr_service: {text}"

end Entry

end BoolCalc.Log
