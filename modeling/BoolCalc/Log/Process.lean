import BoolCalc.Environment
import BoolCalc.Log.Service
import BoolCalc.Pipeline.Work

namespace BoolCalc

/-!
# The log of a running program

* `LogState` : the logging preferences, the service and the buffer of a running program;
* `LogState.setPreferences`, `LogState.install`, `LogState.setUp` : each can be done once;
* `LogState.dispatch`, `LogState.deliver` : an event on its way to the sink, without and with its mark;
* `LogState.perform` : a piece of work whose events are delivered;
* `LogState.reportSafely` : an error that is reported even before there is a service.

What is printed on the console goes to the end of `console`.
-/

/-- The log of a running program: what was set up, and what became of the events. -/
structure LogState where
  environment : Environment := []
  /-- The logging preferences, once `setPreferences` has set them. -/
  preferences : Option Preferences.Logging := none
  /-- The service, once `install` has put it in place. -/
  service : Option Log.Service := none
  /-- What a service with `Sink.buffer` has kept. -/
  buffer : Log.Buffer := .empty
  /-- The request that `dispatch` marks events with. -/
  request : Option String := none
  console : String := ""
  deriving Inhabited

/-- Structured logging has nowhere to go when nothing is printed: `structured` needs `console`. -/
def Preferences.Logging.validate (p : Preferences.Logging) : Except String Unit :=
  if !p.console && p.structured then
    .error "Structured logging requires console logging to be enabled"
  else .ok ()

/-- The service that the logging preferences `p` ask for. -/
def Preferences.Logging.service (p : Preferences.Logging) : Log.Service where
  sink := if !p.console then .silent else if p.structured then .structured else .console
  minLevel := p.minLevel

/-- The preferences `p` and the `Limits` of the log in words. -/
def Preferences.Logging.summary (p : Preferences.Logging) : String :=
  s!"Logging configuration:\n  min level: {p.minLevel.tag}\n" ++
    s!"  structured: {Expr.boolText p.structured}\n  console: {Expr.boolText p.console}\n" ++
    s!"  buffer size: {Limits.logBuffer}\n  max message length: {Limits.logMessage}\n" ++
    s!"  security level: {Log.securityLevel.tag}"

namespace LogState

/-- The logging preferences in force: `s.preferences`, or else those of `s.environment`. -/
def current (s : LogState) : Preferences.Logging := s.preferences.getD s.environment.logging

def isInitialized (s : LogState) : Bool := s.service.isSome

/-- Whether the service, if there is one, lets events at the level `.debug` through. -/
def debugEnabled (s : LogState) : Bool := s.service.any fun v => Log.Level.debug.atMost v.minLevel

/-- Sets the logging preferences, unless `p` contradicts itself or some are set already. -/
def setPreferences (s : LogState) (p : Preferences.Logging) : Except String Unit × LogState :=
  match p.validate with
  | .error e => (.error e, s)
  | .ok () =>
    match s.preferences with
    | some _ => (.error "Runtime preferences already initialized", s)
    | none => (.ok (), { s with preferences := some p })

/-- Hands the event `e` to the service `v`, which may not accept it. -/
def send (s : LogState) (v : Log.Service) (timestamp : Nat) (e : Log.Event) : LogState :=
  if v.accepts e then
    { s with
      console := s.console ++ v.sink.print timestamp e,
      buffer := if v.sink = .buffer then s.buffer.push e else s.buffer }
  else s

/-- Installs the service `v`, unless there is one. -/
def install (s : LogState) (v : Log.Service) : Except String Unit × LogState :=
  match s.service with
  | some _ => (.error "Global logger already initialized", s)
  | none => (.ok (), { s with service := some v })

/-- Installs the service that `s.current` asks for, and reports it. -/
def setUp (s : LogState) (timestamp : Nat) : Except String Unit × LogState :=
  match s.current.validate with
  | .error e => (.error s!"Configuration validation failed: {e}", s)
  | .ok () =>
    let v := s.current.service
    match s.install v with
    | (.error e, s) => (.error e, s)
    | (.ok (), s) =>
      let s := s.send v timestamp (.success .systemInitialized "Global logging system initialized")
      let s := if Log.Level.debug.atMost v.minLevel then
        s.send v timestamp (.debug s.current.summary) else s
      (.ok (), s)

/-- The event `e` on its way to the service, if there is one, with the mark `s.request`. -/
def dispatch (s : LogState) (timestamp : Nat) (e : Log.Event) : LogState :=
  match s.service with
  | some v => s.send v timestamp (e.forRequest s.request)
  | none => s

/-- The event `e`, which has its mark already, on its way to the service. -/
def deliver (s : LogState) (timestamp : Nat) (e : Log.Event) : LogState :=
  match s.service with
  | some v => s.send v timestamp e
  | none => s

/-- Runs the work `w` in the memory `m` and delivers all events of the memory behind it. -/
def perform (s : LogState) (timestamp : Nat) (w : Work α) (m : Memory) : α × LogState :=
  let (a, request, m) := w.run s.request m
  (a, m.events.foldl (·.deliver timestamp) { s with request := request })

/-- Reports an error without the mark of a request. Without a service it goes to the `console`. -/
def reportSafely (s : LogState) (timestamp : Nat) (code : Log.Code) (message : String) : LogState :=
  match s.service with
  | some v => s.send v timestamp (.error code message)
  | none => { s with console := s.console ++ s!"[ERROR] FALLBACK: [{code.text}] {message}\n" }

end LogState

end BoolCalc
