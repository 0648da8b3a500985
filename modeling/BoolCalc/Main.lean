import BoolCalc.Console.Calculator
import BoolCalc.Console.Keeper
import Std.Time.Format

/-!
# The program

* `runCalculator`, `runKeeper` : both commands with the files, the clock and the environment around them;
* `main` : the program, which is `expression-service` under that name and `boolexpr` under any other.

Whatever is decided is decided in `Calculator.run` and `Keeper.run`.
-/

namespace BoolCalc

open Console Store

/-! ### Files -/

/-- The number of an operating system's error, which some calls report as `-n`. -/
def errorNumber (code : UInt32) : Nat := (code.toInt32.toInt).natAbs

/-- Why a file could not be read or written, in the words of `PathFault.message` where there are any. -/
def reasonOf : IO.Error → String
  | .noFileOrDirectory .. => PathFault.noEntry.message
  | .permissionDenied _ code details | .resourceExhausted _ code details
  | .inappropriateType _ code details | .invalidArgument _ code details =>
    match errorNumber code with
    | 20 => PathFault.notFolder.message
    | 21 => PathFault.isFolder.message
    | 36 => PathFault.nameTooLong.message
    | number => s!"{details} (os error {number})"
  | .userError _ => "stream did not contain valid UTF-8"
  | e => toString e

/-- The text at `path`, or `reasonOf` the error. -/
def readText (path : String) : BaseIO (Except String String) := do
  match ← (IO.FS.readFile path).toBaseIO with
  | .ok text => return .ok text
  | .error e => return .error (reasonOf e)

/-- Writes `w.text` to `w.path`; `none` if this succeeds, or else the reason. -/
def writeText (w : Written) : BaseIO (Option String) := do
  match ← (IO.FS.writeFile w.path w.text).toBaseIO with
  | .ok () => return none
  | .error e => return some (reasonOf e)

/-- True if `reason` says that a path leads to nothing, rather than to something that cannot be read. -/
def leadsNowhere (reason : String) : Bool :=
  [PathFault.noEntry, .notFolder, .nameTooLong, .nulCharacter].any (·.message == reason)

/-- The `Disk` behind the path of a store file at the time `now`. -/
def readDisk (path : String) (now : Timestamp) : BaseIO Disk := do
  match ← readText path with
  | .ok text => return { content := .text text, now }
  | .error reason =>
    if leadsNowhere reason then return { content := .missing, now }
    else return { content := .unreadable reason, fault := some reason, now }

/-! ### Clock and environment -/

/-- The milliseconds since the beginning of 1970, or `0` if there is no clock. -/
def milliseconds : BaseIO Nat := do
  match ← Std.Time.Timestamp.now.toBaseIO with
  | .ok t => return t.toMillisecondsSinceUnixEpoch.val.toNat
  | .error _ => return 0

/-- The time of day, or `Timestamp.epoch` if there is no clock. -/
def timestamp : BaseIO Timestamp := do
  match ← Std.Time.Timestamp.now.toBaseIO with
  | .ok t =>
    let text := (Std.Time.DateTime.ofTimestamp t .UTC).format "uuuu-MM-dd'T'HH:mm:ss.SSSSSSSSS'Z'"
    return (Timestamp.ofText? text).getD .epoch
  | .error _ => return .epoch

/-- Those of `Environment.names` that are set, with their values. -/
def readEnvironment : BaseIO Environment :=
  Environment.names.filterMapM fun name => do
    return (← IO.getEnv name).map ((name, ·))

/-! ### The commands -/

/-- Prints `o.output` and `o.errors`; the answer is the exit status. -/
def finish (o : Outcome) : IO UInt32 := do
  IO.print o.output
  IO.eprint o.errors
  return o.status.toUInt32

/-- The calculator's command. A first run shows how long the calculation takes, and the second one reports it as
`elapsed`; without output there is nothing to report. -/
def runCalculator (program : String) (arguments : List String) : IO UInt32 := do
  let requests ← (Calculator.requestPath? arguments).mapM fun path => do return (path, ← readText path)
  let c : Calculator := {
    program
    environment := ← readEnvironment
    read := fun path => (requests.toList.lookup path).getD (.error PathFault.noEntry.message)
    boundsSource := "built-in bounds"
    timestamp := ← milliseconds }
  let start ← IO.monoNanosNow
  let first ← IO.lazyPure fun _ => c.run arguments
  let finished := (← IO.monoNanosNow) - start
  if first.output.isEmpty then finish first
  else finish ({ c with elapsed := finished / 1000 }.run arguments)

/-- The command of stored expressions. Where its file cannot be written, it runs again with this `fault` on its
disk. -/
def runKeeper (arguments : List String) : IO UInt32 := do
  let disk : Disk ← match Keeper.storePath? arguments with
    | some path => readDisk path (← timestamp)
    | none => pure {}
  -- Only the disk can tell whether a file can be written, so the first run takes it for granted.
  let (outcome, written) := ({ disk := fun _ => disk } : Keeper).run arguments
  let fault ← match written with
    | some w => writeText w
    | none => pure none
  match fault with
  | none => finish outcome
  | some fault =>
    finish (({ disk := fun _ => { disk with fault := some fault } } : Keeper).run arguments).1

end BoolCalc

/-- The program: `runKeeper` under the name of the service, `runCalculator` under any other. -/
def main (arguments : List String) : IO UInt32 := do
  let program ← IO.appPath
  if program.fileName = some "expression-service" then BoolCalc.runKeeper arguments
  else BoolCalc.runCalculator program.toString arguments
