import BoolCalc.Batch.Evaluate
import BoolCalc.Console.Folder
import BoolCalc.Log.Process
import BoolCalc.Text.Quoted

namespace BoolCalc.Console

/-!
# The calculator's command line

* `Calculator` : what the command finds when it is called;
* `Calculator.evaluate`, `Calculator.showTree`, `Calculator.showTokens`, `Calculator.runBatch` : what it
  can do;
* `Calculator.run` : the whole command.

The log goes to the channel for errors, among the command's own messages.
-/

/-- What the command finds when it is called. -/
structure Calculator where
  /-- The name it was called by, for `usage` and `help`. -/
  program : String := "boolexpr"
  environment : Environment := []
  /-- The text of the file at a path, or why it cannot be read. -/
  read : String → Except String String
  /-- The number of workers of a batch without `--threads`. -/
  workers : Nat := 4
  /-- Where the `Limits` come from, in the words of `help`. -/
  boundsSource : String
  /-- The time of the log, in milliseconds. -/
  timestamp : Nat := 0
  elapsed : Nat := 0

namespace Calculator

def version : String := "0.1.0"

/-! ### Messages -/

/-- The log with a line of the command's own behind it; unlike an event, `line` passes no level. -/
def say (log : LogState) (line : String) : LogState := { log with console := log.console ++ line ++ "\n" }

/-- A command that fails with `line` as its last words. -/
def refuse (log : LogState) (line : String) : Outcome := ⟨1, "", (say log line).console⟩

/-- A command whose expression was rejected: the `report` of `e` comes last, and before it the place is drawn if `e`
is a matter of grammar. -/
def reject (log : LogState) (expression : String) (e : PipelineError) : Outcome :=
  let drawing :=
    match e with
    | .parse p => p.span.render expression p.message
    | _ => ""
  ⟨1, "", log.console ++ drawing ++ e.report.toJson.pretty ++ "\n"⟩

/-- The failure `e` as a record with its fields. -/
def batchErrorText : Batch.BatchError → String
  | .tooManyRequests count limit => s!"TooManyRequests \x7b count: {count}, max: {limit} \x7d"
  | .unreadable path reason =>
    s!"Io \x7b path: {Text.quoteWord path}, message: {Text.quoteWord reason} \x7d"
  | .invalidRequest line reason =>
    s!"InvalidRequest \x7b line: {line}, message: {Text.quoteWord reason} \x7d"
  | .workerFailed reason => s!"ThreadError \x7b message: {Text.quoteWord reason} \x7d"

/-- The outcome of a call without arguments. -/
def usage (c : Calculator) (log : LogState) : Outcome :=
  refuse (say log s!"Usage: {c.program} <expression> [values]") s!"       {c.program} --help"

/-- What is said to `--help`. -/
def help (c : Calculator) (log : LogState) : Outcome :=
  let lines := [
    s!"boolexpr v{version}",
    "Boolean expression compiler and evaluator",
    "",
    "USAGE:",
    s!"    {c.program} <expression> [values]        # Evaluate and print JSON",
    s!"    {c.program} --ast <expression>           # Print the parsed tree",
    s!"    {c.program} --tokens <expression>        # Print the token stream",
    s!"    {c.program} --batch <file> [options]     # Evaluate a JSON-lines request file",
    "",
    "VALUES:",
    "    Comma-separated name=value pairs; values are true/false (any case) or 1/0",
    "",
    "BATCH OPTIONS:",
    "    --sequential        Evaluate on the calling thread only",
    "    --threads N         Maximum worker threads",
    "    --fail-fast         Stop at the first failed request",
    "",
    "EXAMPLES:",
    s!"    {c.program} \"x or y\" \"x=1,y=0\"",
    s!"    {c.program} --ast \"a and (b or not c)\"",
    "",
    "CONFIGURATION:",
    s!"    Generated from {c.boundsSource} (profile: {Limits.profile})",
    s!"    {log.current.summary}",
    ""]
  ⟨0, String.intercalate "\n" lines, log.console⟩

/-! ### One expression -/

/-- The preferences of `c.environment`. -/
def preferences (c : Calculator) : Preferences := c.environment.preferences

/-- Evaluates `expression`, in `Pipeline.ownMemory`, and prints the response as JSON. -/
def evaluate (c : Calculator) (log : LogState) (expression values : String) : Outcome :=
  let p := c.preferences
  let (result, log) := log.perform c.timestamp (Pipeline.evaluate p c.elapsed expression values)
    (Pipeline.ownMemory p)
  match result with
  | .ok response => ⟨0, response.toJson.pretty ++ "\n", log.console⟩
  | .error e => reject log expression e

/-- What `--ast` shows of a tree: its JSON, its canonical text and its variables. -/
def treeText (e : Expr) : String :=
  s!"{e.toJson.pretty}\ncanonical: {e.render}\nvariables: {Text.quoteWords e.sortedVariables}\n"

/-- Compiles `expression` and prints `treeText`. -/
def showTree (c : Calculator) (log : LogState) (expression : String) : Outcome :=
  let p := c.preferences
  let (result, log) := log.perform c.timestamp (Pipeline.compile p expression) (Pipeline.ownMemory p)
  match result with
  | .ok object => ⟨0, treeText object.tree, log.console⟩
  | .error e => reject log expression e

/-- The text `s` with blanks before it, at least `width` characters wide. -/
def alignRight (width : Nat) (s : String) : String := Text.repeated (width - s.length) ' ' ++ s

/-- The text `s` with blanks behind it, at least `width` characters wide. -/
def alignLeft (width : Nat) (s : String) : String := s ++ Text.repeated (width - s.length) ' '

/-- The line of `t` in `tokensText`: offset, kind and spelling. -/
def tokenLine (t : Spanned Token) : String :=
  s!"{alignRight 5 (toString t.span.start.offset)}  {alignLeft 18 t.value.kind} {t.value.display}\n"

/-- What `--tokens` shows: a `tokenLine` for every token, and the number of each kind. -/
def tokensText (t : TokenStream) : String :=
  let counts := String.intercalate ", " (t.kindCounts.map fun (kind, count) => s!"{kind}={count}")
  String.join (t.tokens.map tokenLine) ++ s!"{t.length} tokens ({counts})\n"

/-- The tokens of the normalized `expression`. -/
def readTokens (p : Preferences) (expression : String) : Work (Except PipelineError TokenStream) :=
  (Work.ofLogged (normalize expression)).bind fun normalized =>
    Work.ofStage (tokenize p.lexical normalized.text) .lex

/-- Reads the tokens of `expression` and prints `tokensText`. -/
def showTokens (c : Calculator) (log : LogState) (expression : String) : Outcome :=
  let (result, log) := log.perform c.timestamp (readTokens c.preferences expression) {}
  match result with
  | .ok t => ⟨0, tokensText t, log.console⟩
  | .error e => reject log expression e

/-! ### Batches -/

/-- The options behind the path of a batch, read into `b`, with a warning in the log for what was not understood. -/
def readOptions (b : Batch.Config) (log : LogState) : List String → Batch.Config × LogState
  | [] => (b, log)
  | "--sequential" :: rest => readOptions { b with maxThreads := 1 } log rest
  | "--fail-fast" :: rest => readOptions { b with failFast := true } log rest
  | ["--threads"] => (b, say log "Warning: --threads requires a number")
  | "--threads" :: n :: rest =>
    match Text.parseCount? n with
    | some threads => readOptions { b with maxThreads := max threads 1 } log rest
    | none => readOptions b (say log s!"Warning: Invalid thread count '{n}', using default") rest
  | other :: rest => readOptions b (say log s!"Warning: Unknown option '{other}'") rest

/-- The line for the outcome `o`, its keys sorted at every level. -/
def outcomeLine (o : Batch.Outcome) : String :=
  let id := ("id", Json.string o.name)
  let line := match o.result with
    | .ok response => [id, ("response", response.toJson.sortMembers)]
    | .error e => [("error", e.report.toJson.sortMembers), id]
  (Json.object line).compact ++ "\n"

/-- Evaluates the requests that stand in `content`, and prints an `outcomeLine` for each and the summary. -/
def runRequests (c : Calculator) (b : Batch.Config) (log : LogState) (content : String) : Outcome :=
  match Batch.parseRequests content with
  | .error e => refuse log s!"Error: {batchErrorText e}"
  | .ok requests =>
    let (results, memory) := Batch.evaluate b c.elapsed requests log.request
    let log := memory.events.foldl (·.deliver c.timestamp) log
    match results with
    | .error e => refuse log s!"Error: {batchErrorText e}"
    | .ok results =>
      ⟨if results.failed > 0 then 1 else 0, String.join (results.outcomes.map outcomeLine),
        (say log results.summary).console⟩

/-- Evaluates the requests of the file at `path`. -/
def runBatch (c : Calculator) (log : LogState) (path : String) (options : List String) : Outcome :=
  let (b, log) := readOptions ⟨c.workers, false, c.preferences⟩ log options
  match c.read path with
  | .ok content => c.runRequests b log content
  | .error reason => refuse log s!"Error: {batchErrorText (.unreadable path reason)}"

/-! ### The command -/

/-- What the command does once `setUp` has made a log. -/
def runLogged (c : Calculator) (log : LogState) : List String → Outcome
  | [] => c.usage log
  | "--help" :: _ | "-h" :: _ => c.help log
  | ["--batch"] => refuse log "Error: --batch requires a request file"
  | "--batch" :: path :: options => c.runBatch log path options
  | ["--ast"] => refuse log "Error: --ast requires an expression"
  | "--ast" :: expression :: _ => c.showTree log expression
  | ["--tokens"] => refuse log "Error: --tokens requires an expression"
  | "--tokens" :: expression :: _ => c.showTokens log expression
  | [expression] => c.evaluate log expression ""
  | expression :: values :: _ => c.evaluate log expression values

/-- The whole command: the log is set up, and then `runLogged` does what the arguments ask for. -/
def run (c : Calculator) (arguments : List String) : Outcome :=
  let start : LogState := { environment := c.environment }
  match start.setUp c.timestamp with
  | (.error reason, log) => refuse log s!"Error: {Text.quoteWord reason}"
  | (.ok (), log) => c.runLogged log arguments

/-- The path that `runBatch` will read, if there is one. -/
def requestPath? : List String → Option String
  | "--batch" :: path :: _ => some path
  | _ => none

end Calculator

end BoolCalc.Console
