namespace BoolCalc

/-!
# The bounds every input is held to

* `Limits.expression`, `Limits.identifier`, `Limits.tokens`, `Limits.parseDepth` : the text of an
  expression and its tree;
* `Limits.parameterString`, `Limits.bindings` : the text of a parameter list;
* `Limits.evaluationDepth` : the walk over a tree;
* `Limits.workers`, `Limits.requests` : a batch;
* `Limits.cached` : the tree cache;
* `Limits.logBuffer`, `Limits.logMessage`, `Limits.securityLevel` : the log.
-/

namespace Limits

/-- The most bytes of an expression; `tokenize` and `Pipeline.compile` read no longer ones. -/
def expression : Nat := 65536

/-- The most bytes of a word. -/
def identifier : Nat := 255

/-- The most tokens of an expression, `Token.endOfInput` not counted. -/
def tokens : Nat := 10000

/-- The most parentheses and negations a token may sit under, one in the other. -/
def parseDepth : Nat := 128

/-- The most bytes of a parameter string. -/
def parameterString : Nat := 65536

/-- The most pairs of a parameter string. -/
def bindings : Nat := 1024

/-- The greatest depth at which `Evaluation.run` evaluates a node. -/
def evaluationDepth : Nat := 256

/-- The most workers of a batch, see `Config.threads`. -/
def workers : Nat := 16

/-- The most requests of a batch. -/
def requests : Nat := 100000

/-- The most trees in a cache. -/
def cached : Nat := 4096

/-- The `capacity` of `Log.Buffer.empty`. -/
def logBuffer : Nat := 8192

/-- The most bytes in the message of a failure or a completion, see `Log.Event.shortened`. -/
def logMessage : Nat := 2048

/-- The number of the level that `Log.securityLevel` stands for. -/
def securityLevel : Nat := 2

/-- The name of this set of bounds, for `Preferences.Logging.summary` and the console. -/
def profile : String := "development"

end Limits

end BoolCalc
