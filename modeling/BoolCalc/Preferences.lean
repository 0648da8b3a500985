import BoolCalc.Log.Level

namespace BoolCalc

/-!
# Preferences

* `Preferences` : what a caller can choose about each stage;
* `Preferences.strict` : the choice that does not depend on the environment.
-/

namespace Preferences

/-- How `tokenize` reads the text of an expression. -/
structure Lexical where
  /-- True if `!` is another spelling of NOT; otherwise it is no part of any expression. -/
  acceptBang : Bool := true
  /-- True if the log events of failures carry the `Span` of the text at fault. -/
  includePositions : Bool := true
  deriving DecidableEq, Repr, Inhabited

/-- How `Parameters.read` reads a parameter string. -/
structure Binding where
  /-- The values `1` and `0` are allowed. -/
  acceptNumeric : Bool := true
  /-- True if `Text.trimChars` takes the blanks from names and values. -/
  trimBlanks : Bool := false
  deriving DecidableEq, Repr, Inhabited

/-- How `evaluate` evaluates a tree. -/
structure Evaluation where
  /-- True if operands that cannot change the result are skipped, see `Evaluation.walk`. -/
  shortCircuit : Bool := true
  /-- True if `Memory` has a `TreeCache` for texts that come again. -/
  cacheTrees : Bool := false
  deriving DecidableEq, Repr, Inhabited

/-- What is logged and how, see `Preferences.Logging.service`. -/
structure Logging where
  /-- True if events are printed as JSON, by `Sink.structured`. -/
  structured : Bool := false
  /-- True if events are printed at all; otherwise their sink is `Sink.silent`. -/
  console : Bool := true
  minLevel : Log.Level := .info
  deriving DecidableEq, Repr, Inhabited

end Preferences

/-- What a caller can choose, stage by stage. -/
structure Preferences where
  lexical : Preferences.Lexical := {}
  binding : Preferences.Binding := {}
  evaluation : Preferences.Evaluation := {}
  logging : Preferences.Logging := {}
  deriving DecidableEq, Repr, Inhabited

/-- The choice that does not depend on the `Environment`. -/
def Preferences.strict : Preferences := {}

end BoolCalc
