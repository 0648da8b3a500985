import BoolCalc.Preferences
import BoolCalc.Text.Character

namespace BoolCalc

/-!
# Preferences from the environment

* `Environment` : the variables of a process, and the names of those that matter;
* `Environment.flag` : a variable that is `true` or `false`;
* `parseLevel?` : the log level that a text names;
* `Environment.preferences` : all preferences.
-/

/-- The variables of a process with their values, looked up by `get?`. -/
abbrev Environment := List (String × String)

/-- The names of the variables that `Environment.preferences` reads. -/
def Environment.names : List String :=
  ["BOOLEXPR_LEXICAL_ACCEPT_BANG", "BOOLEXPR_LEXICAL_INCLUDE_POSITIONS",
   "BOOLEXPR_BINDING_ACCEPT_NUMERIC", "BOOLEXPR_BINDING_TRIM_WHITESPACE",
   "BOOLEXPR_EVALUATION_SHORT_CIRCUIT", "BOOLEXPR_EVALUATION_AST_CACHE",
   "BOOLEXPR_LOGGING_USE_STRUCTURED", "BOOLEXPR_LOGGING_ENABLE_CONSOLE",
   "BOOLEXPR_LOGGING_MIN_LEVEL"]

/-- The log level that `text` names, by its name or its `Level.rank`, in any case and with blanks around it. -/
def parseLevel? (text : String) : Option Log.Level :=
  match String.ofList ((Text.trimChars text.toList).map Char.toLower) with
  | "error" | "0" => some .error
  | "warning" | "warn" | "1" => some .warning
  | "info" | "2" => some .info
  | "debug" | "3" => some .debug
  | _ => none

namespace Environment

def get? (env : Environment) (name : String) : Option String := env.lookup name

/-- The truth value of a variable; one that is not exactly `true` or `false`, blanks around it aside, is
ignored. -/
def flag (env : Environment) (name : String) (otherwise : Bool) : Bool :=
  match (env.get? name).map Text.trim with
  | some "true" => true
  | some "false" => false
  | _ => otherwise

/-- The preferences of the lexer, from the variables `BOOLEXPR_LEXICAL_*`. -/
def lexical (env : Environment) : Preferences.Lexical where
  acceptBang := env.flag "BOOLEXPR_LEXICAL_ACCEPT_BANG" true
  includePositions := env.flag "BOOLEXPR_LEXICAL_INCLUDE_POSITIONS" true

/-- The preferences of the binder, from the variables `BOOLEXPR_BINDING_*`. -/
def binding (env : Environment) : Preferences.Binding where
  acceptNumeric := env.flag "BOOLEXPR_BINDING_ACCEPT_NUMERIC" true
  trimBlanks := env.flag "BOOLEXPR_BINDING_TRIM_WHITESPACE" false

/-- The preferences of the evaluator, from the variables `BOOLEXPR_EVALUATION_*`. -/
def evaluation (env : Environment) : Preferences.Evaluation where
  shortCircuit := env.flag "BOOLEXPR_EVALUATION_SHORT_CIRCUIT" true
  cacheTrees := env.flag "BOOLEXPR_EVALUATION_AST_CACHE" false

/-- The preferences of the log, from the variables `BOOLEXPR_LOGGING_*`. -/
def logging (env : Environment) : Preferences.Logging where
  structured := env.flag "BOOLEXPR_LOGGING_USE_STRUCTURED" false
  console := env.flag "BOOLEXPR_LOGGING_ENABLE_CONSOLE" true
  minLevel := ((env.get? "BOOLEXPR_LOGGING_MIN_LEVEL").bind parseLevel?).getD .info

/-- All preferences; with an empty `env` they are `Preferences.strict`. -/
def preferences (env : Environment) : Preferences where
  lexical := env.lexical
  binding := env.binding
  evaluation := env.evaluation
  logging := env.logging

end Environment

end BoolCalc
