namespace BoolCalc.Log

/-!
# Event codes

* `Code` : the short name of a kind of event, and the known codes;
* `Severity` : how grave a kind of event is;
* `Metadata`, `registry` : what is known about a code;
* `Code.severity`, `Code.isRecoverable`, `Code.category`, `Code.description`, `Code.action` : the same,
  with an answer for unknown codes too.
-/

/-- The short name of a kind of event, `E040` for example. -/
structure Code where
  text : String
  deriving DecidableEq, Repr, Inhabited

/-- How grave a kind of event is, see `Code.severity`. -/
inductive Severity where
  | critical
  | high
  | medium
  | low
  deriving DecidableEq, Repr, Inhabited

namespace Severity

def name : Severity → String
  | .critical => "Critical"
  | .high => "High"
  | .medium => "Medium"
  | .low => "Low"

/-- The severity is `high` or graver. -/
def atLeastHigh : Severity → Bool
  | .critical | .high => true
  | .medium | .low => false

end Severity

namespace Code

/-! ### The codes of failures -/

def internalError : Code := ⟨"ERR001"⟩

def initializationFailure : Code := ⟨"ERR002"⟩

def configurationInvalid : Code := ⟨"ERR003"⟩

/-- A character or word that is no `Token`. -/
def invalidCharacter : Code := ⟨"E020"⟩

/-- An expression of more than `Limits.expression` bytes. -/
def expressionTooLong : Code := ⟨"E021"⟩

/-- A word of more than `Limits.identifier` bytes. -/
def identifierTooLong : Code := ⟨"E022"⟩

/-- More than `Limits.tokens` tokens. -/
def tooManyTokens : Code := ⟨"E023"⟩

/-- A token where the grammar has another. -/
def unexpectedToken : Code := ⟨"E040"⟩

/-- No token but `Token.endOfInput`. -/
def emptyExpression : Code := ⟨"E041"⟩

/-- A `(` or `)` without its partner. -/
def unmatchedParenthesis : Code := ⟨"E042"⟩

/-- Tokens behind a complete expression. -/
def trailingInput : Code := ⟨"E043"⟩

/-- A token under more than `Limits.parseDepth` parentheses and negations. -/
def parseDepth : Code := ⟨"E044"⟩

/-- A pair without `=`. -/
def missingSeparator : Code := ⟨"E060"⟩

/-- A value for which `Parameters.truthValue?` is `none`. -/
def invalidBoolean : Code := ⟨"E061"⟩

/-- A pair with nothing before its `=`. -/
def emptyName : Code := ⟨"E062"⟩

/-- More than `Limits.bindings` pairs. -/
def tooManyBindings : Code := ⟨"E063"⟩

/-- A parameter string of more than `Limits.parameterString` bytes. -/
def parameterStringTooLong : Code := ⟨"E064"⟩

/-- A variable for which `Bindings.get?` is `none`. -/
def unboundVariable : Code := ⟨"E080"⟩

/-- A node below `Limits.evaluationDepth`. -/
def evaluationDepth : Code := ⟨"E081"⟩

/-- More than `Limits.requests` requests. -/
def batchTooLarge : Code := ⟨"E090"⟩

def workerFailure : Code := ⟨"E091"⟩

/-- A request file that cannot be read, or has a line that is no `Batch.Request`. -/
def requestFileInvalid : Code := ⟨"E092"⟩

/-- An id for which `Store.Id.parse?` is `none`. -/
def invalidExpressionId : Code := ⟨"C001"⟩

def expressionNotFound : Code := ⟨"C002"⟩

def storageFailure : Code := ⟨"C003"⟩

/-- A definition with `Text.isAllBlank`. -/
def missingDefinition : Code := ⟨"C004"⟩

/-- A definition whose compilation or evaluation is a `PipelineError`. -/
def evaluationRejected : Code := ⟨"C005"⟩

/-! ### The codes of completions -/

def systemInitialized : Code := ⟨"I001"⟩

def normalizationComplete : Code := ⟨"I010"⟩

def tokenizationComplete : Code := ⟨"I020"⟩

def parseComplete : Code := ⟨"I040"⟩

def bindingComplete : Code := ⟨"I060"⟩

/-- The end of `evaluate`, and that of `Pipeline.evaluate`. -/
def evaluationComplete : Code := ⟨"I080"⟩

/-- A tree that `Memory.find?` has found. -/
def cacheHit : Code := ⟨"I081"⟩

def batchComplete : Code := ⟨"I090"⟩

def expressionExecuted : Code := ⟨"I100"⟩

def expressionStored : Code := ⟨"I101"⟩

def expressionDeleted : Code := ⟨"I102"⟩

/-! ### The codes of other messages -/

/-- The code of `Event.warning`. -/
def plainWarning : Code := ⟨"W000"⟩

/-- The code of `Event.info`. -/
def plainInfo : Code := ⟨"I000"⟩

/-- The code of `Event.debug`. -/
def plainDebug : Code := ⟨"D000"⟩

end Code

/-! ### What is known about the codes -/

/-- What `registry` knows about a code. -/
structure Metadata where
  code : Code
  /-- The part of the program that reports it, `"Lexical"` for example. -/
  category : String
  severity : Severity
  recoverable : Bool
  description : String
  /-- What to do about it; part of `Event.detailed`. -/
  action : String
  deriving Repr, Inhabited

/-- The known codes, each with its `Metadata`. -/
def registry : List Metadata :=
  [⟨⟨"ERR001"⟩, "System", .critical, false,
    "Internal error", "Report the failure with the input that produced it"⟩,
   ⟨⟨"ERR002"⟩, "System", .critical, false,
    "Logging or runtime initialization failed", "Check process configuration"⟩,
   ⟨⟨"ERR003"⟩, "System", .high, false,
    "Runtime configuration is invalid", "Review BOOLEXPR_* environment variables"⟩,
   ⟨⟨"E020"⟩, "Lexical", .high, true,
    "Character is not part of the expression language",
    "Use identifiers, AND, OR, NOT, '!', parentheses, true or false"⟩,
   ⟨⟨"E021"⟩, "Lexical", .high, true,
    "Expression text exceeds the configured maximum length", "Shorten the expression"⟩,
   ⟨⟨"E022"⟩, "Lexical", .medium, true,
    "Identifier exceeds the configured maximum length", "Use a shorter variable name"⟩,
   ⟨⟨"E023"⟩, "Lexical", .high, true,
    "Expression produces more tokens than allowed", "Split the expression"⟩,
   ⟨⟨"E040"⟩, "Syntax", .high, true,
    "Token does not fit the grammar at this position", "Check operator placement"⟩,
   ⟨⟨"E041"⟩, "Syntax", .high, true,
    "Expression is empty", "Provide at least one operand"⟩,
   ⟨⟨"E042"⟩, "Syntax", .high, true,
    "Parenthesis is not matched", "Balance opening and closing parentheses"⟩,
   ⟨⟨"E043"⟩, "Syntax", .high, true,
    "Input continues after a complete expression", "Join the operands with AND or OR"⟩,
   ⟨⟨"E044"⟩, "Syntax", .high, true,
    "Expression nesting exceeds the configured depth", "Reduce nesting of parentheses and NOT"⟩,
   ⟨⟨"E060"⟩, "Binding", .medium, true,
    "Parameter pair has no '=' separator", "Write parameters as name=value"⟩,
   ⟨⟨"E061"⟩, "Binding", .medium, true,
    "Parameter value is not a boolean", "Use true, false, 1 or 0"⟩,
   ⟨⟨"E062"⟩, "Binding", .medium, true,
    "Parameter name is empty", "Name every parameter before '='"⟩,
   ⟨⟨"E063"⟩, "Binding", .medium, true,
    "Too many parameters", "Bind fewer variables per evaluation"⟩,
   ⟨⟨"E064"⟩, "Binding", .medium, true,
    "Parameter string exceeds the configured maximum length", "Send fewer parameters"⟩,
   ⟨⟨"E080"⟩, "Evaluation", .medium, true,
    "Expression references a variable with no binding", "Supply a value for every variable"⟩,
   ⟨⟨"E081"⟩, "Evaluation", .high, false,
    "Expression tree exceeds the evaluation depth", "Reduce nesting"⟩,
   ⟨⟨"E090"⟩, "Batch", .medium, true,
    "Batch contains more requests than allowed", "Split the batch"⟩,
   ⟨⟨"E091"⟩, "Batch", .critical, false,
    "Batch worker thread failed", "Rerun the batch sequentially to isolate the request"⟩,
   ⟨⟨"E092"⟩, "Batch", .medium, true,
    "Batch request file could not be read", "Check the file path and JSON lines format"⟩,
   ⟨⟨"C001"⟩, "Consumer", .medium, true,
    "Expression id is not a valid integer", "Pass a numeric expression id"⟩,
   ⟨⟨"C002"⟩, "Consumer", .medium, true,
    "No stored expression has this id", "List stored expressions to find the id"⟩,
   ⟨⟨"C003"⟩, "Consumer", .critical, false,
    "Expression storage failed", "Check the expression store"⟩,
   ⟨⟨"C004"⟩, "Consumer", .medium, true,
    "Expression definition is missing", "Provide a non-empty definition"⟩,
   ⟨⟨"C005"⟩, "Consumer", .medium, true,
    "Stored expression could not be evaluated", "Fix the definition or the parameters"⟩,
   ⟨⟨"I001"⟩, "System", .low, true,
    "Logging initialized", "None"⟩,
   ⟨⟨"I010"⟩, "Normalization", .low, true,
    "Connective spellings normalized", "Continue to lexical analysis"⟩,
   ⟨⟨"I020"⟩, "Lexical", .low, true,
    "Tokenization completed", "Continue to parsing"⟩,
   ⟨⟨"I040"⟩, "Syntax", .low, true,
    "Expression tree built", "Continue to binding"⟩,
   ⟨⟨"I060"⟩, "Binding", .low, true,
    "Parameters bound", "Continue to evaluation"⟩,
   ⟨⟨"I080"⟩, "Evaluation", .low, true,
    "Expression evaluated", "None"⟩,
   ⟨⟨"I081"⟩, "Evaluation", .low, true,
    "Parsed expression served from cache", "None"⟩,
   ⟨⟨"I090"⟩, "Batch", .low, true,
    "Batch evaluation completed", "None"⟩,
   ⟨⟨"I100"⟩, "Consumer", .low, true,
    "Stored expression evaluated", "None"⟩,
   ⟨⟨"I101"⟩, "Consumer", .low, true,
    "Expression stored", "None"⟩,
   ⟨⟨"I102"⟩, "Consumer", .low, true,
    "Expression deleted", "None"⟩]

namespace Code

/-- The entry of `registry` for `c`, if there is one. -/
def metadata? (c : Code) : Option Metadata := registry.find? fun m => m.code == c

/-- The severity, `medium` for an unknown code. -/
def severity (c : Code) : Severity := (c.metadata?.map Metadata.severity).getD .medium

/-- True if `c` is recoverable; an unknown code is. -/
def isRecoverable (c : Code) : Bool := (c.metadata?.map Metadata.recoverable).getD true

def category (c : Code) : String := (c.metadata?.map Metadata.category).getD "Unknown"

def description (c : Code) : String := (c.metadata?.map Metadata.description).getD "Unknown error"

def action (c : Code) : String :=
  (c.metadata?.map Metadata.action).getD "No specific action available"

end Code

end BoolCalc.Log
