import BoolCalc.Evaluation
import BoolCalc.Parameters
import BoolCalc.Syntax.Error
import BoolCalc.Token.Lexer

namespace BoolCalc

/-!
# Failures and answers of the pipeline

* `PipelineError` : the failure of one of the four stages;
* `PipelineError.position?`, `PipelineError.name?` : what it is about;
* `ErrorReport`, `PipelineError.report` : the failure as a caller is told;
* `Response` : the answer to an evaluation.
-/

/-- The failure of a stage, as the stage reports it. -/
inductive PipelineError where
  | lex (e : LexError)
  | parse (e : ParseError)
  | binding (e : BindingError)
  | evaluation (e : EvaluationError)
  deriving DecidableEq, Repr, Inhabited

/-- What a caller is told of a `PipelineError`. -/
structure ErrorReport where
  code : String
  stage : String
  /-- The `cause`, without the name of the stage. -/
  message : String
  position : Option Nat
  name : Option String
  deriving DecidableEq, Repr, Inhabited

namespace PipelineError

/-- The name of the stage in an `ErrorReport`. -/
def stage : PipelineError → String
  | .lex _ => "lexical"
  | .parse _ => "syntax"
  | .binding _ => "binding"
  | .evaluation _ => "evaluation"

def code : PipelineError → Log.Code
  | .lex e => e.code
  | .parse e => e.code
  | .binding e => e.code
  | .evaluation e => e.code

/-- The message of the stage for `e`. -/
def cause : PipelineError → String
  | .lex e => e.message
  | .parse e => e.message
  | .binding e => e.message
  | .evaluation e => e.message

/-- The `cause` of `e`, with the stage before it. -/
def message (e : PipelineError) : String :=
  let failed :=
    match e with
    | .lex _ => "Lexical analysis failed"
    | .parse _ => "Syntax analysis failed"
    | .binding _ => "Parameter binding failed"
    | .evaluation _ => "Evaluation failed"
  s!"{failed}: {e.cause}"

/-- True if the caller can mend `e` by sending something else. -/
def isClientError (e : PipelineError) : Bool := e.code.isRecoverable

/-- The offset of the failure in the expression; `expressionTooLong` has none. -/
def position? : PipelineError → Option Nat
  | .lex (.expressionTooLong _) => none
  | .lex e => some e.offset
  | .parse e => some e.position
  | .binding _ | .evaluation _ => none

def name? : PipelineError → Option String
  | .binding e => e.name?
  | .evaluation e => e.name?
  | .lex _ | .parse _ => none

/-- What a caller is told of `e`. -/
def report (e : PipelineError) : ErrorReport where
  code := e.code.text
  stage := e.stage
  message := e.cause
  position := e.position?
  name := e.name?

end PipelineError

/-- The report as JSON; without `position` or `name` there is no such member. -/
def ErrorReport.toJson (r : ErrorReport) : Json :=
  .object ([("code", .string r.code), ("stage", .string r.stage), ("message", .string r.message)] ++
    Json.optional "position" (r.position.map .nat) ++ Json.optional "name" (r.name.map .string))

/-- The answer of `Pipeline.evaluate`. -/
structure Response where
  definition : String
  /-- The parameter string as it was given; nothing of it is read again. -/
  values : String
  result : Bool
  deriving DecidableEq, Repr, Inhabited

def Response.toJson (r : Response) : Json :=
  .object [("definition", .string r.definition), ("values", .string r.values),
    ("result", .bool r.result)]

end BoolCalc
