import BoolCalc.Json.Decode
import BoolCalc.Json.Reader
import BoolCalc.Json.Writer
import BoolCalc.Log.Code
import BoolCalc.Text.Lines

namespace BoolCalc.Batch

/-!
# Requests of a batch

* `Request` : an expression to evaluate, and its JSON form;
* `BatchError` : the ways in which a batch as a whole fails;
* `numberedLines`, `parseRequests` : the requests of a text with one request to a line.
-/

/-- An `expression` to evaluate with the bindings in `values`. -/
structure Request where
  id : Option String := none
  expression : String
  /-- The parameter string, `"a=1,b=0"` for example. -/
  values : String := ""
  deriving DecidableEq, Repr, Inhabited

namespace Request

/-- The `id` of the request, or `request-1` for the first, `request-2` for the second, and so on. -/
def name (r : Request) (index : Nat) : String := r.id.getD s!"request-{index + 1}"

/-- The request as JSON; without an `id` there is no such field. -/
def toJson (r : Request) : Json :=
  .object (Json.optional "id" (r.id.map .string) ++
    [("expression", .string r.expression), ("values", .string r.values)])

/-- The request that `v` stands for. The field `expression` is needed, `id` may be `null`, and `values` is `""` if
there is none. -/
def ofJson? (v : Json) : Option Request :=
  match v.fields? ["id", "expression", "values"] with
  | some [id, some expression, values] => do
    let id ← (id.map Json.optionalString?).getD (some none)
    let expression ← expression.string?
    let values ← (values.map Json.string?).getD (some "")
    some { id, expression, values }
  | _ => none

end Request

/-- Why a batch fails as a whole; a single request that fails is an `Outcome` like any other. -/
inductive BatchError where
  | tooManyRequests (count limit : Nat)
  | unreadable (path reason : String)
  | invalidRequest (line : Nat) (reason : String)
  | workerFailed (reason : String)
  deriving DecidableEq, Repr, Inhabited

namespace BatchError

/-- What `e` prints, also as the `message` of its event. -/
def message : BatchError → String
  | .tooManyRequests count limit => s!"Too many requests: {count} (max: {limit})"
  | .unreadable path reason => s!"Cannot read request file {path}: {reason}"
  | .invalidRequest line reason => s!"Invalid request on line {line}: {reason}"
  | .workerFailed reason => s!"Worker thread error: {reason}"

def code : BatchError → Log.Code
  | .tooManyRequests .. => .batchTooLarge
  | .unreadable .. | .invalidRequest .. => .requestFileInvalid
  | .workerFailed _ => .workerFailure

end BatchError

/-- The lines with their numbers, from `1`, without those of blanks only. -/
def numberedLines (content : String) : List (String × Nat) :=
  ((Text.lines content).zipIdx 1).filter fun (line, _) => !Text.isAllBlank line

/-- The request that stands in `line`; any failure is that of the line `number`. -/
def parseLine (line : String) (number : Nat) : Except BatchError Request :=
  match (Json.parse? line).bind Request.ofJson? with
  | some r => .ok r
  | none => .error (.invalidRequest number "not an evaluation request")

/-- The requests of `content` with one request to a line; the first line that is none fails. -/
def parseRequests (content : String) : Except BatchError (List Request) :=
  (numberedLines content).mapM fun (line, number) => parseLine line number

end BoolCalc.Batch
