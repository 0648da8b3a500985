import BoolCalc.Pipeline.Error
import BoolCalc.Store.Repository

namespace BoolCalc.Store

/-!
# Failures of the service

* `ServiceError` : why a call of the service fails;
* `StatusClass` : whose fault a failure is;
* `ServiceReport`, `ServiceError.report` : the failure as a client is told.
-/

/-- Whose fault a `ServiceError` is. -/
inductive StatusClass where
  | client
  | notFound
  | server
  deriving DecidableEq, Repr, Inhabited

namespace StatusClass

/-- The name of a class in `ServiceReport.toJson`. -/
def name : StatusClass → String
  | .client => "client_error"
  | .notFound => "not_found"
  | .server => "server_error"

def number : StatusClass → Nat
  | .client => 400
  | .notFound => 404
  | .server => 500

end StatusClass

/-- Why a call of the service fails. -/
inductive ServiceError where
  /-- The text `raw` is no id. -/
  | invalidId (raw : String)
  | store (e : StoreError)
  | rejected (e : PipelineError)
  /-- The definition satisfies `Text.isAllBlank`. -/
  | missingDefinition
  deriving DecidableEq, Inhabited

/-- What a client is told of a `ServiceError`. -/
structure ServiceReport where
  code : Log.Code
  status : StatusClass
  message : String
  detail : Option ErrorReport
  deriving DecidableEq, Inhabited

/-- The report as JSON; without a `detail` there is no such member. -/
def ServiceReport.toJson (r : ServiceReport) : Json :=
  .object ([("code", .string r.code.text), ("status", .string r.status.name),
    ("message", .string r.message)] ++ Json.optional "detail" (r.detail.map ErrorReport.toJson))

namespace ServiceError

/-- What `e` says, also as the `message` of its event. -/
def message : ServiceError → String
  | .invalidId raw => s!"Expression id '{raw}' is not an integer"
  | .store e => s!"Repository error: {e.message}"
  | .rejected e => s!"Expression rejected: {e.message}"
  | .missingDefinition => "Missing expression definition"

/-- Whose fault `e` is. A rejected expression is the client's, unless `isClientError` says otherwise. -/
def status : ServiceError → StatusClass
  | .invalidId _ | .missingDefinition => .client
  | .store (.notFound _) => .notFound
  | .store _ => .server
  | .rejected e => if e.isClientError then .client else .server

def code : ServiceError → Log.Code
  | .invalidId _ => .invalidExpressionId
  | .store (.notFound _) => .expressionNotFound
  | .store _ => .storageFailure
  | .rejected _ => .evaluationRejected
  | .missingDefinition => .missingDefinition

/-- The `PipelineError.report` of a rejected expression. -/
def detail? : ServiceError → Option ErrorReport
  | .rejected e => some e.report
  | _ => none

/-- What a client is told of `e`. -/
def report (e : ServiceError) : ServiceReport := ⟨e.code, e.status, e.message, e.detail?⟩

/-- The event for `e`, with the number of its status. -/
def event (e : ServiceError) : Log.Event :=
  .failure e.code e.message none [("status", toString e.status.number)]

end ServiceError

end BoolCalc.Store
