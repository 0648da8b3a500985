import BoolCalc.Log.Service
import BoolCalc.Pipeline.Evaluator
import BoolCalc.Store.ServiceError

namespace BoolCalc.Store

/-!
# The service of stored expressions

* `Service` : a store, how expressions are evaluated, and what was logged;
* `Call` : what a client asks for, as a change of the service with an answer;
* `Service.execute`, `Service.evaluate` : the truth value of a stored expression, and of one that is not
  stored;
* `Service.list`, `Service.create`, `Service.save`, `Service.delete` : looking at the store and changing it.

Every failure is logged once. A definition is compiled before it is stored, and the store is not asked
before the id and the definition have passed.
-/

/-- A store with an evaluator. -/
structure Service (ρ : Type) where
  repository : ρ
  preferences : Preferences := .strict
  /-- The cache of the evaluator; its log is kept in `logged`. -/
  memory : Memory := Pipeline.ownMemory preferences
  elapsed : Nat := 0
  logged : List Log.Entry := []

/-- What a client asks for: it may end with a `Stop`, and it changes the service in any case. -/
abbrev Call (ρ α : Type) := ExceptT (Stop ServiceError) (StateM (Service ρ)) α

/-- What was `logged`, oldest first. -/
def Service.log (s : Service ρ) : List Log.Entry := s.logged.reverse

namespace Call

/-- Answers the call `c`: the answer, and the service after it. -/
def answer (c : Call ρ α) (s : Service ρ) : Except (Stop ServiceError) α × Service ρ := c.run.run s

/-- Logs the entry `e`. -/
def tell (e : Log.Entry) : Call ρ Unit :=
  modify fun s => { s with logged := e :: s.logged }

/-- Logs `e.event` and ends with `e`. -/
def fail (e : ServiceError) : Call ρ α := do
  tell (.event e.event)
  throw (.failed e)

/-- Asks the store. A failure of the store is one of the call, and `overflow` breaks off without a word in the log. -/
def ask (question : ρ → Reply α × ρ) : Call ρ α := do
  let s ← get
  let (reply, repository) := question s.repository
  set { s with repository := repository }
  match reply with
  | .ok a => return a
  | .error (.failed e) => fail (.store e)
  | .error .overflow => throw .overflow

/-- Does `work` of the evaluator, whose events come into the log of the service. A failure is logged once more, as
`rejected`. -/
def perform (work : Preferences → Nat → Work (Except PipelineError α)) : Call ρ α := do
  let s ← get
  let (result, _, memory) := (work s.preferences s.elapsed).run none { s.memory with logged := [] }
  set { s with
    memory := { memory with logged := [] },
    logged := memory.logged.map Log.Entry.event ++ s.logged }
  match result with
  | .ok a => return a
  | .error e => fail (.rejected e)

/-- The id that `raw` spells. -/
def parseId (raw : String) : Call ρ Id :=
  match Id.parse? raw with
  | some id => return id
  | none => fail (.invalidId raw)

/-- Looks whether `definition` may be stored: it is not blank, and it compiles. -/
def validate (definition : String) : Call ρ Unit := do
  if Text.isAllBlank definition then fail .missingDefinition
  else
    let _ ← perform fun p _ => Pipeline.compile p definition

end Call

namespace Service

open Call

variable {ρ : Type}

/-! ### Evaluation -/

/-- The truth value of a `definition` that is not stored. -/
def evaluate (definition values : String) : Call ρ Response :=
  perform fun p elapsed => Pipeline.evaluate p elapsed definition values

/-- The truth value of the stored expression with the id `rawId`. -/
def execute [Repository ρ] (rawId values : String) : Call ρ Response := do
  let id ← parseId rawId
  let e ← ask (Repository.get id)
  let response ← evaluate e.definition values
  let result := Expr.boolText response.result
  tell <| .event <| .completion .expressionExecuted "Expression executed"
    [("id", toString id.value), ("result", result)]
  tell <| .note .info s!"expression {id.value} evaluated to {result}"
  return response

/-! ### The store -/

def list [Repository ρ] : Call ρ (List Expression) := do
  let es ← ask Repository.all
  tell <| .note .info s!"all expressions recovered ({es.length})"
  return es

/-- Stores `definition` under a new id. -/
def create [Repository ρ] (definition : String) : Call ρ Expression := do
  validate definition
  let e ← ask (Repository.create definition)
  tell <| .event <| .completion .expressionStored "Expression created" [("id", toString e.id.value)]
  return e

/-- Stores `definition` under the id `rawId`. -/
def save [Repository ρ] (rawId definition : String) : Call ρ Expression := do
  let id ← parseId rawId
  validate definition
  let e ← ask (Repository.save id definition)
  tell <| .event <| .completion .expressionStored "Expression updated" [("id", toString id.value)]
  return e

/-- Takes the expression with the id `rawId` out of the store. -/
def delete [Repository ρ] (rawId : String) : Call ρ Unit := do
  let id ← parseId rawId
  ask (Repository.delete id)
  tell <| .event <| .completion .expressionDeleted "Expression deleted" [("id", toString id.value)]

end Service

end BoolCalc.Store
