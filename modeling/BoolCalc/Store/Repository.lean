import BoolCalc.Store.Expression

namespace BoolCalc.Store

/-!
# What a service asks of a store

* `StoreError` : the ways in which a store fails;
* `Stop`, `Reply` : how a call ends;
* `Repository` : the five calls.
-/

/-- Why a store has no answer. -/
inductive StoreError where
  | notFound (id : Id)
  /-- The store cannot be used, for the given `reason`. -/
  | storage (reason : String)
  /-- The file at `path` cannot be understood. -/
  | unreadable (path reason : String)
  deriving DecidableEq, Inhabited

/-- What `StoreError` says, also as part of `ServiceError.message`. -/
def StoreError.message : StoreError → String
  | .notFound id => s!"Expression {id.value} not found"
  | .storage reason => s!"Storage failure: {reason}"
  | .unreadable path reason => s!"Cannot load store file {path}: {reason}"

/-- Why a call has no result: it `.failed` with an `ε`, or broke off. -/
inductive Stop (ε : Type) where
  /-- The call failed with `e`. -/
  | failed (e : ε)
  | overflow
  deriving DecidableEq

/-- The same end with `f e` in place of a failure `e`. -/
def Stop.map (f : ε → δ) : Stop ε → Stop δ
  | .failed e => .failed (f e)
  | .overflow => .overflow

/-- What is printed of `Stop.overflow`. -/
def overflowMessage : String := "attempt to add with overflow"

/-- How a call of a store ends: with an `α`, or a `Stop`. -/
abbrev Reply (α : Type) := Except (Stop StoreError) α

/-- A store of expressions. Every call leaves a store behind, whether it has a result or not. -/
class Repository (ρ : Type) where
  /-- All expressions, in the order that the store keeps. -/
  all : ρ → Reply (List Expression) × ρ
  /-- The expression with an id. -/
  get : Id → ρ → Reply Expression × ρ
  /-- A new expression with a definition, under an id of the store's choice. -/
  create : String → ρ → Reply Expression × ρ
  /-- The expression with an id, under a new definition. -/
  save : Id → String → ρ → Reply Expression × ρ
  delete : Id → ρ → Reply Unit × ρ

end BoolCalc.Store
