import BoolCalc.Store.Repository

namespace BoolCalc.Store

/-!
# A store with answers set in advance

* `StoreCall` : a call that a store received;
* `Scripted` : a store that gives the answers it was told to give and keeps a list of its calls.
-/

/-- A call of a `Repository`, with what it is given. -/
inductive StoreCall where
  | all
  | get (id : Id)
  | create (definition : String)
  | save (id : Id) (definition : String)
  | delete (id : Id)
  deriving DecidableEq

/-- A store that answers as it is told; a call with a failure set for it fails. Every new expression has the id `1`. -/
structure Scripted where
  /-- The answer to `all`. -/
  listed : List Expression := []
  listError : Option StoreError := none
  /-- The expression under every id; with `none` there is none under any id. -/
  found : Option Expression := none
  getError : Option StoreError := none
  createError : Option StoreError := none
  saveError : Option StoreError := none
  deleteError : Option StoreError := none
  received : List StoreCall := []
  deriving Inhabited

namespace Scripted

/-- The calls `received` so far, oldest first. -/
def calls (s : Scripted) : List StoreCall := s.received.reverse

/-- Notes `call` and answers it: with `failure` if one is set, and with `reply` otherwise. -/
def answer (s : Scripted) (call : StoreCall) (failure : Option StoreError) (reply : Reply α) :
    Reply α × Scripted :=
  let s := { s with received := call :: s.received }
  match failure with
  | some e => (.error (.failed e), s)
  | none => (reply, s)

end Scripted

instance : Repository Scripted where
  all s := s.answer .all s.listError (.ok s.listed)
  get id s := s.answer (.get id) s.getError <|
    match s.found with
    | some e => .ok e
    | none => .error (.failed (.notFound id))
  create definition s := s.answer (.create definition) s.createError (.ok ⟨.one, definition⟩)
  save id definition s := s.answer (.save id definition) s.saveError (.ok ⟨id, definition⟩)
  delete id s := s.answer (.delete id) s.deleteError (.ok ())

end BoolCalc.Store
