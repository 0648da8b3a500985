import BoolCalc.Json.Decode
import BoolCalc.Json.Reader
import BoolCalc.Json.Writer
import BoolCalc.Store.Id
import BoolCalc.Store.Timestamp

namespace BoolCalc.Store

/-!
# Stored expressions

* `Expression` : a definition under a number;
* `Snapshot` : what a store file holds;
* `Snapshot.text`, `Snapshot.parse?` : the text of a store file, and reading one.
-/

structure Expression where
  id : Id
  definition : String
  deriving DecidableEq, Inhabited

namespace Expression

def toJson (e : Expression) : Json :=
  .object [("id", .int e.id.value), ("definition", .string e.definition)]

/-- The JSON of `e` without white space, for a client. -/
def text (e : Expression) : String := e.toJson.compact

/-- The expression that `v` stands for; both fields are needed. -/
def ofJson? (v : Json) : Option Expression :=
  match v.fields? ["id", "definition"] with
  | some [some id, some definition] => do
    let id ← id.int64?.bind Id.ofInt?
    let definition ← definition.string?
    some { id, definition }
  | _ => none

end Expression

/-- What a store file holds. -/
structure Snapshot where
  savedAt : Option Timestamp := none
  expressions : List Expression
  deriving DecidableEq, Inhabited

namespace Snapshot

/-- The snapshot as JSON; without `savedAt` there is no such member. -/
def toJson (s : Snapshot) : Json :=
  .object (Json.optional "saved_at" (s.savedAt.map fun t => .string t.text) ++
    [("expressions", .array (s.expressions.map Expression.toJson))])

/-- The time of saving that a JSON value stands for; `null` says that it is unknown. -/
def savedAtOfJson? (v : Json) : Option (Option Timestamp) :=
  match v with
  | .null => some none
  | .string s => (Timestamp.ofText? s).map some
  | _ => none

/-- The expressions that the array `v` stands for, if each of its items is one. -/
def expressionsOfJson? (v : Json) : Option (List Expression) :=
  match v with
  | .array items => items.mapM Expression.ofJson?
  | _ => none

/-- The snapshot that `v` stands for; `saved_at` may be missing. -/
def ofJson? (v : Json) : Option Snapshot :=
  match v.fields? ["saved_at", "expressions"] with
  | some [savedAt, some expressions] => do
    let savedAt ← (savedAt.map savedAtOfJson?).getD (some none)
    let expressions ← expressionsOfJson? expressions
    some { savedAt, expressions }
  | _ => none

/-- The text of a store file: `toJson`, indented. -/
def text (s : Snapshot) : String := s.toJson.pretty

/-- The snapshot in the text `s` of a store file. -/
def parse? (s : String) : Option Snapshot := (Json.parse? s).bind ofJson?

end Snapshot

end BoolCalc.Store
