import BoolCalc.Json.Value
import BoolCalc.Text.Integer

namespace BoolCalc.Json

/-!
# Records in JSON

* `fields?` : the fields of a record, written as an object or as an array;
* `string?`, `optionalString?`, `int64?` : the values of fields.

A record written as an object may have members that it does not know; it may not have a field twice. A
record written as an array has its fields in the declared order, and the last ones may be missing.
-/

/-- The value of the only member with a name; `some none` if there is no such member, and `none` if there
are several. -/
def member? (name : String) (ms : List (String × Json)) : Option (Option Json) :=
  match ms.filter (·.1 == name) with
  | [] => some none
  | [(_, v)] => some (some v)
  | _ => none

/-- The fields with the given `names`, each with its value if it is there. An array gives its items to the names in
order. -/
def fields? (names : List String) : Json → Option (List (Option Json))
  | .object ms => names.mapM fun name => member? name ms
  | .array items =>
    if items.length ≤ names.length then
      some (items.map some ++ List.replicate (names.length - items.length) none)
    else none
  | _ => none

def string? : Json → Option String
  | .string s => some s
  | _ => none

/-- A string or `null`. -/
def optionalString? : Json → Option (Option String)
  | .string s => some (some s)
  | .null => some none
  | _ => none

/-- An integer of 64 bits, written with a sign and digits only; `-0` is no integer. -/
def int64? : Json → Option Int
  | .number literal => if literal == "-0" then none else Text.parseInt64? literal
  | _ => none

end BoolCalc.Json
