namespace BoolCalc

/-!
# JSON values

* `Json` : a value, with the members of an object in the order of the text;
* `Json.nat`, `Json.int`, `Json.strings` : numbers and lists of strings;
* `Json.sortMembers` : an object with its members in the order of their keys.
-/

/-- A JSON value. Numbers keep their literal; `broken` stands for text whose escapes spell half of a
surrogate pair, which is well formed but no sequence of characters. -/
inductive Json where
  | null
  | bool (value : Bool)
  | number (literal : String)
  | string (value : String)
  | broken
  | array (items : List Json)
  | object (members : List (String × Json))
  deriving Inhabited

namespace Json

def nat (n : Nat) : Json := .number (toString n)

def int (n : Int) : Json := .number (toString n)

def strings (items : List String) : Json := .array (items.map .string)

/-- The member `key` for `some v`, and no member for `none`. -/
def optional (key : String) (value : Option Json) : List (String × Json) :=
  value.toList.map fun v => (key, v)

/-- An object with its members in the order of their keys; the members of the members stay as they are, unlike those
of `Event.toJson`. -/
def sortMembers : Json → Json
  | .object ms => .object (ms.mergeSort fun a b => a.1 ≤ b.1)
  | v => v

end Json

end BoolCalc
