import BoolCalc.Bindings
import BoolCalc.Json.Value

namespace BoolCalc

/-!
# Boolean expressions

* `Expr` : the tree of an expression;
* `Expr.names`, `Expr.vars`, `Expr.sortedVariables` : the variables as they occur, each once in the
  order of first occurrence, and each once in the order of code points;
* `Expr.substitute` : values put in for bound variables;
* `Expr.depth`, `Expr.nodeCount` : measures of the tree;
* `Expr.render` : the canonical text, every conjunction and disjunction in parentheses;
* `Expr.toJson`, `Expr.ofJson?` : the tree as JSON, and back.
-/

/-- A boolean expression. The tree keeps no parentheses, and no spelling of keywords. -/
inductive Expr where
  | variable (name : String)
  | literal (value : Bool)
  | not (operand : Expr)
  | and (left right : Expr)
  | or (left right : Expr)
  deriving DecidableEq, Repr, Inhabited

namespace Expr

/-! ### Variables -/

/-- The names of the variables as they occur in `e` from left to right. -/
def names : Expr → List String
  | .variable name => [name]
  | .literal _ => []
  | .not e => e.names
  | .and l r | .or l r => l.names ++ r.names

/-- The `names`, each once, in the order of first occurrence. -/
def vars (e : Expr) : List String := e.names.eraseDups

/-- The `vars` in the order of code points. -/
def sortedVariables (e : Expr) : List String := e.vars.mergeSort (· ≤ ·)

/-- The tree with `.literal value` for every variable that `b` binds to `value`; the others stay. -/
def substitute (b : Bindings) : Expr → Expr
  | .variable name =>
    match b.get? name with
    | some value => .literal value
    | none => .variable name
  | .literal value => .literal value
  | .not e => .not (e.substitute b)
  | .and l r => .and (l.substitute b) (r.substitute b)
  | .or l r => .or (l.substitute b) (r.substitute b)

/-! ### Measures -/

/-- The number of nodes on the longest path from the root to a leaf; `1` for a leaf. -/
def depth : Expr → Nat
  | .variable _ | .literal _ => 1
  | .not e => 1 + e.depth
  | .and l r | .or l r => 1 + max l.depth r.depth

def nodeCount : Expr → Nat
  | .variable _ | .literal _ => 1
  | .not e => 1 + e.nodeCount
  | .and l r | .or l r => 1 + l.nodeCount + r.nodeCount

/-! ### Text -/

/-- The spelling of a truth value, which is `Keyword.canonical` of its keyword. -/
def boolText (b : Bool) : String := if b then "true" else "false"

/-- The canonical text: keywords in the spelling of `Keyword.canonical`, and one pair of parentheses around every
conjunction and disjunction. -/
def render : Expr → String
  | .variable name => name
  | .literal value => boolText value
  | .not e => "NOT " ++ e.render
  | .and l r => "(" ++ l.render ++ " AND " ++ r.render ++ ")"
  | .or l r => "(" ++ l.render ++ " OR " ++ r.render ++ ")"

/-- The tree as JSON: each node is an object with one member, which is called `variable`, `literal`, `not`, `and` or
`or`. -/
def toJson : Expr → Json
  | .variable name => .object [("variable", .string name)]
  | .literal value => .object [("literal", .bool value)]
  | .not e => .object [("not", e.toJson)]
  | .and l r => .object [("and", .array [l.toJson, r.toJson])]
  | .or l r => .object [("or", .array [l.toJson, r.toJson])]

/-- The number of brackets that may be open at once when `ofJson?` reads a tree. -/
def jsonDepth : Nat := 127

/-- Reads a tree from a JSON value inside `depth` brackets; at most `jsonDepth` may be open. -/
def ofJsonAt? (depth : Nat) : Json → Option Expr
  | .object [("variable", .string name)] =>
    if depth < jsonDepth then some (.variable name) else none
  | .object [("literal", .bool value)] =>
    if depth < jsonDepth then some (.literal value) else none
  | .object [("not", e)] => if depth < jsonDepth then (ofJsonAt? (depth + 1) e).map .not else none
  | .object [("and", .array [l, r])] =>
    if depth + 1 < jsonDepth then
      match ofJsonAt? (depth + 2) l, ofJsonAt? (depth + 2) r with
      | some l, some r => some (.and l r)
      | _, _ => none
    else none
  | .object [("or", .array [l, r])] =>
    if depth + 1 < jsonDepth then
      match ofJsonAt? (depth + 2) l, ofJsonAt? (depth + 2) r with
      | some l, some r => some (.or l r)
      | _, _ => none
    else none
  | _ => none

/-- The tree that `v` stands for, if its brackets keep to `jsonDepth`. -/
def ofJson? (v : Json) : Option Expr := ofJsonAt? 0 v

end Expr

end BoolCalc
