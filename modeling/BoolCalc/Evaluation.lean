import BoolCalc.Expr
import BoolCalc.Limits
import BoolCalc.Log.Logged
import BoolCalc.Preferences

namespace BoolCalc

/-!
# Evaluation of a tree

* `EvaluationError` : the ways in which a tree has no value;
* `Evaluation.operands` : the operands of a run of one connective;
* `Evaluation.depthUnder` : the depth at which an operand is evaluated;
* `Evaluation.walk`, `Evaluation.walkRun` : the value of a tree whose variables are bound, and of a run;
* `evaluate` : the value of any tree, with the log event for the outcome.

Depth counts what a text for the tree would have to nest: one level for each negation, and one for each
run of equal connectives that needs parentheses where it stands. The operands of such a run stand side
by side, however many they are.
-/

/-- Why a tree has no value: the first variable without one, or a node below `Limits.evaluationDepth`. -/
inductive EvaluationError where
  | unboundVariable (name : String)
  | tooDeep
  deriving DecidableEq, Repr, Inhabited

namespace EvaluationError

/-- What `e` prints, also as the `message` of its event. -/
def message : EvaluationError → String
  | .unboundVariable name => s!"Variable '{name}' is not bound"
  | .tooDeep => s!"Expression tree nested deeper than {Limits.evaluationDepth} levels"

def code : EvaluationError → Log.Code
  | .unboundVariable _ => .unboundVariable
  | .tooDeep => .evaluationDepth

/-- The variable that `e` is about, if it is about one. -/
def name? : EvaluationError → Option String
  | .unboundVariable name => some name
  | .tooDeep => none

end EvaluationError

namespace Evaluation

/-- What joins the operands of a run: `a AND b AND c` is one run, however it is nested to the left. -/
inductive Connective where
  | and
  | or
  deriving DecidableEq, Repr, Inhabited

/-- The value of an operand that decides a run: `false` for `and`, `true` for `or`. -/
def Connective.absorbing : Connective → Bool
  | .and => false
  | .or => true

/-- The depth of an operand at which `walk` evaluates it. The connective above it is `parent`, or `none` for a
negation, and stands at `depth`. A disjunction needs parentheses everywhere, a conjunction everywhere but in a
disjunction, and all else nowhere; each pair counts as `1`. -/
def depthUnder (parent : Option Connective) (depth : Nat) : Expr → Nat
  | .or _ _ => depth + 1
  | .and _ _ => if parent = some .or then depth else depth + 1
  | _ => depth

/-- The operands of a tree taken as a run of `c` that leans to the left, in front of the operands in `later`. -/
def operandsBefore (c : Connective) (later : List Expr) : Expr → List Expr
  | .and l r => if c = .and then operandsBefore c (r :: later) l else .and l r :: later
  | .or l r => if c = .or then operandsBefore c (r :: later) l else .or l r :: later
  | e => e :: later

/-- The operands of a run whose last connective joins `l` and `r`, leftmost first. -/
def operands (c : Connective) (l r : Expr) : List Expr := operandsBefore c [r] l

/-- The sum of `Expr.nodeCount`, the measure by which `walkRun` ends. -/
def totalNodes : List Expr → Nat
  | [] => 0
  | e :: es => e.nodeCount + totalNodes es

/-- Taking a run of `c` apart adds no nodes. -/
theorem totalNodes_operandsBefore_le (c : Connective) (later : List Expr) (e : Expr) :
    totalNodes (operandsBefore c later e) ≤ e.nodeCount + totalNodes later := by
  fun_induction operandsBefore c later e with
  | case1 later l r hc ih =>
    simp only [totalNodes, Expr.nodeCount] at ih ⊢
    omega
  | case2 => exact Nat.le_refl _
  | case3 later l r hc ih =>
    simp only [totalNodes, Expr.nodeCount] at ih ⊢
    omega
  | case4 => exact Nat.le_refl _
  | case5 => exact Nat.le_refl _

/-- The operands of a run have fewer nodes than the run `c l r`. -/
theorem totalNodes_operands_lt (c : Connective) (l r : Expr) :
    totalNodes (operands c l r) < 1 + l.nodeCount + r.nodeCount := by
  have h := totalNodes_operandsBefore_le c [r] l
  simp only [totalNodes, operands] at h ⊢
  omega

mutual

/-- The value of the tree `e` at the depth `depth`. With `short`, the operands of a run behind one that decides it
are skipped. -/
def walk (short : Bool) (b : Bindings) (depth : Nat) (e : Expr) : Except EvaluationError Bool :=
  if Limits.evaluationDepth < depth then .error .tooDeep
  else
    match e with
    | .literal value => .ok value
    | .variable name =>
      match b.get? name with
      | some value => .ok value
      | none => .error (.unboundVariable name)
    | .not e => (walk short b (depthUnder none (depth + 1) e) e).map (!·)
    | .and l r => walkRun short b .and depth false (operands .and l r)
    | .or l r => walkRun short b .or depth false (operands .or l r)
termination_by (e.nodeCount, 0)
decreasing_by
  · exact Prod.Lex.left _ _ (by simp only [Expr.nodeCount]; omega)
  · exact Prod.Lex.left _ _ (totalNodes_operands_lt _ _ _)
  · exact Prod.Lex.left _ _ (totalNodes_operands_lt _ _ _)

/-- The value of a run at a depth, `es` being the operands that are left; `decided` tells whether one
before them decides it. -/
def walkRun (short : Bool) (b : Bindings) (c : Connective) (depth : Nat) (decided : Bool)
    (es : List Expr) : Except EvaluationError Bool :=
  match es with
  | [] => .ok (if decided then c.absorbing else !c.absorbing)
  | e :: es =>
    if decided && short then .ok c.absorbing
    else
      match walk short b (depthUnder (some c) depth e) e with
      | .error err => .error err
      | .ok x => walkRun short b c depth (decided || x == c.absorbing) es
termination_by (totalNodes es, es.length + 1)
decreasing_by
  · refine Prod.Lex.right' _ ?_ ?_ <;> simp [totalNodes]
  · refine Prod.Lex.right' _ ?_ ?_ <;> simp [totalNodes]

end

/-- The first of `e.vars` that `b` leaves without a value, from left to right. -/
def firstUnbound? (b : Bindings) (e : Expr) : Option String :=
  e.vars.find? fun name => !b.contains name

/-- The value of `e` from `walk`: all of `e.vars` have to be bound, whether or not their values matter. -/
def run (short : Bool) (e : Expr) (b : Bindings) : Except EvaluationError Bool :=
  -- This comes before any depth is looked at.
  match firstUnbound? b e with
  | some name => .error (.unboundVariable name)
  | none => walk short b 0 e

end Evaluation

/-- The value of `e` from `Evaluation.run`, with the log event for the outcome. -/
def evaluate (preferences : Preferences.Evaluation) (e : Expr) (b : Bindings) :
    Log.Logged (Except EvaluationError Bool) :=
  let result := Evaluation.run preferences.shortCircuit e b
  match result with
  | .ok value => .noting result (.stage .evaluationComplete "Evaluation completed"
      [("result", Expr.boolText value), ("variables", toString b.size)])
  | .error err => .noting result (.failure err.code err.message none
      [("variable", err.name?.getD "-")])

end BoolCalc
