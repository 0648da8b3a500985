import BoolCalc.Proofs.Grammar.Derivation

namespace BoolCalc

open Grammar

/-!
# The derivation of the canonical text

* `Expr.joins`, `Expr.canonicalSize` : the number of conjunctions and disjunctions, and the number of
  tokens of the canonical text;
* `Expr.canonicalUnary`, `Expr.canonical` : the derivation with one pair of parentheses around every
  conjunction and disjunction;
* `Expr.value_canonical`, `Expr.nesting_canonical`, `Expr.length_tokens_canonical` : its tree, its
  nesting, and the number of its tokens.
-/

namespace Expr

/-- The number of nodes `.and l r` and `.or l r`. -/
def joins : Expr → Nat
  | .variable _ | .literal _ => 0
  | .not e => e.joins
  | .and l r | .or l r => 1 + l.joins + r.joins

/-- The number of tokens of the canonical text: one for each of the `nodeCount` nodes, and two parentheses for each
of the `joins`. -/
def canonicalSize (e : Expr) : Nat := e.nodeCount + 2 * e.joins

/-- The canonical text as a `unary`: `.and` and `.or` stand in parentheses, `.not` before its operand. -/
def canonicalUnary : Expr → Derivation .unary
  | .variable name => .plain (.identifier name)
  | .literal value => .plain (.literal value)
  | .not e => .not e.canonicalUnary
  | .and l r =>
    .plain (.group (.disjunction (.conjunction l.canonicalUnary (.andCons r.canonicalUnary .andNil)) .orNil))
  | .or l r =>
    .plain (.group (.disjunction (.conjunction l.canonicalUnary .andNil)
      (.orCons (.conjunction r.canonicalUnary .andNil) .orNil)))

/-- The canonical text as an `orExpr` of a single `unary`. -/
def canonical (e : Expr) : Derivation .disjunction :=
  .disjunction (.conjunction e.canonicalUnary .andNil) .orNil

/-! ### The tree -/

theorem value_canonicalUnary (e : Expr) : e.canonicalUnary.value = e := by
  induction e with
  | «variable» | literal => rfl
  | not e ih => exact congrArg Expr.not ih
  | and l r ihl ihr => exact congrArg₂ Expr.and ihl ihr
  | or l r ihl ihr => exact congrArg₂ Expr.or ihl ihr

/-- `e.canonical` is a derivation of the tree `e`. -/
theorem value_canonical (e : Expr) : e.canonical.value = e := e.value_canonicalUnary

/-! ### The nesting -/

theorem nesting_canonicalUnary (e : Expr) : e.canonicalUnary.nesting + 1 = e.depth := by
  induction e with
  | «variable» | literal => rfl
  | not e ih => simp only [canonicalUnary, Derivation.nesting, depth]; omega
  | and l r ihl ihr | or l r ihl ihr =>
    simp only [canonicalUnary, Derivation.nesting, depth]
    omega

/-- The `nesting` of `e.canonical`: every node but the last on a path adds one parenthesis or NOT, so it is
`e.depth - 1`. -/
theorem nesting_canonical (e : Expr) : e.canonical.nesting = e.depth - 1 := by
  have := e.nesting_canonicalUnary
  simp only [canonical, Derivation.nesting]
  omega

/-! ### The tokens -/

theorem tokens_canonical (e : Expr) : e.canonical.tokens = e.canonicalUnary.tokens := by
  simp [canonical, Derivation.tokens]

theorem tokens_and (l r : Expr) : (Expr.and l r).canonicalUnary.tokens =
    .openParen :: (l.canonicalUnary.tokens ++ .and :: (r.canonicalUnary.tokens ++ [.closeParen])) := by
  simp [canonicalUnary, Derivation.tokens]

theorem tokens_or (l r : Expr) : (Expr.or l r).canonicalUnary.tokens =
    .openParen :: (l.canonicalUnary.tokens ++ .or :: (r.canonicalUnary.tokens ++ [.closeParen])) := by
  simp [canonicalUnary, Derivation.tokens]

theorem length_tokens_canonical (e : Expr) : e.canonical.tokens.length = e.canonicalSize := by
  rw [tokens_canonical, canonicalSize]
  induction e with
  | «variable» | literal => rfl
  | not e ih =>
    simp only [canonicalUnary, Derivation.tokens, List.length_cons, ih, nodeCount, joins]
    omega
  | and l r ihl ihr =>
    simp only [tokens_and, List.length_cons, List.length_append, List.length_nil, ihl, ihr, nodeCount, joins]
    omega
  | or l r ihl ihr =>
    simp only [tokens_or, List.length_cons, List.length_append, List.length_nil, ihl, ihr, nodeCount, joins]
    omega

end Expr

end BoolCalc
