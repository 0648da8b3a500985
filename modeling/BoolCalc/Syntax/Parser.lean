import BoolCalc.Log.Logged
import BoolCalc.Syntax.Error
import BoolCalc.Token.Stream

namespace BoolCalc

/-!
# From tokens to a tree

* `Syntax.disjunction`, `Syntax.conjunction`, `Syntax.unary`, `Syntax.atom` : one function for each rule
  of the grammar
  - `orExpr := andExpr (OR andExpr)*`
  - `andExpr := unary (AND unary)*`
  - `unary := NOT unary | atom`
  - `atom := IDENTIFIER | BOOLEAN_LITERAL | '(' orExpr ')'`;
* `Syntax.parseTokens` : a whole sequence of tokens;
* `parse` : the tokens of a stream, with the log event for the outcome.

A function is given the depth it works at, which is the number of parentheses and negations around it,
and the greatest depth reached so far. It hands back the tokens that it leaves.
-/

namespace Syntax

/-- A failure of the parser, and the greatest depth before it. -/
structure Stop where
  error : ParseError
  /-- The greatest `depth` that was reached. -/
  deepest : Nat
  deriving DecidableEq, Repr

/-- A tree read from some tokens, with fewer than `n` tokens left. The bound makes the rules end. -/
structure Progress (n : Nat) where
  tree : Expr
  rest : List (Spanned Token)
  /-- The greatest `depth` that was reached. -/
  deepest : Nat
  fewer : rest.length < n

/-- The same progress under a weaker bound `n`. -/
def Progress.weaken (h : m ≤ n) (p : Progress m) : Progress n :=
  { p with fewer := Nat.lt_of_lt_of_le p.fewer h }

/-- The progress `p` with the tree `f p.tree`. -/
def Progress.withTree (f : Expr → Expr) (p : Progress n) : Progress n :=
  { p with tree := f p.tree }

/-- What a rule of the grammar comes to, read from `n` tokens. -/
abbrev Outcome (n : Nat) := Except Stop (Progress n)

/-- The first of the tokens `ts`, where the end of input stands at `final` behind them. -/
def headToken (final : Span) (ts : List (Spanned Token)) : Spanned Token :=
  ts.head?.getD ⟨.endOfInput, final⟩

/-- The failure at a token `t` that no operand starts with. Only outside of parentheses and negations, with
`depth = 0`, is a `)` said to be unopened. -/
def operandError (depth : Nat) (t : Spanned Token) : ParseError :=
  match t.value with
  | .closeParen =>
    if depth = 0 then .unopenedParenthesis t.span
    else .unexpectedToken ParseError.operandWords t.value.display t.span
  | _ => .unexpectedToken ParseError.operandWords t.value.display t.span

/-- The failure at a token `t` in the place of the `)` for the parenthesis at `opener`. -/
def closingError (opener : Span) (t : Spanned Token) : ParseError :=
  match t.value with
  | .endOfInput => .unclosedParenthesis opener t.value.display
  | _ => .unexpectedToken "')'" t.value.display t.span

mutual

/-- `orExpr := andExpr (OR andExpr)*`, grouped from the left. -/
def disjunction (final : Span) (depth deepest : Nat) (ts : List (Spanned Token)) :
    Outcome ts.length :=
  match conjunction final depth deepest ts with
  | .error stop => .error stop
  | .ok p =>
    (disjunctionTail final depth p.deepest p.tree p.rest).map (.weaken p.fewer)
termination_by (ts.length, 3)
decreasing_by
  · exact Prod.Lex.right _ (by decide)
  · exact Prod.Lex.left _ _ p.fewer

/-- `(OR andExpr)*`, behind the tree `left`. -/
def disjunctionTail (final : Span) (depth deepest : Nat) (left : Expr)
    (ts : List (Spanned Token)) : Outcome (ts.length + 1) :=
  match ts with
  | ⟨.or, _⟩ :: rest =>
    match conjunction final depth deepest rest with
    | .error stop => .error stop
    | .ok p =>
      (disjunctionTail final depth p.deepest (.or left p.tree) p.rest).map
        (.weaken (by have := p.fewer; simp only [List.length_cons]; omega))
  | ts => .ok ⟨left, ts, deepest, Nat.lt_succ_self _⟩
termination_by (ts.length, 0)
decreasing_by
  · exact Prod.Lex.left _ _ (Nat.lt_succ_self _)
  · exact Prod.Lex.left _ _ (by have := p.fewer; simp only [List.length_cons]; omega)

/-- `andExpr := unary (AND unary)*`, grouped from the left. -/
def conjunction (final : Span) (depth deepest : Nat) (ts : List (Spanned Token)) :
    Outcome ts.length :=
  match unary final depth deepest ts with
  | .error stop => .error stop
  | .ok p =>
    (conjunctionTail final depth p.deepest p.tree p.rest).map (.weaken p.fewer)
termination_by (ts.length, 2)
decreasing_by
  · exact Prod.Lex.right _ (by decide)
  · exact Prod.Lex.left _ _ p.fewer

/-- `(AND unary)*`, behind the tree `left`. -/
def conjunctionTail (final : Span) (depth deepest : Nat) (left : Expr)
    (ts : List (Spanned Token)) : Outcome (ts.length + 1) :=
  match ts with
  | ⟨.and, _⟩ :: rest =>
    match unary final depth deepest rest with
    | .error stop => .error stop
    | .ok p =>
      (conjunctionTail final depth p.deepest (.and left p.tree) p.rest).map
        (.weaken (by have := p.fewer; simp only [List.length_cons]; omega))
  | ts => .ok ⟨left, ts, deepest, Nat.lt_succ_self _⟩
termination_by (ts.length, 0)
decreasing_by
  · exact Prod.Lex.left _ _ (Nat.lt_succ_self _)
  · exact Prod.Lex.left _ _ (by have := p.fewer; simp only [List.length_cons]; omega)

/-- `unary := NOT unary | atom`. A NOT counts for the depth. -/
def unary (final : Span) (depth deepest : Nat) (ts : List (Spanned Token)) : Outcome ts.length :=
  match ts with
  | ⟨.not, span⟩ :: rest =>
    if Limits.parseDepth ≤ depth then .error ⟨.tooDeep span, deepest⟩
    else
      (unary final (depth + 1) (max deepest (depth + 1)) rest).map fun p =>
        (p.withTree .not).weaken (Nat.le_succ _)
  | ts => atom final depth deepest ts
termination_by (ts.length, 1)
decreasing_by
  · exact Prod.Lex.left _ _ (Nat.lt_succ_self _)
  · exact Prod.Lex.right _ (by decide)

/-- `atom := IDENTIFIER | BOOLEAN_LITERAL | '(' orExpr ')'`. A parenthesis counts for the depth. -/
def atom (final : Span) (depth deepest : Nat) (ts : List (Spanned Token)) : Outcome ts.length :=
  match ts with
  | ⟨.identifier name, _⟩ :: rest => .ok ⟨.variable name, rest, deepest, Nat.lt_succ_self _⟩
  | ⟨.literal value, _⟩ :: rest => .ok ⟨.literal value, rest, deepest, Nat.lt_succ_self _⟩
  | ⟨.openParen, span⟩ :: rest =>
    if Limits.parseDepth ≤ depth then .error ⟨.tooDeep span, deepest⟩
    else
      match disjunction final (depth + 1) (max deepest (depth + 1)) rest with
      | .error stop => .error stop
      | .ok ⟨tree, inner, deepest, fewer⟩ =>
        match inner with
        | ⟨.closeParen, _⟩ :: after =>
          .ok ⟨tree, after, deepest, by simp only [List.length_cons] at fewer ⊢; omega⟩
        | inner => .error ⟨closingError span (headToken final inner), deepest⟩
  | ts => .error ⟨operandError depth (headToken final ts), deepest⟩
termination_by (ts.length, 0)
decreasing_by exact Prod.Lex.left _ _ (Nat.lt_succ_self _)

end

/-- What `parseTokens` comes to. -/
structure Parse where
  result : Except ParseError Expr
  /-- The greatest number of parentheses and negations around a token that was read. -/
  deepest : Nat

/-- The failure at a token `t` behind a complete expression. -/
def afterError (t : Spanned Token) : ParseError :=
  match t.value with
  | .closeParen => .unopenedParenthesis t.span
  | _ => .trailingInput t.value.display t.span

/-- Reads all tokens of `ts` up to an end of input; behind the last one there is an end of input at `final`. -/
def parseTokens (final : Span) (ts : List (Spanned Token)) : Parse :=
  let first := headToken final ts
  if first.value.isEnd then ⟨.error (.emptyExpression first.span), 0⟩
  else
    match disjunction final 0 0 ts with
    | .error stop => ⟨.error stop.error, stop.deepest⟩
    | .ok p =>
      let next := headToken final p.rest
      if next.value.isEnd then ⟨.ok p.tree, p.deepest⟩
      else ⟨.error (afterError next), p.deepest⟩

/-- The log event for `p.result`. -/
def Parse.event (p : Parse) : Log.Event :=
  match p.result with
  | .ok tree =>
    .stage .parseComplete "Parsing completed"
      [("nodes", toString tree.nodeCount), ("depth", toString p.deepest)]
  | .error e =>
    .failure e.code e.message (some e.span) [("expected", e.expected), ("found", e.found)]

end Syntax

/-- Reads the tokens of `s.body` from the first one on, wherever the cursor of `s` stands. -/
def parseStream (s : TokenStream) : Log.Logged Syntax.Parse :=
  let p := Syntax.parseTokens s.final s.body
  .noting p p.event

/-- The tree of the tokens of `s`, with the log event for the outcome. -/
def parse (s : TokenStream) : Log.Logged (Except ParseError Expr) :=
  let p := parseStream s
  ⟨p.value.result, p.events⟩

end BoolCalc
