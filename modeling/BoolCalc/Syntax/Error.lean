import BoolCalc.Limits
import BoolCalc.Log.Code
import BoolCalc.Source.Span
import BoolCalc.Token.Basic

namespace BoolCalc

/-!
# Syntax errors

* `ParseError` : the ways in which a sequence of tokens is no expression;
* `ParseError.message`, `ParseError.expected`, `ParseError.found` : what is said about them;
* `ParseError.span` : the offending token.
-/

/-- Why a sequence of tokens is no expression. The `span` is that of the token at fault. -/
inductive ParseError where
  | unexpectedToken (expected found : String) (span : Span)
  /-- A `(` that is never closed; `span` is where it stands, and `found` is what stands in place of its partner. -/
  | unclosedParenthesis (span : Span) (found : String)
  /-- A `)` that was never opened. -/
  | unopenedParenthesis (span : Span)
  | trailingInput (found : String) (span : Span)
  /-- No token but the end of input. -/
  | emptyExpression (span : Span)
  /-- A `(` or NOT under `Limits.parseDepth` others. -/
  | tooDeep (span : Span)
  deriving DecidableEq, Repr, Inhabited

namespace ParseError

/-- The words of `expected` for an operand. -/
def operandWords : String := "identifier, literal, NOT or '('"

/-- The words of `expected` for what may follow a complete expression. -/
def continuationWords : String := "AND, OR or end of input"

def span : ParseError → Span
  | .unexpectedToken _ _ s => s
  | .unclosedParenthesis s _ => s
  | .unopenedParenthesis s => s
  | .trailingInput _ s => s
  | .emptyExpression s => s
  | .tooDeep s => s

/-- The offset where `e.span` starts. -/
def position (e : ParseError) : Nat := e.span.start.offset

/-- What the grammar has in the place of the `span`, in words. -/
def expected : ParseError → String
  | .unexpectedToken words _ _ => words
  | .unclosedParenthesis .. => "')'"
  | .unopenedParenthesis _ => continuationWords
  | .trailingInput .. => continuationWords
  | .emptyExpression _ => operandWords
  | .tooDeep _ => "less deeply nested expression"

/-- What stands in the place of the `span`, in words. -/
def found : ParseError → String
  | .unexpectedToken _ words _ => words
  | .unclosedParenthesis _ words => words
  | .unopenedParenthesis _ => "')'"
  | .trailingInput words _ => words
  | .emptyExpression _ => "end of input"
  | .tooDeep _ => "nesting limit"

/-- What `e` prints; all but `emptyExpression` and `tooDeep` name the place. -/
def message (e : ParseError) : String :=
  match e with
  | .unexpectedToken expected found _ =>
    s!"Unexpected token at offset {e.position}: expected {expected}, found {found}"
  | .unclosedParenthesis .. => s!"Unmatched '(' at offset {e.position}"
  | .unopenedParenthesis _ => s!"Unmatched ')' at offset {e.position}"
  | .trailingInput found _ =>
    s!"Unexpected {found} at offset {e.position} after a complete expression"
  | .emptyExpression _ => "Empty expression"
  | .tooDeep _ =>
    s!"Expression nested deeper than {Limits.parseDepth} levels at offset {e.position}"

def code : ParseError → Log.Code
  | .unexpectedToken .. => .unexpectedToken
  | .unclosedParenthesis .. | .unopenedParenthesis _ => .unmatchedParenthesis
  | .trailingInput .. => .trailingInput
  | .emptyExpression _ => .emptyExpression
  | .tooDeep _ => .parseDepth

end ParseError

end BoolCalc
