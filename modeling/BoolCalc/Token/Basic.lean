import BoolCalc.Expr
import BoolCalc.Source.Span

namespace BoolCalc

/-!
# Tokens

* `Token` : the smallest parts of an expression;
* `Token.kind`, `Token.display` : the name of its kind, and the words an error uses for it;
* `Spanned` : something with the span it was read from;
* `Token.toJson`, `Span.toJson`, `Spanned.toJson` : the JSON forms.
-/

/-- A part of an expression, as the lexer hands it to the parser. -/
inductive Token where
  | identifier (name : String)
  | and
  | or
  | not
  | openParen
  | closeParen
  | literal (value : Bool)
  | reserved (operator : String)
  | endOfInput
  deriving DecidableEq, Repr, Inhabited

namespace Token

/-- Whether an operand can begin with the token. -/
def startsOperand : Token → Bool
  | .identifier _ | .not | .openParen | .literal _ => true
  | _ => false

/-- Whether the token joins two operands: `.and` or `.or`. -/
def isBinary : Token → Bool
  | .and | .or => true
  | _ => false

/-- True for `endOfInput`. -/
def isEnd : Token → Bool
  | .endOfInput => true
  | _ => false

/-- The name of the kind of token in `TokenStream.kindCounts`. -/
def kind : Token → String
  | .identifier _ => "IDENTIFIER"
  | .and => "AND"
  | .or => "OR"
  | .not => "NOT"
  | .openParen => "LPAREN"
  | .closeParen => "RPAREN"
  | .literal _ => "BOOLEAN_LITERAL"
  | .reserved _ => "RESERVED_OPERATOR"
  | .endOfInput => "EOF"

/-- The words of `ParseError.found` for the token. -/
def display : Token → String
  | .identifier name => s!"identifier '{name}'"
  | .and => "AND"
  | .or => "OR"
  | .not => "NOT"
  | .openParen => "'('"
  | .closeParen => "')'"
  | .literal value => "literal " ++ Expr.boolText value
  | .reserved operator => s!"'{operator}'"
  | .endOfInput => "end of input"

/-- The token as JSON: its name, or an object with its payload under that name. -/
def toJson : Token → Json
  | .identifier name => .object [("Identifier", .string name)]
  | .and => .string "And"
  | .or => .string "Or"
  | .not => .string "Not"
  | .openParen => .string "LParen"
  | .closeParen => .string "RParen"
  | .literal value => .object [("BooleanLiteral", .bool value)]
  | .reserved operator => .object [("ReservedOperator", .string operator)]
  | .endOfInput => .string "Eof"

end Token

/-- A `value` with the span it was read from. -/
structure Spanned (α : Type) where
  value : α
  span : Span
  deriving DecidableEq, Repr, Inhabited

namespace Spanned

/-- The value `f x.value` in the same place. -/
def map (f : α → β) (x : Spanned α) : Spanned β := ⟨f x.value, x.span⟩

end Spanned

def Position.toJson (p : Position) : Json :=
  .object [("offset", .nat p.offset), ("line", .nat p.line), ("column", .nat p.column)]

/-- The span as JSON; `stop` is called `end` there. -/
def Span.toJson (s : Span) : Json :=
  .object [("start", s.start.toJson), ("end", s.stop.toJson)]

def Spanned.toJson (t : Spanned Token) : Json :=
  .object [("value", t.value.toJson), ("span", t.span.toJson)]

end BoolCalc
