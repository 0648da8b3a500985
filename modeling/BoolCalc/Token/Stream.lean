import BoolCalc.Token.Basic

namespace BoolCalc

/-!
# Streams of tokens

* `TokenStream` : tokens up to the end of input, and a place among them;
* `TokenStream.ofTokens` : the stream of a list of tokens, closed with an end of input if it has none;
* `TokenStream.current`, `TokenStream.peek`, `TokenStream.advance`, `TokenStream.reset` : reading;
* `TokenStream.kindCounts` : how often each kind of token occurs.
-/

/-- Tokens up to an end of input, and the place of the reader. -/
structure TokenStream where
  body : List (Spanned Token)
  final : Span
  /-- The number of tokens read, at most the number of tokens in `body`. -/
  cursor : Nat := 0
  deriving DecidableEq, Repr, Inhabited

namespace TokenStream

/-- The end of input, with the span `s.final`. -/
def last (s : TokenStream) : Spanned Token := ⟨.endOfInput, s.final⟩

/-- All tokens, `last` included. -/
def tokens (s : TokenStream) : List (Spanned Token) := s.body ++ [s.last]

/-- The stream of the tokens `ts`. Unless the last one is `endOfInput`, one is added behind it. -/
def ofTokens (ts : List (Spanned Token)) : TokenStream :=
  match ts.getLast? with
  | none => { body := [], final := .point .start }
  | some t =>
    if t.value = .endOfInput then { body := ts.dropLast, final := t.span }
    else { body := ts, final := .point t.span.stop }

/-- The token at the place `i`; `last` stands at every place behind the others. -/
def tokenAt (s : TokenStream) (i : Nat) : Spanned Token := (s.body[i]?).getD s.last

/-- The next token to be read, at `cursor`. -/
def current (s : TokenStream) : Spanned Token := s.tokenAt s.cursor

/-- The token after `current`. -/
def peek (s : TokenStream) : Spanned Token := s.tokenAt (s.cursor + 1)

/-- Reads `current`; the end of input can be read any number of times. -/
def advance (s : TokenStream) : Spanned Token × TokenStream :=
  (s.current, if s.cursor < s.body.length then { s with cursor := s.cursor + 1 } else s)

def isAtEnd (s : TokenStream) : Bool := s.current.value.isEnd

/-- The stream with its `cursor` at the start again. -/
def reset (s : TokenStream) : TokenStream := { s with cursor := 0 }

def length (s : TokenStream) : Nat := s.body.length

def isEmpty (s : TokenStream) : Bool := s.length == 0

/-- The counts with one more token of `kind`; a new kind is added at the end. -/
def countKind (kind : String) : List (String × Nat) → List (String × Nat)
  | [] => [(kind, 1)]
  | (k, n) :: rest => if k = kind then (k, n + 1) :: rest else (k, n) :: countKind kind rest

/-- How often each kind of token occurs in `body`, in the order of first occurrence. -/
def kindCounts (s : TokenStream) : List (String × Nat) :=
  s.body.foldl (fun counts t => countKind t.value.kind counts) []

def toJson (s : TokenStream) : Json :=
  .object [("tokens", .array (s.tokens.map Spanned.toJson))]

end TokenStream

end BoolCalc
