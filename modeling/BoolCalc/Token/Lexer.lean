import BoolCalc.Keyword
import BoolCalc.Log.Logged
import BoolCalc.Preferences
import BoolCalc.Text.Character
import BoolCalc.Token.Stream

namespace BoolCalc

/-!
# From text to tokens

* `LexError` : the ways in which a text is no sequence of tokens;
* `Lexeme`, `lexeme` : the first token of a text that starts with a character other than a blank;
* `Scan`, `scan` : all tokens of a text, up to its end or the first failure;
* `LexMetrics` : tallies of the tokens recognised;
* `Lexer`, `Lexer.tokenize` : the reading of a text with its bounds, tallies and log events.
-/

/-! ### Failures -/

/-- Why a text is no sequence of tokens. -/
inductive LexError where
  | invalidCharacter (character : Char) (offset line column : Nat)
  | invalidIdentifier (text : String) (offset : Nat)
  | identifierTooLong (length offset : Nat)
  | expressionTooLong (length : Nat)
  | tooManyTokens (offset : Nat)
  deriving DecidableEq, Repr, Inhabited

namespace LexError

/-- What `e` prints, also as the `message` of its event, `tooManyTokens` apart. -/
def message : LexError → String
  | .invalidCharacter c offset line column =>
    s!"Invalid character '{c}' at offset {offset} (line {line}, column {column})"
  | .invalidIdentifier text offset =>
    s!"Invalid identifier '{text}' at offset {offset}: identifiers must not start with a digit"
  | .identifierTooLong length offset =>
    s!"Identifier too long at offset {offset}: {length} bytes (max {Limits.identifier})"
  | .expressionTooLong length =>
    s!"Expression too long: {length} bytes (max {Limits.expression})"
  | .tooManyTokens offset =>
    s!"Too many tokens: more than {Limits.tokens} at offset {offset}"

def code : LexError → Log.Code
  | .invalidCharacter .. | .invalidIdentifier .. => .invalidCharacter
  | .identifierTooLong .. => .identifierTooLong
  | .expressionTooLong .. => .expressionTooLong
  | .tooManyTokens .. => .tooManyTokens

/-- The offset of the failure; for `expressionTooLong` it is `Limits.expression`. -/
def offset : LexError → Nat
  | .invalidCharacter _ offset _ _ => offset
  | .invalidIdentifier _ offset => offset
  | .identifierTooLong _ offset => offset
  | .tooManyTokens offset => offset
  | .expressionTooLong _ => Limits.expression

end LexError

/-! ### One token -/

/-- A token at the front of a text: with the characters `more` that it is read from after the first, and those that
follow it. -/
structure Lexeme where
  token : Token
  more : List Char
  rest : List Char
  deriving DecidableEq, Repr

/-- Why no token starts with a character. -/
inductive LexFault where
  | character
  | digitFirst (word : List Char)
  | tooLong (length : Nat)
  deriving DecidableEq, Repr

/-- The failure that a fault of the character `c` at the position `p` amounts to. -/
def LexFault.toError (c : Char) (p : Position) : LexFault → LexError
  | .character => .invalidCharacter c p.offset p.line p.column
  | .digitFirst word => .invalidIdentifier (String.ofList word) p.offset
  | .tooLong length => .identifierTooLong length p.offset

/-- The token that `word` spells: a keyword, or else an identifier. -/
def Token.ofWord (word : List Char) : Token :=
  match Keyword.ofWord? word with
  | some .and => .and
  | some .or => .or
  | some .not => .not
  | some .true => .literal true
  | some .false => .literal false
  | none => .identifier (String.ofList word)

/-- The word `c :: more` at the front, which takes as many `Text.isWordChar` as it can. -/
def wordLexeme (c : Char) (cs : List Char) : Except LexFault Lexeme :=
  let more := cs.takeWhile Text.isWordChar
  let length := Text.byteLength (c :: more)
  if Limits.identifier < length then .error (.tooLong length)
  else .ok ⟨Token.ofWord (c :: more), more, cs.dropWhile Text.isWordChar⟩

/-- The reserved operator at the front, which is doubled when `c` follows once more. -/
def operatorLexeme (c : Char) (cs : List Char) : Lexeme :=
  match cs with
  | d :: ds =>
    if d = c then ⟨.reserved (String.ofList [c, d]), [d], ds⟩
    else ⟨.reserved (String.ofList [c]), [], cs⟩
  | [] => ⟨.reserved (String.ofList [c]), [], []⟩

/-- The token at the front of the text `c :: cs`; `bang` tells whether `!` means NOT. -/
def lexeme (bang : Bool) (c : Char) (cs : List Char) : Except LexFault Lexeme :=
  if c = '(' then .ok ⟨.openParen, [], cs⟩
  else if c = ')' then .ok ⟨.closeParen, [], cs⟩
  else if c = '!' ∧ bang = true then .ok ⟨.not, [], cs⟩
  else if c = '&' ∨ c = '|' then .ok (operatorLexeme c cs)
  else if Text.isWordStart c then wordLexeme c cs
  else if Text.isAsciiDigit c then .error (.digitFirst (c :: cs.takeWhile Text.isWordChar))
  else .error .character

/-- A token and what follows it make up the text: `l.more ++ l.rest = cs`. -/
theorem lexeme_append {bang : Bool} {c : Char} {cs : List Char} {l : Lexeme}
    (h : lexeme bang c cs = .ok l) : l.more ++ l.rest = cs := by
  have hop : (operatorLexeme c cs).more ++ (operatorLexeme c cs).rest = cs := by
    unfold operatorLexeme
    split
    · split <;> simp
    · rfl
  -- The branches of the lexer, in their order: the signs, an operator, a word, and the faults.
  unfold lexeme at h
  split at h
  · cases h; rfl
  split at h
  · cases h; rfl
  split at h
  · cases h; rfl
  split at h
  · cases h; exact hop
  split at h
  · unfold wordLexeme at h
    simp only at h
    split at h
    · cases h
    · cases h; exact List.takeWhile_append_dropWhile
  split at h <;> cases h

/-- What follows a token is no longer than `cs`, so that `scan` ends. -/
theorem lexeme_rest_length_le {bang : Bool} {c : Char} {cs : List Char} {l : Lexeme}
    (h : lexeme bang c cs = .ok l) : l.rest.length ≤ cs.length := by
  have := congrArg List.length (lexeme_append h)
  simp at this
  omega

/-! ### All tokens -/

/-- A failure and the `span` that a log event shows for it. -/
structure LexFailure where
  error : LexError
  span : Span
  deriving DecidableEq, Repr, Inhabited

/-- What `scan` comes to. -/
structure Scan where
  tokens : List (Spanned Token)
  /-- The position of the end of the text, or the failure that stopped the scan before it. -/
  ending : Except LexFailure Position

/-- The tokens of a text that stands at the position `p`, when `count` tokens were recognised before it. -/
def scan (bang : Bool) (count : Nat) (p : Position) : List Char → Scan
  | [] => ⟨[], .ok p⟩
  | c :: cs =>
    if Text.isBlank c then scan bang count (p.advance c) cs
    -- Blanks at the end of a text are no token too many.
    else if Limits.tokens ≤ count then ⟨[], .error ⟨.tooManyTokens p.offset, .point p⟩⟩
    else
      match h : lexeme bang c cs with
      | .error fault => ⟨[], .error ⟨fault.toError c p, .ofChar p c⟩⟩
      | .ok l =>
        have : l.rest.length < cs.length + 1 := Nat.lt_succ_of_le (lexeme_rest_length_le h)
        let stop := p.advanceOver (c :: l.more)
        let others := scan bang (count + 1) stop l.rest
        ⟨⟨l.token, ⟨p, stop⟩⟩ :: others.tokens, others.ending⟩
termination_by cs => cs.length

/-! ### Tallies -/

/-- The tallies of `tokenize`: how many tokens of some kinds were recognised, and the length of the longest
identifier. -/
structure LexMetrics where
  total : Nat := 0
  identifiers : Nat := 0
  /-- The tokens `and`, `or` and `not`, `!` included. -/
  connectives : Nat := 0
  literals : Nat := 0
  parens : Nat := 0
  longestIdentifier : Nat := 0
  deriving DecidableEq, Repr, Inhabited

/-- The tallies `m` with one more token; one that `scan` never makes counts for `total` only. -/
def LexMetrics.record (m : LexMetrics) (t : Token) : LexMetrics :=
  let m := { m with total := m.total + 1 }
  match t with
  | .identifier name =>
    { m with identifiers := m.identifiers + 1,
             longestIdentifier := max m.longestIdentifier name.utf8ByteSize }
  | .and | .or | .not => { m with connectives := m.connectives + 1 }
  | .literal _ => { m with literals := m.literals + 1 }
  | .openParen | .closeParen => { m with parens := m.parens + 1 }
  | .reserved _ | .endOfInput => m

/-- The tallies of the tokens `ts`. -/
def LexMetrics.ofTokens (ts : List (Spanned Token)) : LexMetrics :=
  ts.foldl (fun m t => m.record t.value) {}

/-! ### The lexer -/

/-- A reader of expressions: its preferences, and the `LexMetrics` of the text it read last. -/
structure Lexer where
  preferences : Preferences.Lexical
  /-- The tallies of the text of the last `tokenize`. -/
  metrics : LexMetrics := {}
  deriving DecidableEq, Repr, Inhabited

namespace Lexer

/-- The log event for a failure of `scan`. `tooManyTokens` has its span whatever the preferences say. -/
def failureEvent (preferences : Preferences.Lexical) (f : LexFailure) : Log.Event :=
  match f.error with
  | .tooManyTokens _ =>
    .failure f.error.code "Token limit exceeded" (some f.span) [("limit", toString Limits.tokens)]
  | _ =>
    .failure f.error.code f.error.message
      (if preferences.includePositions then some f.span else none) []

/-- The log event for a text of more than `Limits.expression` bytes. -/
def tooLongEvent (length : Nat) : Log.Event :=
  .failure .expressionTooLong "Expression exceeds length limit" none
    [("length", toString length), ("limit", toString Limits.expression)]

/-- The event for a text without failure, with the tallies `m`. -/
def completionEvent (m : LexMetrics) : Log.Event :=
  .stage .tokenizationComplete "Tokenization completed"
    [("tokens", toString m.total), ("identifiers", toString m.identifiers),
     ("connectives", toString m.connectives)]

/-- Reads `text`: its tokens or the first failure, and the lexer with the tallies of this text. -/
def tokenize (l : Lexer) (text : String) : Log.Logged (Except LexError TokenStream × Lexer) :=
  let length := text.utf8ByteSize
  if Limits.expression < length then
    .noting (.error (.expressionTooLong length), { l with metrics := {} }) (tooLongEvent length)
  else
    let s := scan l.preferences.acceptBang 0 .start text.toList
    let metrics := LexMetrics.ofTokens s.tokens
    let after := { l with metrics := metrics }
    match s.ending with
    | .ok p =>
      .noting (.ok { body := s.tokens, final := .point p }, after) (completionEvent metrics)
    | .error f => .noting (.error f.error, after) (failureEvent l.preferences f)

end Lexer

/-- The tokens of `text` read by a new lexer with the given preferences. -/
def tokenize (preferences : Preferences.Lexical) (text : String) :
    Log.Logged (Except LexError TokenStream) :=
  let r := Lexer.tokenize { preferences } text
  ⟨r.value.1, r.events⟩

end BoolCalc
