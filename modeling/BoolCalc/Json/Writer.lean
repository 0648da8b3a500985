import BoolCalc.Json.Value

namespace BoolCalc.Json

/-!
# Writing JSON

* `escapeChar`, `quoteOnto` : a string with `"`, `\` and the control characters escaped;
* `compactOnto`, `compact` : a value without any white space;
* `prettyOnto`, `pretty` : a value with one item or member to a line, indented by two spaces a level.

A writer is given what follows the value, which spares copying what was written before.
-/

/-- The two hexadecimal digits of `n < 256`. -/
def hexPair (n : Nat) : List Char := [Nat.digitChar (n / 16 % 16), Nat.digitChar (n % 16)]

/-- The characters for `c` inside a string: `\"`, `\\`, the short escapes, and `\u00xx` for other control
characters. -/
def escapeChar (c : Char) : List Char :=
  if c = '"' then ['\\', '"']
  else if c = '\\' then ['\\', '\\']
  else if c = '\x08' then ['\\', 'b']
  else if c = '\t' then ['\\', 't']
  else if c = '\n' then ['\\', 'n']
  else if c = '\x0c' then ['\\', 'f']
  else if c = '\r' then ['\\', 'r']
  else if c.toNat < 0x20 then ['\\', 'u', '0', '0'] ++ hexPair c.toNat
  else [c]

/-- The string `s` between double quotes, and then `rest`. Writers append to `rest`, so that a text is put together
from its end. -/
def quoteOnto (s : String) (rest : List Char) : List Char :=
  '"' :: (s.toList.flatMap escapeChar ++ '"' :: rest)

/-! ### Without white space -/

mutual

/-- The value without white space, and then `rest`. -/
def compactOnto : Json → List Char → List Char
  | .null, rest | .broken, rest => "null".toList ++ rest
  | .bool true, rest => "true".toList ++ rest
  | .bool false, rest => "false".toList ++ rest
  | .number literal, rest => literal.toList ++ rest
  | .string s, rest => quoteOnto s rest
  | .array [], rest => '[' :: ']' :: rest
  | .array (v :: vs), rest => '[' :: compactOnto v (compactItemsOnto vs (']' :: rest))
  | .object [], rest => '\x7b' :: '\x7d' :: rest
  | .object ((k, v) :: ms), rest =>
    '\x7b' :: quoteOnto k (':' :: compactOnto v (compactMembersOnto ms ('\x7d' :: rest)))

/-- The items after the first, each with `,` before it, and then `rest`. -/
def compactItemsOnto : List Json → List Char → List Char
  | [], rest => rest
  | v :: vs, rest => ',' :: compactOnto v (compactItemsOnto vs rest)

/-- The members after the first, each with `,` before it, and then `rest`. -/
def compactMembersOnto : List (String × Json) → List Char → List Char
  | [], rest => rest
  | (k, v) :: ms, rest => ',' :: quoteOnto k (':' :: compactOnto v (compactMembersOnto ms rest))

end

/-- The text of `v` without white space. -/
def compact (v : Json) : String := String.ofList (compactOnto v [])

/-! ### Indented -/

/-- A line feed, two blanks for every `level`, and then `rest`. -/
def newLineOnto (level : Nat) (rest : List Char) : List Char :=
  '\n' :: (List.replicate (2 * level) ' ' ++ rest)

mutual

/-- A value whose items or members stand one level below `level`, and what follows. -/
def prettyOnto (level : Nat) : Json → List Char → List Char
  | .array (v :: vs), rest =>
    '[' :: newLineOnto (level + 1) (prettyOnto (level + 1) v (prettyItemsOnto (level + 1) vs
      (newLineOnto level (']' :: rest))))
  | .object ((k, v) :: ms), rest =>
    '\x7b' :: newLineOnto (level + 1) (quoteOnto k (':' :: ' ' :: prettyOnto (level + 1) v
      (prettyMembersOnto (level + 1) ms (newLineOnto level ('\x7d' :: rest)))))
  | v, rest => compactOnto v rest

/-- The items after the first, each on a line of its own at `level`, and then `rest`. -/
def prettyItemsOnto (level : Nat) : List Json → List Char → List Char
  | [], rest => rest
  | v :: vs, rest => ',' :: newLineOnto level (prettyOnto level v (prettyItemsOnto level vs rest))

/-- The members after the first, each on a line of its own at `level`, and then `rest`. -/
def prettyMembersOnto (level : Nat) : List (String × Json) → List Char → List Char
  | [], rest => rest
  | (k, v) :: ms, rest =>
    ',' :: newLineOnto level (quoteOnto k (':' :: ' ' :: prettyOnto level v
      (prettyMembersOnto level ms rest)))

end

/-- The text of `v` with its items and members on lines of their own. -/
def pretty (v : Json) : String := String.ofList (prettyOnto 0 v [])

end BoolCalc.Json
