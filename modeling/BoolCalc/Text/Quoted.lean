import BoolCalc.Text.Combining
import BoolCalc.Text.Invisible

namespace BoolCalc.Text

/-!
# Words between quotation marks

* `isDistinct` : what can be seen between quotation marks;
* `quoteWord` : a word between double quotes, with the characters escaped that cannot be seen there;
* `quoteWords` : a list of words in braces.
-/

/-- A character by its code point: `\u` and hexadecimal digits in braces. -/
def codePointEscape (c : Char) : List Char :=
  "\\u\x7b".toList ++ Nat.toDigits 16 c.toNat ++ ['}']

/-- True if `c` can be seen on its own. -/
def isDistinct (c : Char) : Bool :=
  if c.toNat < 0x80 then 0x20 ≤ c.toNat && c.toNat < 0x7F else !isCombining c && !isInvisible c

/-- The characters for `c` in a quoted word. A quotation mark, a backslash and the controls with a letter of their
own follow a backslash; any other character that draws nothing is written with `codePointEscape`. -/
def quoteChar (c : Char) : List Char :=
  if c = '"' then ['\\', '"']
  else if c = '\\' then ['\\', '\\']
  else if c = '\t' then ['\\', 't']
  else if c = '\n' then ['\\', 'n']
  else if c = '\r' then ['\\', 'r']
  else if c.toNat = 0 then ['\\', '0']
  else if isDistinct c then [c]
  else codePointEscape c

/-- The word between double quotes, each character with `quoteChar`. -/
def quoteWord (word : String) : String :=
  "\"" ++ String.ofList (word.toList.flatMap quoteChar) ++ "\""

/-- The quoted words in braces, separated by `, `. -/
def quoteWords (words : List String) : String :=
  "\x7b" ++ String.intercalate ", " (words.map quoteWord) ++ "\x7d"

end BoolCalc.Text
