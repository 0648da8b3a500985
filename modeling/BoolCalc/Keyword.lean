import BoolCalc.Text.LetterCase

namespace BoolCalc

/-!
# Keywords

* `Keyword` : the reserved words of the expression language;
* `Keyword.canonical` : the spelling that normalization gives them;
* `Keyword.ofWord?` : the keyword a whole word spells, in any case of its letters.
-/

/-- A reserved word, whatever the case of its letters in a text. -/
inductive Keyword where
  | and
  | or
  | not
  | true
  | false
  deriving DecidableEq, Repr, Inhabited

namespace Keyword

def all : List Keyword := [.and, .or, .not, .true, .false]

/-- The spelling that `normalize` gives to a keyword. -/
def canonical : Keyword → String
  | .and => "AND"
  | .or => "OR"
  | .not => "NOT"
  | .true => "true"
  | .false => "false"

/-- The keyword `k` whose `k.canonical` has the letters of `word`, upper or lower case. -/
def ofWord? (word : List Char) : Option Keyword :=
  all.find? fun k => Text.sameLetters k.canonical.toList word

/-- True if `k` joins or negates operands, so that it is no operand itself. -/
def isConnective : Keyword → Bool
  | .and | .or | .not => Bool.true
  | .true | .false => Bool.false

end Keyword

/-- True if `word` spells a keyword and cannot name a variable. -/
def isReserved (word : List Char) : Bool := (Keyword.ofWord? word).isSome

end BoolCalc
