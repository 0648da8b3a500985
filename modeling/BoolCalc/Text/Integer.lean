import BoolCalc.Text.Character

namespace BoolCalc.Text

/-!
# Integers of bounded size in decimal

* `digitsValue?` : the value of a non-empty run of ASCII digits;
* `parseInt64?` : an optional sign and digits, from -2^63 to 2^63 - 1;
* `parseCount?` : an optional plus sign and digits, below 2^64.
-/

/-- The least integer of 64 bits, `-2 ^ 63`. -/
def minInt64 : Int := -9223372036854775808

/-- The greatest integer of 64 bits, `2 ^ 63 - 1`. -/
def maxInt64 : Int := 9223372036854775807

/-- The value of one or more ASCII digits; `none` for `[]` and for other characters. -/
def digitsValue? (cs : List Char) : Option Nat :=
  if !cs.isEmpty && cs.all isAsciiDigit then
    some (cs.foldl (fun n c => 10 * n + (c.toNat - '0'.toNat)) 0)
  else none

/-- The integer `n` if it fits into 64 bits. -/
def int64? (n : Int) : Option Int := if minInt64 ≤ n ∧ n ≤ maxInt64 then some n else none

/-- The integer written in `s`: an optional sign and digits, within 64 bits. -/
def parseInt64? (s : String) : Option Int :=
  match s.toList with
  | '-' :: cs => (digitsValue? cs).bind fun n => int64? (-n)
  | '+' :: cs => (digitsValue? cs).bind fun n => int64? n
  | cs => (digitsValue? cs).bind fun n => int64? n

/-- The natural number written in `s`: an optional `+` and digits, below `2 ^ 64`. -/
def parseCount? (s : String) : Option Nat :=
  let bounded (cs : List Char) := (digitsValue? cs).filter (· < 18446744073709551616)
  match s.toList with
  | '+' :: cs => bounded cs
  | cs => bounded cs

end BoolCalc.Text
