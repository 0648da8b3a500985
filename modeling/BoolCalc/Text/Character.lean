import BoolCalc.Text.Alphabetic
import BoolCalc.Text.Numeric

namespace BoolCalc.Text

/-!
# Character classes

* `isAlphabetic`, `isNumeric` : the Unicode property `Alphabetic`, the categories Nd, Nl and No;
* `isWordChar` : what a word may go on with;
* `isWordStart` : what a word may start with;
* `isBlank` : the Unicode property `White_Space`;
* `isAsciiDigit` : the ten digits.
-/

/-- True if the code point `n` lies in one of the closed ranges. -/
def inRanges (ranges : List (Nat × Nat)) (n : Nat) : Bool :=
  ranges.any fun (lo, hi) => lo ≤ n && n ≤ hi

/-- One of the digits `0` to `9`. -/
def isAsciiDigit (c : Char) : Bool := '0' ≤ c && c ≤ '9'

/-- A letter in the sense of the Unicode property `Alphabetic`. -/
def isAlphabetic (c : Char) : Bool :=
  if c.toNat < 0x80 then c.isAlpha else inRanges alphabeticRanges c.toNat

/-- A digit or numeral of any script, see `numericRanges`. -/
def isNumeric (c : Char) : Bool :=
  if c.toNat < 0x80 then isAsciiDigit c else inRanges numericRanges c.toNat

/-- A character with `isAlphabetic` or `isNumeric`. -/
def isAlphanumeric (c : Char) : Bool := isAlphabetic c || isNumeric c

/-- What a word may go on with: a letter, a numeral or `_`. -/
def isWordChar (c : Char) : Bool := isAlphanumeric c || c == '_'

/-- What a word may start with: a letter or `_`. -/
def isWordStart (c : Char) : Bool := isAlphabetic c || c == '_'

/-- The code points with the Unicode property `White_Space`. -/
def blankRanges : List (Nat × Nat) :=
  [(0x9, 0xD), (0x20, 0x20), (0x85, 0x85), (0xA0, 0xA0), (0x1680, 0x1680), (0x2000, 0x200A),
   (0x2028, 0x2029), (0x202F, 0x202F), (0x205F, 0x205F), (0x3000, 0x3000)]

/-- White space in the sense of `blankRanges`. -/
def isBlank (c : Char) : Bool := inRanges blankRanges c.toNat

/-- What may start a word may also stand inside one: `isWordStart` is part of `isWordChar`. -/
theorem isWordChar_of_isWordStart {c : Char} (h : isWordStart c = true) : isWordChar c = true := by
  simp only [isWordStart, isWordChar, isAlphanumeric, Bool.or_eq_true] at h ⊢
  rcases h with h | h
  · exact .inl (.inl h)
  · exact .inr h

/-! ### Blank ends -/

/-- The characters without the blanks in front, where `isBlank` says what a blank is. -/
def trimStart (cs : List Char) : List Char := cs.dropWhile isBlank

/-- The characters without the blanks at the end. -/
def trimEnd (cs : List Char) : List Char := (cs.reverse.dropWhile isBlank).reverse

/-- `trimStart` and `trimEnd` together. -/
def trimChars (cs : List Char) : List Char := trimEnd (trimStart cs)

/-- The text `s` without the blanks at either end. -/
def trim (s : String) : String := String.ofList (trimChars s.toList)

/-- True for blanks only, and for `""`. -/
def isAllBlank (s : String) : Bool := s.toList.all isBlank

end BoolCalc.Text
