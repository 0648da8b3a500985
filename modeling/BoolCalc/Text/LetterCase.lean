namespace BoolCalc.Text

/-!
# Comparison up to the case of ASCII letters

* `lowerAscii` : the ASCII letters in lower case, every other character as it is;
* `sameLetters` : equality up to the case of ASCII letters.
-/

/-- The characters with `A` to `Z` in lower case and all else unchanged. -/
def lowerAscii (cs : List Char) : List Char := cs.map Char.toLower

/-- True if `a` and `b` differ at most in the case of ASCII letters. -/
def sameLetters (a b : List Char) : Bool := lowerAscii a == lowerAscii b

end BoolCalc.Text
