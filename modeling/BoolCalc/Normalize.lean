import BoolCalc.Keyword
import BoolCalc.Log.Logged
import BoolCalc.Text.Character

namespace BoolCalc

/-!
# Normalization of keywords

* `segments` : a text cut into its words and the single characters between them;
* `respell` : a word in normalized spelling;
* `normalizeChars`, `changeCount`, `normalize` : a text with all its keywords respelled.

A word is a longest run of word characters, so a keyword inside a longer word is left alone. A keyword
and its normalized spelling have the same length, so every offset into the normalized text is one into
the given text.
-/

/-- The longest runs of characters with `Text.isWordChar`; every other character is a segment of its own. -/
def segments (cs : List Char) : List (List Char) :=
  cs.splitBy fun a b => Text.isWordChar a && Text.isWordChar b

/-- The spelling `k.canonical` of a segment for the keyword `k`, any other segment as it is. -/
def respell (segment : List Char) : List Char :=
  match Keyword.ofWord? segment with
  | some k => k.canonical.toList
  | none => segment

/-- The characters of `cs` with `respell` for every segment. -/
def normalizeChars (cs : List Char) : List Char := (segments cs).flatMap respell

/-- The number of segments that `respell` changes. -/
def changeCount (cs : List Char) : Nat := (segments cs).countP fun s => respell s != s

/-- The result of `normalize`. -/
structure Normalized where
  text : String
  /-- The number of words that were respelled, `changeCount` of the raw text. -/
  changes : Nat
  deriving DecidableEq, Repr, Inhabited

/-- The text with every keyword in the spelling of `Keyword.canonical`, and the event that tells the number of
changes. -/
def normalize (raw : String) : Log.Logged Normalized :=
  let result := ⟨String.ofList (normalizeChars raw.toList), changeCount raw.toList⟩
  .noting result (.stage .normalizationComplete "Expression normalized"
    [("length", toString raw.utf8ByteSize), ("rewrites", toString result.changes)])

end BoolCalc
