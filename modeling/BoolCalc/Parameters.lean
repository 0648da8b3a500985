import BoolCalc.Bindings
import BoolCalc.Log.Logged
import BoolCalc.Preferences
import BoolCalc.Text.Character
import BoolCalc.Text.LetterCase

namespace BoolCalc

/-!
# Parameter strings

* `BindingError` : the ways in which a parameter string binds nothing;
* `Parameters.segments` : the pairs of a parameter string;
* `Parameters.readPair` : one pair;
* `Parameters.read`, `bind` : the bindings of a parameter string, and the same with its log event.

A parameter string is a list of `name=value` pairs with commas between them. A later pair wins over an
earlier one of the same name.
-/

/-- Why `Parameters.read` binds nothing. An `index` counts the pairs from `0`. -/
inductive BindingError where
  | missingSeparator (pair : String) (index : Nat)
  | invalidBoolean (name rawValue : String)
  | emptyName (index : Nat)
  | tooManyBindings (count : Nat)
  | parameterStringTooLong (length : Nat)
  deriving DecidableEq, Repr, Inhabited

namespace BindingError

/-- What `e` prints, also as the `message` of its event. -/
def message : BindingError → String
  | .missingSeparator pair index => s!"Parameter pair {index} ('{pair}') has no '=' separator"
  | .invalidBoolean name rawValue => s!"Value '{rawValue}' for '{name}' is not a boolean"
  | .emptyName index => s!"Parameter pair {index} has an empty name"
  | .tooManyBindings count => s!"Too many bindings: {count} (max {Limits.bindings})"
  | .parameterStringTooLong length =>
    s!"Parameter string too long: {length} bytes (max {Limits.parameterString})"

def code : BindingError → Log.Code
  | .missingSeparator .. => .missingSeparator
  | .invalidBoolean .. => .invalidBoolean
  | .emptyName _ => .emptyName
  | .tooManyBindings _ => .tooManyBindings
  | .parameterStringTooLong _ => .parameterStringTooLong

/-- The `name` that `e` is about, if it is about one. -/
def name? : BindingError → Option String
  | .invalidBoolean name _ => some name
  | _ => none

end BindingError

namespace Parameters

/-- The parts of `raw` between the commas. -/
def segments (raw : String) : List (List Char) := raw.toList.splitOn ','

/-- The parts before and behind the first `'='`, if there is one. -/
def splitPair? (segment : List Char) : Option (List Char × List Char) :=
  match segment.dropWhile (· != '=') with
  | _ :: value => some (segment.takeWhile (· != '='), value)
  | [] => none

/-- The truth value that a text spells: `true` or `false` in any case of the letters, and `1` or `0` if
they are allowed. -/
def truthValue? (preferences : Preferences.Binding) (value : List Char) : Option Bool :=
  if Text.sameLetters value "true".toList then some true
  else if Text.sameLetters value "false".toList then some false
  else if preferences.acceptNumeric && value == ['1'] then some true
  else if preferences.acceptNumeric && value == ['0'] then some false
  else none

/-- The name and value of the pair `segment`, whose place is `index`. With `preferences.trimBlanks`, blanks around
both are dropped. -/
def readPair (preferences : Preferences.Binding) (index : Nat) (segment : List Char) :
    Except BindingError (String × Bool) :=
  match splitPair? segment with
  | none => .error (.missingSeparator (String.ofList segment) index)
  | some (rawName, rawValue) =>
    let clean := if preferences.trimBlanks then Text.trimChars else id
    let name := clean rawName
    let value := clean rawValue
    if name.isEmpty then .error (.emptyName index)
    else
      match truthValue? preferences value with
      | some v => .ok (String.ofList name, v)
      | none => .error (.invalidBoolean (String.ofList name) (String.ofList value))

/-- The bindings `b` and those of the remaining pairs, the first of which has the given index; `total` is
the number of all pairs. -/
def readPairs (preferences : Preferences.Binding) (total : Nat) :
    Nat → List (List Char) → Bindings → Except BindingError Bindings
  | _, [], b => .ok b
  | index, segment :: rest, b =>
    if Limits.bindings ≤ index then .error (.tooManyBindings total)
    else
      match readPair preferences index segment with
      | .error e => .error e
      | .ok (name, value) => readPairs preferences total (index + 1) rest (b.insert name value)

/-- The bindings of a parameter string; `""` binds nothing. -/
def read (preferences : Preferences.Binding) (raw : String) : Except BindingError Bindings :=
  let length := raw.utf8ByteSize
  if Limits.parameterString < length then .error (.parameterStringTooLong length)
  else if raw.isEmpty then .ok .empty
  else
    let pairs := segments raw
    readPairs preferences pairs.length 0 pairs .empty

end Parameters

/-- The bindings of `Parameters.read` with the log event for the outcome. -/
def bind (preferences : Preferences.Binding) (raw : String) :
    Log.Logged (Except BindingError Bindings) :=
  let result := Parameters.read preferences raw
  match result with
  | .ok b => .noting result (.stage .bindingComplete "Binding completed"
      [("bindings", toString b.size)])
  | .error e => .noting result (.failure e.code e.message none
      [("parameters_length", toString raw.utf8ByteSize)])

end BoolCalc
