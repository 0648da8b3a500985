namespace BoolCalc.Log

/-!
# Log levels

* `Level` : the four levels, from the gravest;
* `Level.atMost` : a level is as grave as another or graver.
-/

/-- How much detail a message belongs to, from `error` to `debug`. -/
inductive Level where
  | error
  | warning
  | info
  | debug
  deriving DecidableEq, Repr, Inhabited

namespace Level

/-- The number of a level, `0` for errors. -/
def rank : Level → Nat
  | .error => 0
  | .warning => 1
  | .info => 2
  | .debug => 3

/-- True if `a` is as grave as `b` or graver. -/
def atMost (a b : Level) : Bool := a.rank ≤ b.rank

/-- The name of the level in `Event.line`. -/
def tag : Level → String
  | .error => "ERROR"
  | .warning => "WARN"
  | .info => "INFO"
  | .debug => "DEBUG"

def name : Level → String
  | .error => "Error"
  | .warning => "Warning"
  | .info => "Info"
  | .debug => "Debug"

/-- The level with a number; every number from 2 on means `info`. -/
def ofSecurityRank : Nat → Level
  | 0 => .error
  | 1 => .warning
  | _ => .info

end Level

end BoolCalc.Log
