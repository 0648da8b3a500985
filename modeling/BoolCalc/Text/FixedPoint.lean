namespace BoolCalc.Text

/-!
# Binary fractions with a fixed number of decimal places

* `roundDiv` : a quotient rounded to the nearest integer, a half to the even neighbour;
* `Binary64.ofFloat` : a finite binary64 number as an integer times a power of two;
* `fixedPoint` : its decimal form with a given number of places.
-/

/-- The quotient `num / den` rounded to the nearest integer; a half goes to the even neighbour. -/
def roundDiv (num den : Nat) : Nat :=
  let q := num / den
  let twice := 2 * (num % den)
  if twice > den || (twice == den && q % 2 == 1) then q + 1 else q

/-- A finite binary64 number without its sign: `mantissa * 2 ^ exponent`. -/
structure Binary64 where
  mantissa : Nat
  exponent : Int

/-- The fields of a finite number: `biased = 0` marks the subnormal numbers. -/
def Binary64.ofFloat (x : Float) : Binary64 :=
  let bits := x.toBits.toNat
  let fraction : Nat := bits % Nat.pow 2 52
  let biased : Nat := bits / Nat.pow 2 52 % Nat.pow 2 11
  if biased == 0 then ⟨fraction, -1074⟩ else ⟨Nat.pow 2 52 + fraction, (biased : Int) - 1075⟩

/-- The number times `10 ^ places`, rounded to the nearest integer. -/
def Binary64.scaled (places : Nat) (b : Binary64) : Nat :=
  match b.exponent with
  | .ofNat e => b.mantissa * Nat.pow 10 places * Nat.pow 2 e
  | .negSucc e => roundDiv (b.mantissa * Nat.pow 10 places) (Nat.pow 2 (e + 1))

/-- The digits of a natural number, padded with zeros in front to at least `width`. -/
def paddedDigits (width n : Nat) : List Char :=
  let digits := Nat.toDigits 10 n
  List.replicate (width - digits.length) '0' ++ digits

/-- A non-negative finite number with `places` digits after the point (at least one place). -/
def fixedPoint (places : Nat) (x : Float) : String :=
  let n := (Binary64.ofFloat x).scaled places
  toString (n / Nat.pow 10 places) ++ "." ++ String.ofList (paddedDigits places (n % Nat.pow 10 places))

end BoolCalc.Text
