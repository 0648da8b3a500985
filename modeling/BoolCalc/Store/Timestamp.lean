import BoolCalc.Text.Character
import BoolCalc.Text.Integer

namespace BoolCalc.Store

/-!
# Times of saving

* `Moment` : a date, a time of day and the distance of local time from UTC;
* `Moment.ofChars?` : a moment in the notation `2024-01-02T03:04:05.678+02:00`, with some liberties;
* `Moment.isReal` : there is such a day, such a time of day and such a distance;
* `Timestamp` : a text that denotes a moment.

The liberties are these: blanks may stand before a number, a hyphen, a colon or the zone; numbers need no
leading zero; a year with a sign may have any number of digits; a blank or a small letter may divide date
and time; the zone may be `UTC` or `Z` in any case, and its hours and minutes may be divided by colons or
blanks or by nothing.
-/

/-- A date, a time of day, and how many seconds local time is `ahead` of UTC. -/
structure Moment where
  /-- The year, where `0` is the year before `1`. -/
  year : Int
  month : Nat
  day : Nat
  hour : Nat
  minute : Nat
  /-- The second of the minute; `60` is a leap second. -/
  second : Nat
  ahead : Int
  deriving DecidableEq, Repr, Inhabited

namespace Moment

/-! ### Days and times that exist -/

/-- True if `year` has a 29th of February. -/
def isLeapYear (year : Int) : Bool := year % 4 == 0 && (year % 100 != 0 || year % 400 == 0)

/-- The number of days of `month`; there is no month but `1` to `12`. -/
def daysInMonth (year : Int) (month : Nat) : Nat :=
  match month with
  | 2 => if isLeapYear year then 29 else 28
  | 4 | 6 | 9 | 11 => 30
  | 1 | 3 | 5 | 7 | 8 | 10 | 12 => 31
  | _ => 0

/-- The first year of the calendar. -/
def firstYear : Int := -262143

/-- The last year of the calendar. -/
def lastYear : Int := 262142

/-- The seconds since local midnight. A leap second counts with the second before (`min m.second 59`). -/
def secondOfDay (m : Moment) : Int := m.hour * 3600 + m.minute * 60 + min m.second 59

/-- True if `m` lies between `firstYear` and `lastYear` by UTC as well, where local time does. -/
def isRealInUtc (m : Moment) : Bool :=
  let utc := m.secondOfDay - m.ahead
  !((m.year == firstYear && m.month == 1 && m.day == 1 && utc < 0) ||
    (m.year == lastYear && m.month == 12 && m.day == 31 && 86400 ≤ utc))

/-- True if there is a moment like `m`. -/
def isReal (m : Moment) : Bool :=
  firstYear ≤ m.year && m.year ≤ lastYear && 1 ≤ m.day && m.day ≤ daysInMonth m.year m.month &&
    m.hour ≤ 23 && m.minute ≤ 59 && m.second ≤ 60 && m.ahead.natAbs < 86400 && m.isRealInUtc

/-! ### Reading -/

/-- What follows the character `c`, blanks before it put aside. -/
def after? (c : Char) (cs : List Char) : Option (List Char) :=
  match Text.trimStart cs with
  | x :: rest => if x = c then some rest else none
  | [] => none

/-- A number of at least one and at most `most` digits, blanks before it put aside, and what follows it. -/
def number? (most : Nat) (cs : List Char) : Option (Nat × List Char) :=
  let cs := Text.trimStart cs
  let ds := (cs.take most).takeWhile Text.isAsciiDigit
  (Text.digitsValue? ds).map fun n => (n, cs.drop ds.length)

/-- A year and what follows it: up to four digits, or a sign and any number of digits. -/
def year? (cs : List Char) : Option (Int × List Char) :=
  match Text.trimStart cs with
  | '-' :: rest => digits rest fun n => -n
  | '+' :: rest => digits rest fun n => n
  | rest => (number? 4 rest).map fun (n, rest) => ((n : Int), rest)
where
  /-- The digits behind a sign, with the sign put in by `f`. -/
  digits (cs : List Char) (f : Int → Int) : Option (Int × List Char) :=
    let ds := cs.takeWhile Text.isAsciiDigit
    (Text.digitsValue? ds).map fun n => (f n, cs.drop ds.length)

/-- What follows the fraction of a second, if there is one; `.` needs a digit behind it. -/
def afterFraction? : List Char → Option (List Char)
  | '.' :: c :: cs => if Text.isAsciiDigit c then some (cs.dropWhile Text.isAsciiDigit) else none
  | ['.'] => none
  | cs => some cs

/-- The hours and minutes behind the sign of a zone, in seconds: `01:30`, `0130` and `01 30`. -/
def distance? (cs : List Char) : Option (Nat × List Char) :=
  match cs with
  | h :: h' :: cs => do
    let hours ← Text.digitsValue? [h, h']
    match cs.dropWhile fun c => c == ':' || Text.isBlank c with
    | m :: m' :: cs =>
      let minutes ← Text.digitsValue? [m, m']
      if minutes ≤ 59 then some (hours * 3600 + minutes * 60, cs) else none
    | _ => none
  | _ => none

/-- The zone, as the seconds that it is ahead of UTC, and what follows it: `UTC`, `Z`, or a distance with its sign. -/
def zone? (cs : List Char) : Option (Int × List Char) :=
  if (cs.take 3).map Char.toUpper == ['U', 'T', 'C'] then some (0, cs.drop 3)
  else
    match cs with
    | 'Z' :: cs | 'z' :: cs => some (0, cs)
    | '+' :: cs => (distance? cs).map fun (n, cs) => ((n : Int), cs)
    | '-' :: cs | '−' :: cs => (distance? cs).map fun (n, cs) => (-(n : Int), cs)
    | _ => none

/-- What follows the `T` or the blank between date and time. -/
def afterSeparator? : List Char → Option (List Char)
  | 'T' :: cs | 't' :: cs | ' ' :: cs => some cs
  | _ => none

/-- The moment that `cs` denotes, whether there is one or not. -/
def ofChars? (cs : List Char) : Option Moment := do
  let (year, cs) ← year? cs
  let (month, cs) ← number? 2 (← after? '-' cs)
  let (day, cs) ← number? 2 (← after? '-' cs)
  let (hour, cs) ← number? 2 (← afterSeparator? cs)
  let (minute, cs) ← number? 2 (← after? ':' cs)
  let (second, cs) ← number? 2 (← after? ':' cs)
  let (ahead, cs) ← zone? (Text.trimStart (← afterFraction? cs))
  if cs.all Text.isBlank then some { year, month, day, hour, minute, second, ahead } else none

end Moment

/-- True if `s` denotes a moment that there is. -/
def isTimestamp (s : String) : Bool := (Moment.ofChars? s.toList).any Moment.isReal

/-- A text that denotes a moment. The text is kept, so that it is written as it was read. -/
structure Timestamp where
  text : String
  valid : isTimestamp text = true
  deriving DecidableEq

namespace Timestamp

/-- The timestamp `text`, if it denotes a moment. -/
def ofText? (text : String) : Option Timestamp :=
  if h : isTimestamp text = true then some ⟨text, h⟩ else none

theorem ofText?_text (t : Timestamp) : ofText? t.text = some t := by
  simp [ofText?, t.valid]

def epoch : Timestamp := ⟨"1970-01-01T00:00:00Z", by decide⟩

instance : Inhabited Timestamp := ⟨epoch⟩

end Timestamp

end BoolCalc.Store
