import BoolCalc.Log.Event

namespace BoolCalc.Log

/-!
# A buffer of the most recent events

* `Buffer` : a queue of events of bounded length;
* `Buffer.push`, `Buffer.clear`, `Buffer.toList` : logging, forgetting and reading;
* `Buffer.summary` : how many events, errors and warnings it holds.
-/

/-- The most recent events, kept as a queue of the two lists `older` and `newer`. -/
structure Buffer where
  /-- The most events it keeps; `ofCapacity` makes it at least `1`. -/
  capacity : Nat
  /-- The older events, oldest first. -/
  older : List Event
  /-- The newer events, newest first. -/
  newer : List Event
  /-- The number of events in `older` and `newer`. -/
  size : Nat
  deriving Repr, Inhabited

/-- The counts of `Buffer.summary`. -/
structure Summary where
  total : Nat
  errors : Nat
  warnings : Nat
  deriving DecidableEq, Repr, Inhabited

namespace Buffer

/-- An empty buffer for `capacity` events; a capacity of `0` counts as `1`. -/
def ofCapacity (capacity : Nat) : Buffer := ⟨max capacity 1, [], [], 0⟩

/-- An empty buffer for `Limits.logBuffer` events. -/
def empty : Buffer := ofCapacity Limits.logBuffer

/-- The events, oldest first: `older`, and then `newer` from its end. -/
def toList (b : Buffer) : List Event := b.older ++ b.newer.reverse

/-- The buffer without the first event of `toList`. -/
def dropOldest (b : Buffer) : Buffer :=
  match b.older with
  | _ :: rest => { b with older := rest, size := b.size - 1 }
  | [] =>
    match b.newer.reverse with
    | _ :: rest => { b with older := rest, newer := [], size := b.size - 1 }
    | [] => b

/-- The buffer with `e` added; a full buffer forgets its oldest event first. -/
def push (b : Buffer) (e : Event) : Buffer :=
  let room := if b.capacity ≤ b.size then b.dropOldest else b
  { room with newer := e :: room.newer, size := room.size + 1 }

/-- The buffer with the events `es` added in order. -/
def pushAll (b : Buffer) (es : List Event) : Buffer := es.foldl push b

/-- The buffer without any event; the `capacity` stays. -/
def clear (b : Buffer) : Buffer := { b with older := [], newer := [], size := 0 }

/-- The events of `toList` that are errors. -/
def errors (b : Buffer) : List Event := b.toList.filter Event.isError

/-- The events of `toList` with the code `code`. -/
def withCode (b : Buffer) (code : Code) : List Event := b.toList.filter (·.code == code)

/-- True if some event of `b.errors` has the code `code`. -/
def hasErrorWithCode (b : Buffer) (code : Code) : Bool :=
  b.toList.any fun e => e.isError && e.code == code

/-- The number of all events, of errors and of warnings in `b.toList`. -/
def summary (b : Buffer) : Summary :=
  ⟨b.toList.length, b.toList.countP Event.isError, b.toList.countP Event.isWarning⟩

end Buffer

def Summary.hasErrors (s : Summary) : Bool := s.errors > 0

end BoolCalc.Log
