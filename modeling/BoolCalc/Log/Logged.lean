import BoolCalc.Log.Event

namespace BoolCalc.Log

/-!
# Results with the events logged on the way

* `Logged` : a value and the events reported while it was worked out, in order;
* `Logged.pure`, `Logged.bind`, `Logged.tell` : no event, one piece of work after another, one event.
-/

/-- A `value` with the `events` reported while it was worked out, in order. -/
structure Logged (α : Type) where
  value : α
  events : List Event := []

namespace Logged

/-- The event `e` and nothing else. -/
def tell (e : Event) : Logged Unit := ⟨(), [e]⟩

/-- A `value` together with one event about it. -/
def noting (value : α) (e : Event) : Logged α := ⟨value, [e]⟩

/-- The work `x`, and then `f` on its value; the events of `x` come first. -/
def bind (x : Logged α) (f : α → Logged β) : Logged β :=
  let y := f x.value
  ⟨y.value, x.events ++ y.events⟩

instance : Monad Logged where
  pure value := ⟨value, []⟩
  bind := Logged.bind

def mapEvents (x : Logged α) (f : List Event → List Event) : Logged α := ⟨x.value, f x.events⟩

/-- The work `x` with one more event `report e` behind the others if it fails with `e`. -/
def onError (x : Logged (Except ε α)) (report : ε → Event) : Logged (Except ε α) :=
  match x.value with
  | .ok _ => x
  | .error e => ⟨x.value, x.events ++ [report e]⟩

end Logged

end BoolCalc.Log
