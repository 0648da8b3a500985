import BoolCalc.Log.Logged
import BoolCalc.Pipeline.Cache

namespace BoolCalc

/-!
# Work in single steps

* `Work` : a computation as the sequence of its steps on what it shares with others: logging an event,
  changing the context of the events, asking the cache, and handing a tree to the cache;
* `Memory` : what all computations share;
* `Worker`, `Worker.step` : a computation under way, and its next step;
* `Work.run` : a computation from start to end without others in between.

Each step is atomic. What several workers do at the same time is some order of their steps.
-/

/-- A computation with a result in `α`, as a tree of its steps. Between two steps others may take theirs. -/
inductive Work (α : Type) where
  | done (result : α)
  | log (event : Log.Event) (next : Work α)
  /-- The mark of events is changed to `request`; `next` is told the one before. -/
  | exchange (request : Option String) (next : Option String → Work α)
  /-- The cache is asked for the tree of `key`. -/
  | find (key : CacheKey) (next : Option TreeObject → Work α)
  /-- A `tree` is made and handed to the cache; `next` is told the object to use. -/
  | keep (key : CacheKey) (tree : Expr) (next : TreeObject → Work α)

namespace Work

/-- The work `f a` behind the work that comes to `a`. -/
def bind : Work α → (α → Work β) → Work β
  | .done a, f => f a
  | .log e next, f => .log e (next.bind f)
  | .exchange r next, f => .exchange r fun old => (next old).bind f
  | .find key next, f => .find key fun found => (next found).bind f
  | .keep key tree next, f => .keep key tree fun object => (next object).bind f

instance : Monad Work where
  pure := .done
  bind := Work.bind

/-- The work `f a` behind work that comes to `.ok a`; an error ends it. -/
def andThen (w : Work (Except ε α)) (f : α → Work (Except ε β)) : Work (Except ε β) :=
  w.bind fun
    | .ok a => f a
    | .error e => .done (.error e)

/-- Logs the events in order, and then goes on with `next`. -/
def logAll (next : Work α) : List Log.Event → Work α
  | [] => next
  | e :: es => .log e (logAll next es)

/-- The result `x.value` behind the events of `x`. -/
def ofLogged (x : Log.Logged α) : Work α := logAll (.done x.value) x.events

/-- The work of `x` with its failures put under a common type by `f`. -/
def ofStage (x : Log.Logged (Except ε α)) (f : ε → δ) : Work (Except δ α) :=
  ofLogged ⟨x.value.mapError f, x.events⟩

/-- The work `w` with its events marked with `request`; the mark before it is put back behind it. -/
def forRequest (request : String) (w : Work α) : Work α :=
  .exchange (some request) fun old => w.bind fun a => .exchange old fun _ => .done a

end Work

/-! ### Running -/

/-- What all computations share. -/
structure Memory where
  cache : Option TreeCache := none
  /-- The number of trees made so far, which is the `birth` of the next one. -/
  births : Nat := 0
  /-- The events logged so far, newest first. -/
  logged : List Log.Event := []
  deriving Inhabited

namespace Memory

/-- The events of `logged`, oldest first. -/
def events (m : Memory) : List Log.Event := m.logged.reverse

/-- The object that the cache holds for `key`. -/
def find? (m : Memory) (key : CacheKey) : Option TreeObject := m.cache.bind (·.get? key)

/-- The object to use for `key` after `tree` was made, and the memory with it. Without a cache it is always the new
one. -/
def keep (m : Memory) (key : CacheKey) (tree : Expr) : TreeObject × Memory :=
  let made : TreeObject := ⟨m.births, tree⟩
  match m.cache with
  | none => (made, { m with births := m.births + 1 })
  | some c =>
    let (used, c) := c.insert key made
    (used, { m with cache := some c, births := m.births + 1 })

end Memory

/-- The event as it is logged under the mark `request`. -/
def Log.Event.forRequest (request : Option String) (e : Log.Event) : Log.Event :=
  match request with
  | some r => e.withContext "request" r
  | none => e

/-- A computation under way. -/
structure Worker (α : Type) where
  work : Work α
  request : Option String := none

namespace Worker

/-- The next step of `w` in the memory `m`; a finished worker does nothing. -/
def step (w : Worker α) (m : Memory) : Worker α × Memory :=
  match w.work with
  | .done _ => (w, m)
  | .log e next => ({ w with work := next }, { m with logged := e.forRequest w.request :: m.logged })
  | .exchange r next => ({ work := next w.request, request := r }, m)
  | .find key next => ({ w with work := next (m.find? key) }, m)
  | .keep key tree next =>
    let (object, m) := m.keep key tree
    ({ w with work := next object }, m)

/-- The result of `w`, if it has finished. -/
def result? (w : Worker α) : Option α :=
  match w.work with
  | .done a => some a
  | _ => none

end Worker

/-- Runs a computation to its end, all steps in a row: its result, the mark after it, and the `Memory` it leaves. -/
def Work.run : Work α → Option String → Memory → α × Option String × Memory
  | .done a, request, m => (a, request, m)
  | .log e next, request, m =>
    next.run request { m with logged := e.forRequest request :: m.logged }
  | .exchange r next, request, m => (next request).run r m
  | .find key next, request, m => (next (m.find? key)).run request m
  | .keep key tree next, request, m =>
    let (object, m) := m.keep key tree
    (next object).run request m

end BoolCalc
