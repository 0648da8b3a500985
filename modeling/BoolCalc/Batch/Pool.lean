import BoolCalc.Batch.Request
import BoolCalc.Batch.Results
import BoolCalc.Pipeline.Evaluator

namespace BoolCalc.Batch

/-!
# Workers on the requests of a batch

* `evaluateOne` : the evaluation of one request, its events marked with the name of the request;
* `Crew` : a worker with the requests it has to see to;
* `Pool`, `Pool.step`, `Pool.run` : several workers at the same time, in any order of their steps;
* `Pool.inTurn` : the workers one after another.
-/

/-- The `Work` of `Pipeline.evaluate` for the request `r` at the place `index`, its events marked with
`r.name index`; `elapsed` is the time to report, in microseconds. -/
def evaluateOne (p : Preferences) (elapsed index : Nat) (r : Request) : Work Outcome :=
  let name := r.name index
  ((Pipeline.evaluate p elapsed r.expression r.values).forRequest name).bind fun result =>
    .done ⟨index, name, result⟩

/-- A worker: the evaluation in `current`, and the requests in `queue` with their places in the batch. -/
structure Crew where
  current : Option (Worker Outcome) := none
  queue : List (Nat × Request)
  /-- The mark of events before and behind an evaluation; within it they are marked with `Request.name`. -/
  request : Option String := none

namespace Crew

/-- True if `c` has neither a `current` evaluation nor a request in its `queue`. -/
def isFinished (c : Crew) : Bool := c.current.isNone && c.queue.isEmpty

end Crew

/-- The workers `crews`, what they share, and the outcomes they have handed in, newest first. -/
structure Pool where
  preferences : Preferences
  /-- Microseconds, for `evaluateOne`. -/
  elapsed : Nat := 0
  crews : List Crew
  /-- The cache and the log, shared by all `crews`. -/
  memory : Memory
  handedIn : List Outcome := []

namespace Pool

/-- The next step of the worker `c`: it begins the first request of its `queue`, goes on with `current`, or hands in
the outcome of `current`. -/
def advance (pool : Pool) (c : Crew) : Crew × Pool :=
  match c.current with
  | some w =>
    match w.result? with
    | some o =>
      ({ c with current := none, request := w.request }, { pool with handedIn := o :: pool.handedIn })
    | none =>
      let (w, memory) := w.step pool.memory
      ({ c with current := some w }, { pool with memory := memory })
  | none =>
    match c.queue with
    | [] => (c, pool)
    | (index, r) :: rest =>
      let work := evaluateOne pool.preferences pool.elapsed index r
      ({ c with current := some { work, request := c.request }, queue := rest }, pool)

/-- The step `advance` of the worker `crews[k]`; without that worker nothing changes. -/
def step (pool : Pool) (k : Nat) : Pool :=
  match pool.crews[k]? with
  | none => pool
  | some c =>
    let (c, pool) := pool.advance c
    { pool with crews := pool.crews.set k c }

/-- The steps of the workers in the order of `schedule`. -/
def run (pool : Pool) (schedule : List Nat) : Pool := schedule.foldl step pool

/-- Every worker satisfies `Crew.isFinished`. -/
def isFinished (pool : Pool) : Bool := pool.crews.all Crew.isFinished

/-- A request seen to from beginning to end, as `Work.run` does it: the mark of events behind it, and the pool. -/
def complete (pool : Pool) (w : Worker Outcome) : Option String × Pool :=
  let (o, request, memory) := w.work.run w.request pool.memory
  (request, { pool with memory := memory, handedIn := o :: pool.handedIn })

/-- Everything in `c.current` and `c.queue` seen to with `complete`: the worker and the pool behind it. -/
def completeCrew (pool : Pool) (c : Crew) : Crew × Pool :=
  let begun := (c.current.map pool.complete).getD (c.request, pool)
  let (request, pool) := c.queue.foldl (fun (request, pool) (index, r) =>
    pool.complete { work := evaluateOne pool.preferences pool.elapsed index r, request }) begun
  ({ queue := [], request }, pool)

/-- What `completeCrew` makes of one worker after another. -/
def completeCrews (pool : Pool) : List Crew → List Crew × Pool
  | [] => ([], pool)
  | c :: rest =>
    let (c, pool) := pool.completeCrew c
    let (rest, pool) := completeCrews pool rest
    (c :: rest, pool)

/-- The workers of `crews` one after another, each to its end. This is one of the ways to `finish` a pool. -/
def inTurn (pool : Pool) : Pool :=
  let (crews, behind) := pool.completeCrews pool.crews
  { behind with crews }

end Pool

end BoolCalc.Batch
