import BoolCalc.Batch.Pool

namespace BoolCalc.Batch

/-!
# Evaluation of a batch

* `Config` : how a batch is evaluated;
* `sequential` : one request after another, stopping at the first failure if asked to;
* `chunkSize`, `chunksOf`, `parallel` : chunks of requests, each shared out among workers, stopping behind
  the first chunk with a failure if asked to;
* `evaluate` : a whole batch.

A parallel evaluation is given what finishes a pool of workers, so it covers every order of their steps.
-/

/-- How `evaluateWith` evaluates a batch. -/
structure Config where
  /-- Workers asked for; `Config.threads` keeps the number between `1` and `Limits.workers`. -/
  maxThreads : Nat
  /-- If it is `true`, the batch stops at the first outcome with `isOk = false`. -/
  failFast : Bool := false
  /-- Preferences for the `Pipeline.evaluate` of each request. -/
  preferences : Preferences := .strict
  deriving DecidableEq, Repr, Inhabited

/-- The number of workers, `min (max c.maxThreads 1) Limits.workers`. -/
def Config.threads (c : Config) : Nat := min (max c.maxThreads 1) Limits.workers

/-! ### One after another -/

/-- The event for a batch that stops, with the number `n` under `key`: `"request"` in `sequential`, `"processed"` in
`runChunks`. -/
def stopEvent (key : String) (n : Nat) : Log.Event :=
  .caution "Fail-fast enabled, stopping batch" [(key, toString n)]

/-- The outcomes in `acc`, newest first, and those of the requests, the first of which has the place `index`. With
`c.failFast` nothing is evaluated behind an outcome that is not `isOk`. -/
def sequential (c : Config) (elapsed : Nat) (acc : List Outcome) :
    Nat → List Request → Work (List Outcome)
  | _, [] => .done acc.reverse
  | index, r :: rest =>
    (evaluateOne c.preferences elapsed index r).bind fun o =>
      if !o.isOk && c.failFast then
        .log (stopEvent "request" (index + 1)) (.done (o :: acc).reverse)
      else sequential c elapsed (o :: acc) (index + 1) rest

/-! ### Several at a time -/

/-- Quotient of `n` and `d`, rounded up. -/
def ceilDiv (n d : Nat) : Nat := (n + d - 1) / d

/-- The number of requests in a chunk: `total` shared out evenly among `threads` workers, but at least `1` and at
most `1024`. -/
def chunkSize (total threads : Nat) : Nat := min (max (ceilDiv total threads * threads) 1) 1024

/-- The list cut into pieces of `n` items, the last of which may be shorter; a piece has at least one item, also for
`n = 0`. -/
def chunksOf (n : Nat) : List α → List (List α)
  | [] => []
  | x :: xs => (x :: xs.take (n - 1)) :: chunksOf n (xs.drop (n - 1))
termination_by xs => xs.length
decreasing_by simp only [List.length_drop, List.length_cons]; omega

/-- One `Crew` for every slice of `ceilDiv chunk.length threads` requests. -/
def shareOut (threads : Nat) (chunk : List (Nat × Request)) : List Crew :=
  (chunksOf (ceilDiv chunk.length threads) chunk).map fun slice => { queue := slice }

/-- The outcomes of a chunk in the order of `handedIn`, and the memory behind it; `finish` decides how the workers
take turns. -/
def runChunk (finish : Pool → Pool) (c : Config) (elapsed : Nat) (chunk : List (Nat × Request))
    (memory : Memory) : List Outcome × Memory :=
  let pool := finish
    { preferences := c.preferences, elapsed, crews := shareOut c.threads chunk, memory }
  (pool.handedIn.reverse, pool.memory)

/-- The outcomes in `acc` and those of the chunks, one chunk after another. -/
def runChunks (finish : Pool → Pool) (c : Config) (elapsed : Nat) (request : Option String) :
    List (List (Nat × Request)) → List Outcome → Memory → List Outcome × Memory
  | [], acc, memory => (acc, memory)
  | chunk :: rest, acc, memory =>
    let (outcomes, memory) := runChunk finish c elapsed chunk memory
    let acc := acc ++ outcomes
    -- A chunk is always finished; only the next one is not begun.
    if c.failFast && acc.any (!·.isOk) then
      let event := (stopEvent "processed" acc.length).forRequest request
      (acc, { memory with logged := event :: memory.logged })
    else runChunks finish c elapsed request rest acc memory

/-- Every request with its index, from `0`. -/
def indexed (requests : List Request) : List (Nat × Request) :=
  requests.zipIdx.map fun (r, index) => (index, r)

/-- The outcomes of all chunks, sorted by `index`. -/
def parallel (finish : Pool → Pool) (c : Config) (elapsed : Nat) (request : Option String)
    (requests : List Request) (memory : Memory) : List Outcome × Memory :=
  let chunks := chunksOf (chunkSize requests.length c.threads) (indexed requests)
  let (outcomes, memory) := runChunks finish c elapsed request chunks [] memory
  (outcomes.mergeSort fun a b => a.index ≤ b.index, memory)

/-! ### A whole batch -/

/-- The event for the results `r`, with their numbers and `c.threads`. -/
def completedEvent (c : Config) (r : Results) : Log.Event :=
  .completion .batchComplete "Batch evaluation completed"
    [("duration_ms", Text.fixedPoint 3 (milliseconds r.elapsed)),
     ("requests", toString r.processed), ("successful", toString r.succeeded),
     ("failed", toString r.failed), ("threads", toString c.threads)]

/-- The event for the failure `e` of a whole batch; `evaluateWith` logs it for more than `Limits.requests` requests. -/
def refusedEvent (e : BatchError) : Log.Event := .failure e.code e.message none []

/-- Evaluates a batch: its results, the mark of events behind it, and the memory. The events of the batch itself are
marked with `request`. The time to report, in microseconds, is `elapsed`, and `finish` finishes a pool of workers.
With one worker or fewer than two requests the batch is `sequential`, otherwise `parallel`. -/
def evaluateWith (finish : Pool → Pool) (c : Config) (elapsed : Nat) (requests : List Request)
    (request : Option String) (memory : Memory) : Except BatchError Results × Option String × Memory :=
  if Limits.requests < requests.length then
    let e := .tooManyRequests requests.length Limits.requests
    (.error e, request, { memory with logged := (refusedEvent e).forRequest request :: memory.logged })
  else
    let (outcomes, request, memory) :=
      if c.threads = 1 ∨ requests.length < 2 then
        (sequential c elapsed [] 0 requests).run request memory
      else
        let (outcomes, memory) := parallel finish c elapsed request requests memory
        (outcomes, request, memory)
    let results : Results := { outcomes, elapsed }
    let event := (completedEvent c results).forRequest request
    (.ok results, request, { memory with logged := event :: memory.logged })

/-- The batch as `evaluateWith` evaluates it with `Pool.inTurn` and `Pipeline.ownMemory`. -/
def evaluate (c : Config) (elapsed : Nat) (requests : List Request) (request : Option String) :
    Except BatchError Results × Memory :=
  let (results, _, memory) :=
    evaluateWith Pool.inTurn c elapsed requests request (Pipeline.ownMemory c.preferences)
  (results, memory)

end BoolCalc.Batch
