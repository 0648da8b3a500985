import BoolCalc.Pipeline.Error
import BoolCalc.Text.FixedPoint

namespace BoolCalc.Batch

/-!
# Results of a batch

* `Outcome` : what became of one request;
* `Results` : what became of a batch;
* `Results.summary` : the counts in one line.
-/

/-- What became of a request: the `result` is an answer, or the failure of a stage. -/
structure Outcome where
  /-- The place of the request in the batch, from `0`. -/
  index : Nat
  /-- The name that `Request.name` gives to the request. -/
  name : String
  result : Except PipelineError Response

/-- True if the request was answered, whatever the truth value in its `result`. -/
def Outcome.isOk (o : Outcome) : Bool := o.result.isOk

/-- What became of a batch, one `Outcome` for each request that it came to. -/
structure Results where
  outcomes : List Outcome
  /-- The time it took, in microseconds, as `evaluateWith` was told. -/
  elapsed : Nat

/-- A time in microseconds as a number of milliseconds in binary64: the seconds `micros / 1000000` and the rest are
added up in seconds first. -/
def milliseconds (micros : Nat) : Float :=
  (Float.ofNat (micros / 1000000) + Float.ofNat (micros % 1000000 * 1000) / 1000000000.0) * 1000.0

namespace Results

/-- The number of `outcomes`; with fail-fast it may be smaller than that of the requests. -/
def processed (r : Results) : Nat := r.outcomes.length

/-- The number of `outcomes` with `isOk`. -/
def succeeded (r : Results) : Nat := r.outcomes.countP Outcome.isOk

/-- The number of `outcomes` without `isOk`. -/
def failed (r : Results) : Nat := r.processed - r.succeeded

/-- The share of `r.succeeded` in `r.processed`, in percent; `0` for an empty batch. -/
def successPercent (r : Results) : Float :=
  let rate := if r.outcomes.isEmpty then 0.0 else
    Float.ofNat r.succeeded / Float.ofNat r.processed
  rate * 100.0

/-- The counts of `r` in one line, for the console. -/
def summary (r : Results) : String :=
  let percent := Text.fixedPoint 1 r.successPercent
  let time := Text.fixedPoint 2 (milliseconds r.elapsed)
  s!"Batch evaluation completed: {r.processed} requests, {r.succeeded} successful " ++
    s!"({percent}%), {r.failed} failed, {time}ms total"

end Results

end BoolCalc.Batch
