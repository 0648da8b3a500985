import BoolCalc.Proofs.Batch.Chunks
import BoolCalc.Proofs.Batch.Interleaving

namespace BoolCalc

/-!
# The outcomes of a batch

* `Batch.upTo` : the items of a list up to the first with a property;
* `Batch.run_sequential` : the outcomes of requests one after another;
* `Batch.perm_runChunk`, `Batch.perm_runChunks` : the outcomes of a chunk and of chunks, in whatever order they
  are handed in;
* `Batch.seen` : the requests that a batch comes to;
* `Batch.outcomes_evaluateWith` : the outcomes of a batch are those of these requests, each on its own;
* `Batch.evaluateWith_evaluated` : **batches**, the same in terms of places and numbers.
-/

namespace Batch

variable {α : Type} {stop : Bool} {q : α → Bool} {x : α} {xs : List α}

/-! ### The items up to the first with a property -/

/-- All items, or, if it is asked to stop, those up to the first that satisfies `q`. -/
def upTo (stop : Bool) (q : α → Bool) (xs : List α) : List α :=
  if stop then xs.take (xs.findIdx q + 1) else xs

theorem upTo_nil : upTo stop q [] = [] := by cases stop <;> rfl

theorem upTo_cons : upTo stop q (x :: xs) = x :: if (q x && stop) = true then [] else upTo stop q xs := by
  cases stop with
  | false => simp [upTo]
  | true => cases hq : q x <;> simp [upTo, List.findIdx_cons, hq]

/-- If no item satisfies `q`, these are all items. -/
theorem upTo_of_all (h : ∀ x ∈ xs, q x = false) : upTo stop q xs = xs := by
  cases stop with
  | false => rfl
  | true =>
    rw [upTo, if_pos rfl, List.findIdx_eq_length.2 h]
    exact List.take_of_length_le (Nat.le_succ _)

/-- What `upTo` keeps stands at the front of `xs`. -/
theorem exists_upTo_eq_take (stop : Bool) (q : α → Bool) (xs : List α) : ∃ k, upTo stop q xs = xs.take k := by
  cases stop with
  | false => exact ⟨xs.length, List.take_length.symm⟩
  | true => exact ⟨_, rfl⟩

theorem mem_of_mem_upTo (h : x ∈ upTo stop q xs) : x ∈ xs := by
  obtain ⟨k, hk⟩ := exists_upTo_eq_take stop q xs
  rw [hk] at h
  exact List.mem_of_mem_take h

variable {p : Preferences} {c : Config} {elapsed : Nat} {request : Option String} {requests : List Request}
  {memory : Memory} {finish : Pool → Pool}

/-- Whether the request fails when it is evaluated on its own: `outcomeOf` is no success. -/
def fails (p : Preferences) (x : Nat × Request) : Bool := !(outcomeOf p x).isOk

/-! ### One after another -/

/-- **Requests one after another.** `sequential` comes to the outcomes of the requests on their own, up to the first
that fails if `c.failFast`. -/
theorem run_sequential (hm : memory.Sound) (acc : List Outcome) (index : Nat) (rs : List Request) :
    ((sequential c elapsed acc index rs).run request memory).1 = acc.reverse ++
      (upTo c.failFast (fails c.preferences) ((rs.zipIdx index).map fun (r, i) => (i, r))).map
        (outcomeOf c.preferences) := by
  induction rs generalizing acc index request memory with
  | nil =>
    rw [List.zipIdx_nil, List.map_nil, upTo_nil, List.map_nil, List.append_nil]
    rfl
  | cons r rest ih =>
    obtain ⟨hresult, hsound⟩ := Work.meets_run (meets_evaluateOne c.preferences elapsed index r) hm request
    rw [sequential, Work.run_bind, hresult, List.zipIdx_cons, List.map_cons, upTo_cons]
    by_cases hstop : (fails c.preferences (index, r) && c.failFast) = true
    · have hstop' : (!(outcomeOf c.preferences (index, r)).isOk && c.failFast) = true := hstop
      rw [if_pos hstop, if_pos hstop']
      exact List.reverse_cons
    · have hstop' : ¬(!(outcomeOf c.preferences (index, r)).isOk && c.failFast) = true := hstop
      rw [if_neg hstop, if_neg hstop', ih hsound, List.reverse_cons, List.map_cons, List.append_assoc,
        List.singleton_append]

/-! ### Several at a time -/

/-- The workers of a chunk begin with the invariant `Pool.Upholds`; `12` steps for each request are enough. -/
theorem upholds_shareOut (hm : memory.Sound) (c : Config) (elapsed : Nat) (chunk : List (Nat × Request)) :
    Pool.Upholds c.preferences (chunk.map (outcomeOf c.preferences)) (fun _ => 12 * chunk.length)
      { preferences := c.preferences, elapsed, crews := shareOut c.threads chunk, memory } := by
  have hslices := flatten_slices c.threads_pos chunk
  have hlength : ∀ slice ∈ chunksOf (ceilDiv chunk.length c.threads) chunk,
      12 * slice.length ≤ 12 * chunk.length := by
    intro slice hslice
    have hle := (List.sublist_flatten_of_mem hslice).length_le
    rw [hslices] at hle
    exact Nat.mul_le_mul_left 12 hle
  have hstart := Pool.upholds_start c.preferences elapsed hm hlength
  rw [hslices] at hstart
  exact hstart

/-- **A chunk.** If `finish` is an `Interleaving`, `runChunk` hands in the outcomes of all requests of the `chunk`,
and the memory stays `Sound`. -/
theorem perm_runChunk (elapsed : Nat) (hfinish : Interleaving c.threads finish) (hm : memory.Sound)
    (chunk : List (Nat × Request)) :
    (runChunk finish c elapsed chunk memory).1.Perm (chunk.map (outcomeOf c.preferences)) ∧
      (runChunk finish c elapsed chunk memory).2.Sound := by
  obtain ⟨⟨schedule, hrun⟩, hfinished⟩ := hfinish
    { preferences := c.preferences, elapsed, crews := shareOut c.threads chunk, memory }
    (length_shareOut_le c.threads_pos chunk)
  have hupholds := (upholds_shareOut hm c elapsed chunk).run schedule
  rw [hrun] at hupholds
  exact ⟨(List.reverse_perm _).trans (hupholds.perm_handedIn hfinished), hupholds.sound⟩

/-- The `outcomes` of a chunk have a failure exactly if one of its requests `fails`. -/
theorem any_outcomes {outcomes : List Outcome} {chunk : List (Nat × Request)}
    (h : outcomes.Perm (chunk.map (outcomeOf p))) : outcomes.any (!·.isOk) = chunk.any (fails p) := by
  rw [h.any_eq, List.any_map]
  rfl

/-- No outcome in `acc`, before the chunk, is a failure, or the chunk would not have been begun. So the batch stops
behind it if one of its requests fails. -/
theorem failFast_and_any {acc outcomes : List Outcome} {chunk : List (Nat × Request)}
    (hacc : c.failFast = true → acc.any (!·.isOk) = false) (hperm : outcomes.Perm (chunk.map (outcomeOf p))) :
    (c.failFast && (acc ++ outcomes).any (!·.isOk)) = (chunk.any (fails p) && c.failFast) := by
  cases hfast : c.failFast with
  | false => rw [Bool.false_and, Bool.and_false]
  | true => rw [List.any_append, hacc hfast, Bool.false_or, any_outcomes hperm, Bool.and_comm]

/-- If the batch goes on, there is no failure so far, as `perm_runChunks` needs it for the next chunk. -/
theorem any_of_not_stop {outcomes : List Outcome} {fails : Bool}
    (hend : (c.failFast && outcomes.any (!·.isOk)) = (fails && c.failFast))
    (hstop : ¬(fails && c.failFast) = true) : c.failFast = true → outcomes.any (!·.isOk) = false := by
  intro hfast
  rw [← hend, hfast, Bool.true_and] at hstop
  exact Bool.eq_false_iff.2 hstop

/-- **Chunks**, up to the first with a failure if `c.failFast`. -/
theorem perm_runChunks (elapsed : Nat) (request : Option String) (hfinish : Interleaving c.threads finish)
    (hm : memory.Sound) (chunks : List (List (Nat × Request))) (acc : List Outcome)
    (hacc : c.failFast = true → acc.any (!·.isOk) = false) :
    (runChunks finish c elapsed request chunks acc memory).1.Perm (acc ++
      (upTo c.failFast (fun chunk => chunk.any (fails c.preferences)) chunks).flatten.map
        (outcomeOf c.preferences)) := by
  induction chunks generalizing acc memory with
  | nil =>
    rw [runChunks, upTo_nil, List.flatten_nil, List.map_nil, List.append_nil]
  | cons chunk rest ih =>
    obtain ⟨hperm, hsound⟩ := perm_runChunk elapsed hfinish hm chunk
    have hend := failFast_and_any hacc hperm
    rw [runChunks, upTo_cons, List.flatten_cons, List.map_append, ← List.append_assoc]
    dsimp only
    rw [hend]
    by_cases hstop : (chunk.any (fails c.preferences) && c.failFast) = true
    · rw [if_pos hstop, if_pos hstop, List.flatten_nil, List.map_nil, List.append_nil]
      exact hperm.append_left acc
    · rw [if_neg hstop, if_neg hstop]
      have hnone := any_of_not_stop hend hstop
      exact (ih hsound _ hnone).trans ((hperm.append_left acc).append_right _)

/-! ### The requests that a batch comes to -/

/-- The requests that a batch comes to, with their places: those up to the first that `fails` for one worker, and
those up to the end of its chunk for several. -/
def seen (c : Config) (requests : List Request) : List (Nat × Request) :=
  if c.threads = 1 ∨ requests.length < 2 then upTo c.failFast (fails c.preferences) (indexed requests)
  else (upTo c.failFast (fun chunk => chunk.any (fails c.preferences))
    (chunksOf (chunkSize requests.length c.threads) (indexed requests))).flatten

theorem getElem?_indexed (requests : List Request) (i : Nat) :
    (indexed requests)[i]? = requests[i]?.map fun r => (i, r) := by
  rw [indexed, List.getElem?_map, List.getElem?_zipIdx, Option.map_map, Nat.zero_add]
  rfl

theorem length_indexed (requests : List Request) : (indexed requests).length = requests.length := by
  rw [indexed, List.length_map, List.length_zipIdx]

/-- The requests that are `seen` stand at the front of `requests`. -/
theorem exists_seen_eq_take (c : Config) (requests : List Request) :
    ∃ k, seen c requests = (indexed requests).take k := by
  rw [seen]
  split
  · exact exists_upTo_eq_take _ _ _
  · have hsize := chunkSize_pos requests.length c.threads
    obtain ⟨k, hk⟩ := exists_upTo_eq_take c.failFast (fun chunk => chunk.any (fails c.preferences))
      (chunksOf (chunkSize requests.length c.threads) (indexed requests))
    rw [hk, flatten_take_chunksOf hsize]
    exact ⟨_, rfl⟩

/-- A request of `indexed requests` is the one in its place. -/
theorem getElem?_of_mem_indexed {y : Nat × Request} (h : y ∈ indexed requests) :
    requests[y.1]? = some y.2 := by
  obtain ⟨i, hi⟩ := List.mem_iff_getElem?.1 h
  rw [getElem?_indexed] at hi
  obtain ⟨r, hr, rfl⟩ := Option.map_eq_some_iff.1 hi
  exact hr

theorem pairwise_indexed (requests : List Request) : (indexed requests).Pairwise fun y z => y.1 < z.1 := by
  have hplace : ∀ i (h : i < (indexed requests).length), (indexed requests)[i].1 = i := by
    intro i h
    have hi := List.getElem?_eq_getElem h
    rw [getElem?_indexed] at hi
    obtain ⟨r, -, hr⟩ := Option.map_eq_some_iff.1 hi
    rw [← hr]
  rw [List.pairwise_iff_getElem]
  intro i j hi hj hlt
  rwa [hplace i hi, hplace j hj]

/-- Outcomes sorted by their places are in the order of the requests. -/
theorem mergeSort_eq_of_perm {outcomes : List Outcome} {k : Nat}
    (h : outcomes.Perm (((indexed requests).take k).map (outcomeOf p))) :
    outcomes.mergeSort (fun a b => a.index ≤ b.index) = ((indexed requests).take k).map (outcomeOf p) := by
  have hperm := (List.mergeSort_perm outcomes fun a b => a.index ≤ b.index).trans h
  have hsorted : (outcomes.mergeSort fun a b => a.index ≤ b.index).Pairwise fun a b => a.index ≤ b.index := by
    have htrans : ∀ a b c : Outcome, decide (a.index ≤ b.index) = true → decide (b.index ≤ c.index) = true →
        decide (a.index ≤ c.index) = true := by
      simp only [decide_eq_true_eq]
      exact fun _ _ _ => Nat.le_trans
    have htotal : ∀ a b : Outcome, (decide (a.index ≤ b.index) || decide (b.index ≤ a.index)) = true := by
      intro a b
      simp only [Bool.or_eq_true, decide_eq_true_eq]
      exact Nat.le_total _ _
    exact (List.pairwise_mergeSort htrans htotal outcomes).imp fun hle => of_decide_eq_true hle
  have hordered : (((indexed requests).take k).map (outcomeOf p)).Pairwise fun a b => a.index ≤ b.index := by
    rw [List.pairwise_map]
    exact ((pairwise_indexed requests).sublist (List.take_sublist _ _)).imp fun hlt => Nat.le_of_lt hlt
  refine List.Perm.eq_of_pairwise (fun a b ha hb hab hba => ?_) hsorted hordered hperm
  -- Outcomes in one place are of one request.
  obtain ⟨y, hy, rfl⟩ := List.mem_map.1 (hperm.mem_iff.1 ha)
  obtain ⟨z, hz, rfl⟩ := List.mem_map.1 hb
  have hplace : y.1 = z.1 := Nat.le_antisymm hab hba
  have hry := getElem?_of_mem_indexed (List.mem_of_mem_take hy)
  have hrz := getElem?_of_mem_indexed (List.mem_of_mem_take hz)
  rw [hplace, hrz] at hry
  rw [Prod.ext hplace (Option.some.inj hry).symm]

/-- **The outcomes of a batch** are those of the requests in `seen`, each on its own, in their order. -/
theorem outcomes_evaluateWith (elapsed : Nat) (request : Option String)
    (hfinish : Interleaving c.threads finish) (hm : memory.Sound) (hsize : requests.length ≤ Limits.requests) :
    ∃ results, (evaluateWith finish c elapsed requests request memory).1 = .ok results ∧
      results.outcomes = (seen c requests).map (outcomeOf c.preferences) := by
  rw [evaluateWith, if_neg (Nat.not_lt.2 hsize)]
  refine ⟨_, rfl, ?_⟩
  dsimp only
  rw [seen]
  split
  · exact run_sequential hm [] 0 requests
  · -- The workers hand in outcomes in any order; sorting them by their places restores that of the requests.
    have hperm := perm_runChunks elapsed request hfinish hm
      (chunksOf (chunkSize requests.length c.threads) (indexed requests)) [] (fun _ => rfl)
    obtain ⟨k, hk⟩ := exists_upTo_eq_take c.failFast (fun chunk => chunk.any (fails c.preferences))
      (chunksOf (chunkSize requests.length c.threads) (indexed requests))
    rw [hk, flatten_take_chunksOf (chunkSize_pos _ _), List.nil_append] at hperm
    rw [hk, flatten_take_chunksOf (chunkSize_pos _ _)]
    exact mergeSort_eq_of_perm hperm

/-! ### How many requests a batch comes to -/

/-- Without `c.failFast`, or if none fails, a batch comes to all requests. -/
theorem seen_of_all (h : c.failFast = true → ∀ y ∈ indexed requests, fails c.preferences y = false) :
    seen c requests = indexed requests := by
  have hsize := chunkSize_pos requests.length c.threads
  rw [seen]
  cases hfast : c.failFast with
  | false =>
    split
    · rfl
    · exact flatten_chunksOf hsize _
  | true =>
    rw [upTo_of_all (h hfast), upTo_of_all (any_chunksOf_of_all hsize (h hfast)), flatten_chunksOf hsize, ite_self]

/-- With `c.failFast`, a batch of one worker ends with the first request that fails, `f`, and any other batch with
the last request of the chunk of `f`. -/
theorem length_seen_of_first {f : Nat} (hfast : c.failFast = true) (hf : f < requests.length)
    (hfirst : (indexed requests).findIdx (fails c.preferences) = f) :
    (seen c requests).length =
      if c.threads = 1 ∨ requests.length < 2 then f + 1
      else min requests.length ((f / chunkSize requests.length c.threads + 1) *
        chunkSize requests.length c.threads) := by
  have hsize := chunkSize_pos requests.length c.threads
  have hlt : f < (indexed requests).length := by rwa [length_indexed]
  rw [seen]
  split
  · rw [upTo, if_pos hfast, hfirst, List.length_take, length_indexed]
    exact Nat.min_eq_left hf
  · rw [upTo, if_pos hfast, findIdx_chunksOf hsize hlt hfirst, flatten_take_chunksOf hsize, List.length_take,
      length_indexed, Nat.min_comm]

/-- The first request that fails on its own is in the place `f`. -/
structure FirstFailure (p : Preferences) (requests : List Request) (f : Nat) : Prop where
  fails : ∃ r, requests[f]? = some r ∧ (r.alone p).isOk = false
  before : ∀ i < f, ∀ r, requests[i]? = some r → (r.alone p).isOk = true

theorem FirstFailure.lt_length {f : Nat} (h : FirstFailure p requests f) : f < requests.length := by
  obtain ⟨r, hr, -⟩ := h.fails
  exact (List.getElem?_eq_some_iff.1 hr).1

/-- `findIdx` of the failure in `indexed requests` is the index of the `FirstFailure`. -/
theorem FirstFailure.findIdx_eq {f : Nat} (h : FirstFailure p requests f) :
    (indexed requests).findIdx (Batch.fails p) = f := by
  obtain ⟨r, hf, hfails⟩ := h.fails
  have hlt : f < (indexed requests).length := by
    rw [length_indexed]
    exact h.lt_length
  refine (List.findIdx_eq hlt).2 ⟨?_, fun i hi => ?_⟩
  · -- The request at `f` fails.
    have hr := List.getElem?_eq_getElem hlt
    rw [getElem?_indexed, hf] at hr
    rw [← Option.some.inj hr]
    show (!(r.alone p).isOk) = true
    rw [hfails]
    rfl
  · -- Those before it succeed.
    have hi' := List.getElem?_eq_getElem (Nat.lt_trans hi hlt)
    rw [getElem?_indexed] at hi'
    obtain ⟨r', hr', heq⟩ := Option.map_eq_some_iff.1 hi'
    rw [← heq]
    show (!(r'.alone p).isOk) = false
    rw [h.before i hi r' hr']
    rfl

/-! ### A whole batch -/

/-- The outcomes are those of a batch of `requests`, as far as it comes. -/
structure Evaluated (c : Config) (requests : List Request) (outcomes : List Outcome) : Prop where
  /-- The outcome in the place `i` is that of the request in this place, on its own. -/
  place : ∀ (i : Nat) (o : Outcome), outcomes[i]? = some o → ∃ r : Request, requests[i]? = some r ∧
    o.index = i ∧ o.name = r.name i ∧ o.result = r.alone c.preferences
  /-- Without `failFast` there is an outcome for each request. -/
  whole : c.failFast = false → outcomes.length = requests.length
  answered : c.failFast = true → (∀ r ∈ requests, (r.alone c.preferences).isOk = true) →
    outcomes.length = requests.length
  /-- A single worker stops behind the first request that fails, `f`, and so does any number of workers with at most
  one request. -/
  stopped : c.failFast = true → c.threads = 1 ∨ requests.length < 2 →
    ∀ f, FirstFailure c.preferences requests f → outcomes.length = f + 1
  /-- Several workers stop at the end of the chunk of `f`, whose `size` is spelled out here. -/
  stopped_chunk : c.failFast = true → ¬(c.threads = 1 ∨ requests.length < 2) →
    ∀ f, FirstFailure c.preferences requests f →
    ∀ size, size = min (max ((requests.length + c.threads - 1) / c.threads * c.threads) 1) 1024 →
    outcomes.length = min requests.length ((f / size + 1) * size)

/-- The outcomes of the requests in `seen` are those of a batch. -/
theorem evaluated_seen (c : Config) (requests : List Request) :
    Evaluated c requests ((seen c requests).map (outcomeOf c.preferences)) where
  place := by
    intro i o ho
    -- What is seen is a front of the requests, so that places are the same in both.
    obtain ⟨k, hk⟩ := exists_seen_eq_take c requests
    rw [hk, List.getElem?_map] at ho
    obtain ⟨y, hy, rfl⟩ := Option.map_eq_some_iff.1 ho
    have hi : i < k := by
      have := (List.getElem?_eq_some_iff.1 hy).1
      rw [List.length_take] at this
      omega
    rw [List.getElem?_take_of_lt hi, getElem?_indexed] at hy
    obtain ⟨r, hr, rfl⟩ := Option.map_eq_some_iff.1 hy
    exact ⟨r, hr, rfl, rfl, rfl⟩
  whole := by
    intro hfast
    have hall : seen c requests = _ := seen_of_all fun h => absurd (hfast.symm.trans h) Bool.false_ne_true
    rw [List.length_map, hall, length_indexed]
  answered := by
    intro _ hanswered
    have hall : seen c requests = _ := seen_of_all fun _ y hy => by
      show (!(y.2.alone c.preferences).isOk) = false
      rw [hanswered y.2 (List.mem_of_getElem? (getElem?_of_mem_indexed hy))]
      rfl
    rw [List.length_map, hall, length_indexed]
  stopped := by
    intro hfast hone f hf
    rw [List.length_map, length_seen_of_first hfast hf.lt_length hf.findIdx_eq, if_pos hone]
  stopped_chunk := by
    rintro hfast hseveral f hf size rfl
    rw [List.length_map, length_seen_of_first hfast hf.lt_length hf.findIdx_eq, if_neg hseveral]
    rfl

/-- **Batches.** Whatever the preferences, the number of workers and the order of their steps, for at most
`Limits.requests` requests:
* the batch has results, and its outcomes satisfy `Evaluated`;
* each chunk is shared out whole among at most `c.threads` workers;
* the workers have finished it after any schedule with enough steps for each of them, and `12` for each request of
  the chunk are enough. -/
theorem evaluateWith_evaluated (finish : Pool → Pool) (c : Config) (elapsed : Nat) (requests : List Request)
    (request : Option String) (memory : Memory) (hfinish : Interleaving c.threads finish) (hm : memory.Sound)
    (hsize : requests.length ≤ Limits.requests) :
    (∃ results, (evaluateWith finish c elapsed requests request memory).1 = .ok results ∧
      Evaluated c requests results.outcomes) ∧
    ∀ chunk ∈ chunksOf (chunkSize requests.length c.threads) (indexed requests),
      (shareOut c.threads chunk).length ≤ c.threads ∧ (shareOut c.threads chunk).flatMap Crew.queue = chunk ∧
      ∀ (memory' : Memory) (schedule : List Nat), memory'.Sound →
        (∀ k < c.threads, 12 * chunk.length ≤ schedule.count k) →
        (Pool.run { preferences := c.preferences, elapsed, crews := shareOut c.threads chunk, memory := memory' }
          schedule).isFinished = true := by
  constructor
  · obtain ⟨results, hresults, houtcomes⟩ :=
      outcomes_evaluateWith elapsed request hfinish hm hsize
    refine ⟨results, hresults, ?_⟩
    rw [houtcomes]
    exact evaluated_seen c requests
  · intro chunk _
    have hworkers := length_shareOut_le c.threads_pos chunk
    refine ⟨hworkers, ?_, fun memory' schedule hm' hcount => ?_⟩
    · rw [shareOut, List.flatMap_map]
      exact List.flatMap_id'.trans (flatten_slices c.threads_pos chunk)
    · have hrun := (upholds_shareOut hm' c elapsed chunk).run schedule
      apply hrun.isFinished
      intro k hk
      rw [Pool.length_crews_run] at hk
      exact Nat.sub_eq_zero_of_le (hcount k (Nat.lt_of_lt_of_le hk hworkers))

/-- A batch of 1500 requests, the first of which has no expression and fails. -/
def failingBatch : List Request :=
  { expression := "" } :: List.replicate 1499 { expression := "true" }

/-- Three workers one after another stop behind the first chunk of `failingBatch`, which is not a third of it but as
long as a chunk may be, `1024`. -/
theorem evaluateWith_evaluated_failingBatch :
    Interleaving (Config.threads { maxThreads := 3, failFast := true }) Pool.inTurn ∧
    (Pipeline.ownMemory .strict).Sound ∧ failingBatch.length ≤ Limits.requests ∧
    FirstFailure .strict failingBatch 0 ∧
    ∃ results, (evaluateWith Pool.inTurn { maxThreads := 3, failFast := true } 0 failingBatch none
      (Pipeline.ownMemory .strict)).1 = .ok results ∧ results.outcomes.length = 1024 := by
  have hfinish := interleaving_inTurn (Config.threads { maxThreads := 3, failFast := true })
  have hm := Pipeline.sound_ownMemory .strict
  have hlength : failingBatch.length = 1500 := by
    rw [failingBatch, List.length_cons, List.length_replicate]
  have hsize : failingBatch.length ≤ Limits.requests := by
    rw [hlength]
    decide
  have hfails : (Request.alone .strict { expression := "" }).isOk = false := by decide +kernel
  have hfirst : FirstFailure .strict failingBatch 0 :=
    ⟨⟨{ expression := "" }, rfl, hfails⟩, fun i hi => absurd hi (Nat.not_lt_zero i)⟩
  obtain ⟨results, hresults, hevaluated⟩ := (evaluateWith_evaluated Pool.inTurn
    { maxThreads := 3, failFast := true } 0 failingBatch none (Pipeline.ownMemory .strict) hfinish hm hsize).1
  have hseveral : ¬(Config.threads { maxThreads := 3, failFast := true } = 1 ∨ failingBatch.length < 2) := by
    rw [hlength]
    decide
  have hcount := hevaluated.stopped_chunk rfl hseveral 0 hfirst _ rfl
  rw [hlength] at hcount
  exact ⟨hfinish, hm, hsize, hfirst, results, hresults, hcount⟩

end Batch

end BoolCalc
