import BoolCalc.Proofs.Batch.Attribution
import BoolCalc.Proofs.Pipeline.Assignment
import BoolCalc.Proofs.Pipeline.Milestones

namespace BoolCalc

/-!
# The events that bear the name of a request

* `Log.Event.request?` : the request that an event is marked with;
* `Log.Event.undated` : an event without the time that the evaluation took;
* `Pipeline.undated_told` : the events of an evaluation differ in this time only;
* `Batch.bearing`, `Batch.reports_bearing` : if no two requests have one name, the events that bear the name of a
  request are those that it reports;
* `Batch.Intrudes`, `Batch.exists_ownEvents_iff` : when an event of the batch itself bears the name of a request, too;
* `Batch.bearing_evaluateWith` : the events of a batch that bear the name of a request;
* `Batch.marks_and_events` : **attribution**, these events are those of the request evaluated on its own, and no mark
  outlasts what it was set for.
-/

/-! ### Marks -/

namespace Log

theorem Context.lookup_put (key value : String) (c : Context) : (c.put key value).lookup key = some value := by
  induction c with
  | nil => simp [Context.put]
  | cons pair rest ih =>
    obtain ⟨k, v⟩ := pair
    unfold Context.put
    split
    · simp
    · split
      · simp
      · next hne _ => rw [List.lookup_cons, beq_false_of_ne hne, ih]

theorem Context.lookup_put_of_ne {key k : String} (hne : k ≠ key) (value : String) (c : Context) :
    (c.put key value).lookup k = c.lookup k := by
  induction c with
  | nil => simp [Context.put, List.lookup_cons, beq_false_of_ne hne]
  | cons pair rest ih =>
    obtain ⟨k', v⟩ := pair
    unfold Context.put
    split
    · next heq => simp [List.lookup_cons, ← heq, beq_false_of_ne hne]
    · split
      · rw [List.lookup_cons, beq_false_of_ne hne]
      · rw [List.lookup_cons, List.lookup_cons, ih]

theorem Context.lookup_puts_of_ne {k : String} {pairs : List (String × String)} (hne : ∀ pair ∈ pairs, k ≠ pair.1)
    (c : Context) : (pairs.foldl (fun c pair => Context.put pair.1 pair.2 c) c).lookup k = c.lookup k := by
  induction pairs generalizing c with
  | nil => rfl
  | cons pair pairs ih =>
    obtain ⟨hpair, hpairs⟩ := List.forall_mem_cons.1 hne
    rw [List.foldl_cons, ih hpairs, lookup_put_of_ne hpair]

/-- The context with the value of `key` left blank. -/
def Context.blank (key : String) (c : Context) : Context :=
  c.map fun pair => if pair.1 = key then (pair.1, "") else pair

/-- A value of `key` that is left blank does not matter. -/
theorem Context.blank_put (key value value' : String) (c : Context) :
    (c.put key value).blank key = (c.put key value').blank key := by
  induction c with
  | nil => simp [Context.put, blank]
  | cons pair rest ih =>
    unfold Context.put
    split
    · simp [blank]
    · split
      · simp [blank]
      · exact congrArg (_ :: ·) ih

/-- The values of other keys than `key` stay. -/
theorem Context.blank_put_of_ne {key k : String} (hne : k ≠ key) (value : String) (c : Context) :
    (c.put k value).blank key = (c.blank key).put k value := by
  induction c with
  | nil => simp [Context.put, blank, hne]
  | cons pair rest ih =>
    obtain ⟨k', v⟩ := pair
    obtain ⟨v', hv'⟩ : ∃ v', ∀ c : Context, blank key ((k', v) :: c) = (k', v') :: blank key c := by
      by_cases heq : k' = key
      · exact ⟨"", fun c => by simp [blank, heq]⟩
      · exact ⟨v, fun c => by simp [blank, heq]⟩
    have hput (c : Context) : blank key ((k, value) :: c) = (k, value) :: blank key c := by simp [blank, hne]
    rw [hv', Context.put, Context.put]
    by_cases heq : k = k'
    · rw [if_pos heq, if_pos heq, hput]
    · rw [if_neg heq, if_neg heq]
      by_cases hlt : k < k'
      · rw [if_pos hlt, if_pos hlt, hput, hv']
      · rw [if_neg hlt, if_neg hlt, hv', ih]

namespace Event

/-- The request that `e` is marked with, under the key `"request"`. -/
def request? (e : Event) : Option String := e.context.lookup "request"

theorem request?_forRequest (name : String) (e : Event) : (e.forRequest (some name)).request? = some name :=
  Context.lookup_put "request" name e.context

/-- The event with the time that an evaluation took, `duration_us`, left blank. -/
def undated (e : Event) : Event :=
  { e with context := e.context.blank "duration_us" }

/-- `undated` and `forRequest` commute. -/
theorem undated_forRequest (request : Option String) (e : Event) :
    (e.forRequest request).undated = e.undated.forRequest request := by
  cases request with
  | none => rfl
  | some name =>
    have hne : "request" ≠ "duration_us" := by decide
    exact congrArg (fun context => { e with context }) (Context.blank_put_of_ne hne name e.context)

end Event

end Log

namespace Pipeline

/-- An event of `completedEvent` that is `undated` tells the result only. -/
theorem undated_completedEvent (elapsed elapsed' : Nat) (result : Bool) :
    (completedEvent elapsed result).undated = (completedEvent elapsed' result).undated := by
  rw [completedEvent, completedEvent, Log.Event.stage_eq, Log.Event.stage_eq, Log.Event.undated, Log.Event.undated]
  simp only [List.foldl_cons, List.foldl_nil]
  rw [Log.Context.blank_put _ _ (toString elapsed')]

/-- Evaluations of different lengths report the same events but for `duration_us`. -/
theorem undated_told (p : Preferences) (elapsed elapsed' : Nat) (expression values : String) (found : Option Expr) :
    (told p elapsed expression values found).events.map Log.Event.undated =
      (told p elapsed' expression values found).events.map Log.Event.undated := by
  -- Only `completedEvent` shows the time, and `undated` takes it away.
  have hanswer (tree : Expr) : (toldAnswer p elapsed expression values tree).events.map Log.Event.undated =
      (toldAnswer p elapsed' expression values tree).events.map Log.Event.undated := by
    unfold toldAnswer
    cases hb : ((bind p.binding values).mapError PipelineError.binding).value with
    | error e => rw [Log.Logged.andThen_of_error hb, Log.Logged.andThen_of_error hb]
    | ok b =>
      rw [Log.Logged.andThen_of_ok hb, Log.Logged.andThen_of_ok hb]
      cases hvalue : ((BoolCalc.evaluate p.evaluation tree b).mapError PipelineError.evaluation).value with
      | error e => rw [Log.Logged.andThen_of_error hvalue, Log.Logged.andThen_of_error hvalue]
      | ok result =>
        rw [Log.Logged.andThen_of_ok hvalue, Log.Logged.andThen_of_ok hvalue]
        simp only [List.map_append, Log.Logged.noting, List.map_singleton]
        rw [undated_completedEvent elapsed elapsed']
  unfold told
  cases htree : (toldTree p expression found).value with
  | error e => rw [Log.Logged.andThen_of_error htree, Log.Logged.andThen_of_error htree]
  | ok tree =>
    rw [Log.Logged.andThen_of_ok htree, Log.Logged.andThen_of_ok htree, List.map_append, List.map_append, hanswer]

end Pipeline

namespace Batch

/-! ### The events of one request -/

variable {p : Preferences} {elapsed : Nat} {cached : Bool} {requests : List (Nat × Request)} {y : Nat × Request}
  {events : List Log.Event}

/-- The events of the evaluation of `r` on its own, in `Pipeline.ownMemory`, without any mark. -/
def Request.aloneEvents (p : Preferences) (elapsed : Nat) (r : Request) : List Log.Event :=
  ((Pipeline.evaluate p elapsed r.expression r.values).run none (Pipeline.ownMemory p)).2.2.events

/-- `aloneEvents` are those of `told` with no tree in the cache. -/
theorem Request.aloneEvents_eq (p : Preferences) (elapsed : Nat) (r : Request) :
    r.aloneEvents p elapsed = (Pipeline.told p elapsed r.expression r.values none).events := by
  have hnone : Pipeline.found? (Pipeline.ownMemory p) p r.expression = none := by
    unfold Pipeline.found? Pipeline.ownMemory Memory.find?
    split <;> rfl
  obtain ⟨m', hrun, hlogged⟩ := Pipeline.tells_evaluate none (Pipeline.ownMemory p) p elapsed r.expression r.values
  have hunmarked := List.map_id (Pipeline.told p elapsed r.expression r.values none).events
  rw [hnone] at hrun hlogged
  rw [aloneEvents, hrun, Memory.events, hlogged, List.reverse_append, List.reverse_reverse]
  exact hunmarked

/-- The events that are marked with `name`. -/
def bearing (name : String) (events : List Log.Event) : List Log.Event :=
  events.filter (·.request? = some name)

theorem bearing_map_eq_nil_iff {name : String} {f : Log.Event → Log.Event} :
    bearing name (events.map f) = [] ↔ ¬∃ e ∈ events, (f e).request? = some name := by
  rw [bearing, List.filter_eq_nil_iff, List.forall_mem_map]
  simp

/-- If no two requests have one name, the events that bear the name of a request are those that it `Reports`. -/
theorem reports_bearing (h : Attributed p elapsed cached requests events)
    (hnames : (requests.map fun y => y.2.name y.1).Nodup) (hy : y ∈ requests) :
    Reports p elapsed cached y (bearing (y.2.name y.1) events) := by
  obtain ⟨labelled, rfl, hplaces, hreports⟩ := h
  -- All events in the share of a place bear the name of its request.
  have hname {z : Nat × Request} (hz : z ∈ requests) {x : Nat × Log.Event} (hx : x ∈ labelled) (hplace : x.1 = z.1) :
      x.2.request? = some (z.2.name z.1) := by
    obtain ⟨found, -, hshare⟩ := hreports z hz
    have hmem : x.2 ∈ share labelled z.1 :=
      List.mem_map_of_mem (List.mem_filter.2 ⟨hx, decide_eq_true hplace⟩)
    rw [hshare] at hmem
    obtain ⟨e, -, he⟩ := List.mem_map.1 hmem
    rw [← he, Log.Event.request?_forRequest]
  have hsame : ∀ x ∈ labelled, decide (x.2.request? = some (y.2.name y.1)) = decide (x.1 = y.1) := by
    intro x hx
    rw [decide_eq_decide]
    refine ⟨fun heq => ?_, hname hy hx⟩
    obtain ⟨z, hz, hplace⟩ := List.mem_map.1 (hplaces x hx)
    have heq' := Option.some.inj ((hname hz hx hplace.symm).symm.trans heq)
    rw [← hplace, List.inj_on_of_nodup_map hnames hz hy heq']
  have hbearing : bearing (y.2.name y.1) (labelled.map Prod.snd) = share labelled y.1 := by
    rw [bearing, List.filter_map, share]
    exact congrArg (List.map Prod.snd) (List.filter_congr hsame)
  rw [hbearing]
  exact hreports y hy

/-! ### The events of the batch itself -/

/-- An event of the batch itself bears `name`, too: as the mark of the caller, or as the number of outcomes that
`stopEvent` puts under the key of the marks. -/
def Intrudes (c : Config) (requests : List Request) (request : Option String) (outcomes : List Outcome)
    (name : String) : Prop :=
  request = some name ∨
    request = none ∧ (c.threads = 1 ∨ requests.length < 2) ∧ c.failFast = true ∧
      (∃ o ∈ outcomes, o.isOk = false) ∧ name = toString outcomes.length

variable {c : Config} {rs : List Request} {results : Results} {request : Option String}

theorem request?_completedEvent (c : Config) (results : Results) : (completedEvent c results).request? = none := by
  rw [completedEvent, Log.Event.completion, Log.Event.withContexts_eq, Log.Event.request?]
  exact Log.Context.lookup_puts_of_ne (by simp) _

/-- `stopEvent` has the number `n` for a mark exactly if `key` is `request`. -/
theorem request?_stopEvent (key : String) (n : Nat) :
    (stopEvent key n).request? = if key = "request" then some (toString n) else none := by
  rw [stopEvent, Log.Event.caution, Log.Event.withContexts_eq, Log.Event.request?]
  show (Log.Context.put key (toString n) []).lookup "request" = _
  by_cases hkey : key = "request"
  · rw [if_pos hkey, hkey, Log.Context.lookup_put]
  · rw [if_neg hkey, Log.Context.lookup_put_of_ne (Ne.symm hkey)]
    rfl

/-- The event of a batch that stops bears `name` if it counts the outcomes under the key of the marks. -/
theorem exists_stopped_iff {key name : String} {outcomes : List Outcome} :
    (∃ e ∈ stopped c key outcomes, e.request? = some name) ↔
      key = "request" ∧ c.failFast = true ∧ (∃ o ∈ outcomes, o.isOk = false) ∧ name = toString outcomes.length := by
  have hany : outcomes.any (!·.isOk) = true ↔ ∃ o ∈ outcomes, o.isOk = false := by simp
  have hstop : (stopEvent key outcomes.length).request? = some name ↔
      key = "request" ∧ name = toString outcomes.length := by
    rw [request?_stopEvent]
    by_cases hkey : key = "request"
    · simp [hkey, eq_comm]
    · simp [hkey]
  by_cases h : (c.failFast && outcomes.any (!·.isOk)) = true
  · rw [stopped_of_true h]
    rw [Bool.and_eq_true, hany] at h
    simp only [List.mem_singleton, exists_eq_left, hstop, h, true_and]
  · rw [stopped, if_neg h]
    rw [Bool.and_eq_true, hany] at h
    refine iff_of_false (by simp) ?_
    rintro ⟨-, hfast, hfails, -⟩
    exact h ⟨hfast, hfails⟩

/-- An event of the batch itself bears `name` exactly if it `Intrudes`. -/
theorem exists_ownEvents_iff (c : Config) (rs : List Request) (results : Results) (request : Option String)
    (name : String) : (∃ e ∈ ownEvents c rs results, (e.forRequest request).request? = some name) ↔
      Intrudes c rs request results.outcomes name := by
  cases request with
  | some mark =>
    -- All events of the batch bear the mark of the caller.
    simp only [Log.Event.request?_forRequest, Intrudes, reduceCtorEq, false_and, or_false]
    constructor
    · rintro ⟨_, _, hmark⟩
      exact hmark
    · intro hmark
      exact ⟨completedEvent c results, List.mem_append_right _ List.mem_cons_self, hmark⟩
  | none =>
    have hown : (∃ e ∈ ownEvents c rs results, (e.forRequest none).request? = some name) ↔
        ∃ e ∈ stopped c (if c.threads = 1 ∨ rs.length < 2 then "request" else "processed") results.outcomes,
          e.request? = some name := by
      rw [ownEvents]
      simp only [List.mem_append, List.mem_singleton, or_and_right, exists_or, exists_eq_left]
      refine or_iff_left ?_
      show ¬(completedEvent c results).request? = some name
      rw [request?_completedEvent]
      exact (Option.some_ne_none name).symm
    have hkey : (if c.threads = 1 ∨ rs.length < 2 then "request" else "processed") = "request" ↔
        c.threads = 1 ∨ rs.length < 2 := by
      split
      · next h => exact iff_of_true rfl h
      · next h => exact iff_of_false (by decide) h
    rw [hown, exists_stopped_iff, hkey, Intrudes]
    simp

/-! ### A whole batch -/

/-- Without a cache, what a request `Reports` is, but for the times, what it reports on its own, marked with its
name. -/
theorem Reports.undated_eq (h : Reports p elapsed false y events) (elapsed' : Nat) :
    events.map Log.Event.undated =
      (y.2.aloneEvents p elapsed').map fun e => (e.forRequest (some (y.2.name y.1))).undated := by
  obtain ⟨found, hfound, rfl⟩ := h
  obtain rfl : found = none := Option.eq_none_iff_forall_ne_some.2 fun tree htree =>
    absurd (hfound tree htree).1 Bool.false_ne_true
  have htold := congrArg (List.map (·.forRequest (some (y.2.name y.1))))
    (Pipeline.undated_told p elapsed elapsed' y.2.expression y.2.values none)
  rw [Request.aloneEvents_eq]
  simp only [List.map_map, Function.comp_def, Log.Event.undated_forRequest] at htold ⊢
  exact htold

theorem serves_ownMemory (hcache : p.evaluation.cacheTrees = false) : (Pipeline.ownMemory p).Serves false :=
  Memory.serves_of_none (by rw [Pipeline.ownMemory, hcache]; rfl)

/-- **The events that bear the name of a request** are `aloneEvents` with its name, and behind them those of the
batch itself that bear it, too. The time that an evaluation took is left blank in both. -/
theorem bearing_evaluateWith {finish : Pool → Pool} (elapsed elapsed' : Nat) (request : Option String)
    (hfinish : Interleaving c.threads finish) (hcache : c.preferences.evaluation.cacheTrees = false)
    (hnames : ((indexed rs).map fun y => y.2.name y.1).Nodup) (hsize : rs.length ≤ Limits.requests) :
    let done := evaluateWith finish c elapsed rs request (Pipeline.ownMemory c.preferences)
    ∃ results, done.1 = .ok results ∧ results.outcomes = (seen c rs).map (outcomeOf c.preferences) ∧
      ∀ y ∈ seen c rs, (bearing (y.2.name y.1) done.2.2.events).map Log.Event.undated =
        ((y.2.aloneEvents c.preferences elapsed').map fun e => (e.forRequest (some (y.2.name y.1))).undated) ++
          (bearing (y.2.name y.1) ((ownEvents c rs results).map (·.forRequest request))).map Log.Event.undated := by
  obtain ⟨results, body, hresults, houtcomes, -, hbody, hlog⟩ :=
    events_evaluateWith elapsed request hfinish (serves_ownMemory hcache) hsize
  have hseen : ((seen c rs).map fun y => y.2.name y.1).Nodup := by
    obtain ⟨k, hk⟩ := exists_seen_eq_take c rs
    rw [hk]
    exact hnames.sublist ((List.take_sublist k _).map _)
  have hempty : (Pipeline.ownMemory c.preferences).events = [] := rfl
  refine ⟨results, hresults, houtcomes, fun y hy => ?_⟩
  rw [hlog, hempty, List.nil_append, bearing, List.filter_append, List.map_append]
  exact congrArg (· ++ _) ((reports_bearing hbody hseen hy).undated_eq elapsed')

/-- A computation for the request `name` is run with this mark, whatever marks it sets itself, and then the mark is
as before. -/
theorem run_forRequest {α : Type} (w : Work α) (name : String) (mark : Option String) (m : Memory) :
    (w.forRequest name).run mark m = ((w.run (some name) m).1, mark, (w.run (some name) m).2.2) := by
  rw [Work.forRequest, Work.run, Work.run_bind]
  rfl

/-- **Attribution.** A batch without a cache, in which no two requests have one name, is finished by `finish`, in
whatever order its workers take their steps. No mark outlasts what it was set for:
* behind the batch the mark of the caller is `request`, as before;
* the workers of a chunk that is finished have none;
* `forRequest` puts back the mark that it finds, whatever the computation does with it.
If the batch is within `Limits.requests`, it has results, and for every outcome `o` of a request `r`:
* the events that bear `o.name` are those of `r` evaluated on its own, with this name, and behind them those of the
  batch itself that bear it, `duration_us` left blank;
* there are none of the latter exactly unless an event of the batch `Intrudes`. -/
theorem marks_and_events (finish : Pool → Pool) (c : Config) (elapsed elapsed' : Nat) (requests : List Request)
    (request : Option String) (hfinish : Interleaving c.threads finish)
    (hcache : c.preferences.evaluation.cacheTrees = false)
    (hnames : ((indexed requests).map fun y => y.2.name y.1).Nodup) :
    let done := evaluateWith finish c elapsed requests request (Pipeline.ownMemory c.preferences)
    done.2.1 = request ∧
    (∀ chunk ∈ chunksOf (chunkSize requests.length c.threads) (indexed requests), ∀ memory : Memory,
      memory.cache = none → ∀ crew ∈ (finish (chunkPool c elapsed chunk memory)).crews, crew.request = none) ∧
    (∀ (α : Type) (w : Work α) (name : String) (mark : Option String) (m : Memory),
      (w.forRequest name).run mark m = ((w.run (some name) m).1, mark, (w.run (some name) m).2.2)) ∧
    (requests.length ≤ Limits.requests → ∃ results, done.1 = .ok results ∧
      ∀ o ∈ results.outcomes, ∃ r, requests[o.index]? = some r ∧ o.name = r.name o.index ∧
        (bearing o.name done.2.2.events).map Log.Event.undated =
          ((r.aloneEvents c.preferences elapsed').map fun e => (e.forRequest (some o.name)).undated) ++
            (bearing o.name ((ownEvents c requests results).map (·.forRequest request))).map Log.Event.undated ∧
        (bearing o.name ((ownEvents c requests results).map (·.forRequest request)) = [] ↔
          ¬Intrudes c requests request results.outcomes o.name)) := by
  intro done
  refine ⟨?_, fun chunk hchunk memory hmemory => ?_, fun _ => run_forRequest, fun hsize => ?_⟩
  · by_cases hsize : requests.length ≤ Limits.requests
    · obtain ⟨-, -, -, -, hmark, -⟩ :=
        events_evaluateWith elapsed request hfinish (serves_ownMemory hcache) hsize
      exact hmark
    · show (evaluateWith finish c elapsed requests request _).2.1 = request
      rw [evaluateWith, if_pos (Nat.lt_of_not_le hsize)]
  · -- Places of all requests are distinct, and so are those of a chunk.
    have hplaces : (chunk.map Prod.fst).Nodup := by
      have hall := nodup_indexed requests
      rw [← flatten_chunksOf (chunkSize_pos requests.length c.threads) (indexed requests)] at hall
      exact hall.sublist ((List.sublist_flatten_of_mem hchunk).map _)
    exact (attributed_runChunk elapsed hfinish (Memory.serves_of_none hmemory : memory.Serves false) hplaces).2.2
  · obtain ⟨results, hresults, houtcomes, hevents⟩ :=
      bearing_evaluateWith elapsed elapsed' request hfinish hcache hnames hsize
    refine ⟨results, hresults, fun o ho => ?_⟩
    rw [houtcomes] at ho
    obtain ⟨y, hy, rfl⟩ := List.mem_map.1 ho
    -- An outcome belongs to a request that was seen, and so to one of the batch.
    have hindexed : y ∈ indexed requests := by
      obtain ⟨k, hk⟩ := exists_seen_eq_take c requests
      rw [hk] at hy
      exact List.mem_of_mem_take hy
    refine ⟨y.2, getElem?_of_mem_indexed hindexed, rfl, hevents y hy, ?_⟩
    rw [bearing_map_eq_nil_iff, exists_ownEvents_iff]

/-- Two requests, of which the second fails. The name of the first is `"2"`, the number of both. -/
def numberedBatch : List Request :=
  [{ id := some "2", expression := "true" }, { id := some "1", expression := "" }]

/-- Two workers, one after the other, report nothing else under the names in `numberedBatch`. -/
theorem marks_and_events_numberedBatch :
    Interleaving (Config.threads { maxThreads := 2, failFast := true }) Pool.inTurn ∧
    ((indexed numberedBatch).map fun y => y.2.name y.1).Nodup ∧ numberedBatch.length ≤ Limits.requests ∧
    ∃ results, (evaluateWith Pool.inTurn { maxThreads := 2, failFast := true } 0 numberedBatch none
        (Pipeline.ownMemory .strict)).1 = .ok results ∧
      ∀ o ∈ results.outcomes, ∃ r, numberedBatch[o.index]? = some r ∧
        (bearing o.name (evaluateWith Pool.inTurn { maxThreads := 2, failFast := true } 0 numberedBatch none
            (Pipeline.ownMemory .strict)).2.2.events).map Log.Event.undated =
          (r.aloneEvents .strict 7).map fun e => (e.forRequest (some o.name)).undated := by
  have hfinish := interleaving_inTurn (Config.threads { maxThreads := 2, failFast := true })
  have hnames : ((indexed numberedBatch).map fun y => y.2.name y.1).Nodup := by decide
  have hsize : numberedBatch.length ≤ Limits.requests := by decide
  obtain ⟨-, -, -, hevents⟩ := marks_and_events Pool.inTurn { maxThreads := 2, failFast := true } 0 7 numberedBatch none
    hfinish rfl hnames
  obtain ⟨results, hresults, houtcomes⟩ := hevents hsize
  refine ⟨hfinish, hnames, hsize, results, hresults, fun o ho => ?_⟩
  obtain ⟨r, hr, -, hbearing, hnone⟩ := houtcomes o ho
  have hclear : ¬Intrudes { maxThreads := 2, failFast := true } numberedBatch none results.outcomes o.name := by
    rintro (hmark | ⟨-, hone, -⟩)
    · cases hmark
    · revert hone
      decide
  rw [hnone.2 hclear, List.map_nil, List.append_nil] at hbearing
  exact ⟨r, hr, hbearing⟩

/-- A configuration of one worker that stops at a failure. -/
def stopping : Config := { maxThreads := 1, failFast := true }

theorem isOk_alone_true : (Request.alone .strict { id := some "2", expression := "true" }).isOk = true := by
  have hanswer : Pipeline.answerOf .strict "true" "" = .ok ⟨"true", "", true⟩ :=
    Pipeline.answerOf_assignmentText (v := fun _ => true) Pipeline.treeOf_true (List.Perm.refl []) (by decide)
      (by decide)
  rw [Request.alone_eq, hanswer]
  rfl

theorem isOk_alone_empty : (Request.alone .strict { id := some "1", expression := "" }).isOk = false := by
  decide +kernel

/-- Both requests of `numberedBatch` are evaluated. -/
theorem seen_numberedBatch : seen stopping numberedBatch = indexed numberedBatch := by
  have hfirst : fails .strict (0, { id := some "2", expression := "true" }) = false :=
    congrArg (!·) isOk_alone_true
  rw [seen, if_pos (.inl rfl)]
  show upTo true (fails .strict) [(0, _), (1, _)] = _
  rw [upTo_cons, hfirst, upTo_cons, upTo_nil, ite_self]
  rfl

/-- **A number taken for a name.** The event that `numberedBatch` stops after two outcomes bears the name of the
first request, though it is none of the events of its evaluation. -/
theorem bearing_numberedBatch :
    Interleaving stopping.threads Pool.inTurn ∧ ((indexed numberedBatch).map fun y => y.2.name y.1).Nodup ∧
    ∃ results o, (evaluateWith Pool.inTurn stopping 0 numberedBatch none (Pipeline.ownMemory .strict)).1 = .ok results ∧
      o ∈ results.outcomes ∧ o.name = "2" ∧
      (bearing "2" (evaluateWith Pool.inTurn stopping 0 numberedBatch none
          (Pipeline.ownMemory .strict)).2.2.events).map Log.Event.undated ≠
        (Request.aloneEvents .strict 0 { id := some "2", expression := "true" }).map fun e =>
          (e.forRequest (some "2")).undated := by
  have hfinish := interleaving_inTurn stopping.threads
  have hnames : ((indexed numberedBatch).map fun y => y.2.name y.1).Nodup := by decide
  obtain ⟨results, hresults, houtcomes, hevents⟩ :=
    bearing_evaluateWith 0 0 none hfinish rfl hnames (by decide)
  rw [seen_numberedBatch] at houtcomes hevents
  have hfirst : (0, ({ id := some "2", expression := "true" } : Request)) ∈ indexed numberedBatch := List.mem_cons_self
  refine ⟨hfinish, hnames, results, outcomeOf .strict (0, { id := some "2", expression := "true" }), hresults, ?_,
    rfl, ?_⟩
  · rw [houtcomes]
    exact List.mem_map_of_mem hfirst
  · have hsecond : outcomeOf .strict (1, { id := some "1", expression := "" }) ∈ results.outcomes := by
      rw [houtcomes]
      exact List.mem_map_of_mem (List.mem_cons_of_mem _ List.mem_cons_self)
    have hcount : "2" = toString results.outcomes.length := by
      rw [houtcomes, List.length_map]
      rfl
    have hintrudes : Intrudes stopping numberedBatch none results.outcomes "2" :=
      .inr ⟨rfl, .inl rfl, rfl, ⟨_, hsecond, isOk_alone_empty⟩, hcount⟩
    intro heq
    have hnothing := List.append_right_eq_self.1 ((hevents _ hfirst).symm.trans heq)
    exact bearing_map_eq_nil_iff.1 (List.map_eq_nil_iff.1 hnothing) ((exists_ownEvents_iff _ _ _ _ _).2 hintrudes)

end Batch

end BoolCalc
