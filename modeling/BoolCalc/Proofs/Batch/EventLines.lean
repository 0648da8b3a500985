import BoolCalc.Proofs.Batch.Attribution
import BoolCalc.Proofs.Pipeline.Assignment
import BoolCalc.Proofs.Pipeline.EventLines

namespace BoolCalc

open Text

/-!
# The lines of the events of a batch

* `Pipeline.oneLine_evaluate` : the lines of the events of an evaluation;
* `Batch.Reports.oneLine_iff`, `Batch.Attributed.oneLine_iff` : the lines of the events of a request, and of requests;
* `Batch.oneLine_ownEvents_iff` : the lines of the events of the batch itself;
* `Batch.oneLine_events` : **lines**, an event is shown on one line unless a mark or a parameter string that cannot be
  read has a line break.
-/

/-! ### Evaluations -/

/-- The lines of the events in `x` with the mark `request`, of which there is at least one. -/
theorem Pipeline.Quoting.oneLine_iff {x : Log.Logged (Except PipelineError α)} (h : Pipeline.Quoting x)
    (hne : x.events ≠ []) (request : Option String) :
    (∀ e ∈ x.events.map (·.forRequest request), OneLine e.line) ↔
      (∀ name ∈ request, OneLine name) ∧ Pipeline.ReadsOneLine x.value := by
  have hline : ∀ e ∈ x.events, OneLine (e.forRequest request).line ↔
      (∀ name ∈ request, OneLine name) ∧ OneLine e.message := fun e he => (h.framed e he).oneLine_forRequest request
  rw [← h.messages, List.forall_mem_map, forall₂_congr hline]
  constructor
  · intro hall
    obtain ⟨e, he⟩ := List.exists_mem_of_ne_nil _ hne
    exact ⟨(hall e he).1, fun e he => (hall e he).2⟩
  · rintro ⟨hmark, hmessages⟩ e he
    exact ⟨hmark, hmessages e he⟩

namespace Pipeline

/-- `told` has an event in any case, that of the normalization. -/
theorem events_told_ne_nil (p : Preferences) (elapsed : Nat) (expression values : String) (found : Option Expr) :
    (told p elapsed expression values found).events ≠ [] := by
  have htree : toldTree p expression found = _ := toldTree_eq rfl found
  unfold told
  cases h : (toldTree p expression found).value with
  | error err =>
    rw [Log.Logged.andThen_of_error h, htree]
    exact List.cons_ne_nil _ _
  | ok tree =>
    rw [Log.Logged.andThen_of_ok h, htree]
    exact List.cons_ne_nil _ _

variable {p : Preferences} {cached : Bool} {expression : String} {found : Option Expr}

/-- The lines of the events of `told`. -/
theorem oneLine_told (hfound : (keyOf p expression).MayHold cached found) (elapsed : Nat) (values : String)
    (request : Option String) :
    (∀ e ∈ (told p elapsed expression values found).events.map (·.forRequest request), OneLine e.line) ↔
      (∀ name ∈ request, OneLine name) ∧ ReadsOneLine (answerOf p expression values) := by
  rw [← told_value hfound elapsed values]
  exact (quoting_told hfound elapsed values).oneLine_iff (events_told_ne_nil p elapsed expression values found) request

/-- The lines of the events that an evaluation adds to those of `m`. -/
theorem oneLine_evaluate {m : Memory} (hm : m.Sound) (request : Option String) (p : Preferences) (elapsed : Nat)
    (expression values : String) :
    ∃ events, ((evaluate p elapsed expression values).run request m).2.2.events = m.events ++ events ∧
      ((∀ e ∈ events, OneLine e.line) ↔ (∀ name ∈ request, OneLine name) ∧
        ReadsOneLine ((evaluate p elapsed expression values).run request m).1) := by
  have hserves : m.Serves true := ⟨hm, nofun⟩
  have hreports : (evaluate p elapsed expression values).Always true request _ :=
    always_evaluate p elapsed expression values
  obtain ⟨events, hevents, -, -, found, hfound, rfl⟩ := Work.always_run hserves hreports
  refine ⟨_, hevents, ?_⟩
  rw [run_evaluate_fst hm]
  exact oneLine_told hfound elapsed values request

end Pipeline

namespace Batch

variable {p : Preferences} {elapsed : Nat} {cached : Bool} {y : Nat × Request} {events : List Log.Event}

/-! ### Requests -/

/-- The name of a request has a line break only if the request has it in its `id`. -/
theorem oneLine_name {r : Request} {index : Nat} (hid : ∀ id ∈ r.id, OneLine id) : OneLine (r.name index) := by
  unfold Request.name
  cases h : r.id with
  | some id => exact hid id h
  | none =>
    show OneLine s!"request-{index + 1}"
    simp only [oneLine_append, oneLine_toString, oneLine_nat, and_true]
    decide

/-- Neither the name of the request, nor the part of its parameter string that a failure quotes, has a line break. -/
def ShownOnOneLine (o : Outcome) : Prop := OneLine o.name ∧ Pipeline.ReadsOneLine o.result

/-- The lines of the events that the request `y` reports. -/
theorem Reports.oneLine_iff (h : Reports p elapsed cached y events) :
    (∀ e ∈ events, OneLine e.line) ↔ ShownOnOneLine (outcomeOf p y) := by
  obtain ⟨found, hfound, rfl⟩ := h
  rw [Pipeline.oneLine_told hfound, ← y.2.alone_eq]
  exact and_congr_left' ⟨fun h => h _ rfl, fun h => by rintro _ ⟨⟩; exact h⟩

theorem mem_share {labelled : List (Nat × Log.Event)} {i : Nat} {e : Log.Event} :
    e ∈ share labelled i ↔ (i, e) ∈ labelled := by
  simp [share]

/-- The lines of events that are `Attributed` to some requests. -/
theorem Attributed.oneLine_iff {requests : List (Nat × Request)} (h : Attributed p elapsed cached requests events) :
    (∀ e ∈ events, OneLine e.line) ↔ ∀ y ∈ requests, ShownOnOneLine (outcomeOf p y) := by
  obtain ⟨labelled, rfl, hplaces, hreports⟩ := h
  constructor
  · intro hall y hy
    exact (hreports y hy).oneLine_iff.1 fun e he => hall e (List.mem_map_of_mem (mem_share.1 he))
  · intro hall e he
    obtain ⟨⟨i, e⟩, hlabelled, rfl⟩ := List.mem_map.1 he
    obtain ⟨y, hy, hyi⟩ := List.mem_map.1 (hplaces _ hlabelled)
    refine (hreports y hy).oneLine_iff.2 (hall y hy) e (mem_share.2 ?_)
    rw [hyi]
    exact hlabelled

/-! ### Batches -/

variable {c : Config} {finish : Pool → Pool} {requests : List Request} {request : Option String} {memory : Memory}

/-- The `ownEvents` of a batch have line breaks from the mark only. -/
theorem oneLine_ownEvents_iff {results : Results} :
    (∀ e ∈ (ownEvents c requests results).map (·.forRequest request), OneLine e.line) ↔
      ∀ mark ∈ request, OneLine mark := by
  have hstopped {key : String} (hkey : OneLine key) :
      ∀ e ∈ stopped c key results.outcomes, e.Framed ∧ OneLine e.message := by
    unfold stopped
    split
    · refine List.forall_mem_singleton.2 (Log.Event.oneLine_withContexts ⟨?_, Log.Context.isOneLine_nil⟩ ?_
        (Log.Context.isOneLine_nil.count hkey _))
      · exact (by decide : OneLine Log.Code.plainWarning.text)
      · exact (by decide : OneLine "Fail-fast enabled, stopping batch")
    · exact List.forall_mem_nil _
  have hcompleted : (completedEvent c results).Framed ∧ OneLine (completedEvent c results).message := by
    refine Log.Event.oneLine_withContexts ⟨?_, Log.Context.isOneLine_nil⟩ ?_
      (((((Log.Context.isOneLine_nil.count (by decide) _).count (by decide) _).count (by decide) _).count
        (by decide) _).cons (by decide) (oneLine_fixedPoint _ _))
    · exact (by decide : OneLine Log.Code.batchComplete.text)
    · exact (by decide : OneLine "Batch evaluation completed").truncate _
  have hall : ∀ e ∈ ownEvents c requests results, e.Framed ∧ OneLine e.message := by
    refine List.forall_mem_append.2 ⟨hstopped ?_, List.forall_mem_singleton.2 hcompleted⟩
    split <;> decide
  have hline : ∀ e ∈ ownEvents c requests results,
      OneLine (e.forRequest request).line ↔ ∀ mark ∈ request, OneLine mark := fun e he =>
    ((hall e he).1.oneLine_forRequest request).trans (and_iff_left (hall e he).2)
  rw [List.forall_mem_map, forall₂_congr hline]
  exact ⟨fun h => h _ (List.mem_append_right _ List.mem_cons_self), fun h _ _ => h⟩

theorem oneLine_refusedEvent_iff {n k : Nat} :
    OneLine ((refusedEvent (.tooManyRequests n k)).forRequest request).line ↔ ∀ mark ∈ request, OneLine mark := by
  have hmessage : OneLine (BatchError.tooManyRequests n k).message := by
    unfold BatchError.message
    simp only [oneLine_append, oneLine_toString, oneLine_nat, and_true]
    decide
  have hfailure := Log.Event.oneLine_failure (by decide : OneLine Log.Code.batchTooLarge.text) hmessage none
    Log.Context.isOneLine_nil
  exact (hfailure.1.oneLine_forRequest request).trans (and_iff_left hfailure.2)

/-- The lines of the events that a batch adds to those of `memory`. -/
theorem oneLine_evaluateWith (elapsed : Nat) (requests : List Request) (request : Option String)
    (hfinish : Interleaving c.threads finish) (hm : memory.Sound) :
    ∃ events, (evaluateWith finish c elapsed requests request memory).2.2.events = memory.events ++ events ∧
      ((∀ e ∈ events, OneLine e.line) ↔ (∀ mark ∈ request, OneLine mark) ∧
        ∀ results, (evaluateWith finish c elapsed requests request memory).1 = .ok results →
          ∀ o ∈ results.outcomes, ShownOnOneLine o) := by
  by_cases hsize : requests.length ≤ Limits.requests
  · -- The batch is taken up: its own events bring in nothing but the mark, and all others come from the outcomes.
    have hserves : memory.Serves true := ⟨hm, nofun⟩
    obtain ⟨results, body, hresults, houtcomes, -, hbody, hlog⟩ :=
      events_evaluateWith elapsed request hfinish hserves hsize
    refine ⟨_, hlog.trans (List.append_assoc _ _ _), ?_⟩
    rw [List.forall_mem_append, oneLine_ownEvents_iff, hbody.oneLine_iff, hresults, and_comm]
    refine and_congr_right' ?_
    constructor
    · rintro hall _ ⟨⟩ o ho
      rw [houtcomes] at ho
      obtain ⟨y, hy, rfl⟩ := List.mem_map.1 ho
      exact hall y hy
    · intro hall y hy
      exact hall results rfl _ (houtcomes ▸ List.mem_map_of_mem hy)
  · -- The batch is refused as a whole, in a single event and without outcomes.
    rw [evaluateWith, if_pos (Nat.lt_of_not_le hsize)]
    refine ⟨_, Memory.events_log memory _, ?_⟩
    rw [List.forall_mem_singleton, oneLine_refusedEvent_iff]
    refine (and_iff_left fun results hresults => ?_).symm
    cases hresults

/-- **Lines.** Every event is shown on one line, `OneLine e.line`, exactly under these conditions:
* for an evaluation, if neither the mark nor what a failure quotes of the parameter string has a line break,
  `Pipeline.ReadsOneLine`. A parameter string without line breaks is enough for the latter; the expression does not
  matter;
* for a batch, in whatever order its workers come to the requests, if neither the mark of the caller nor any outcome
  has one, in its name or its result. Names and parameter strings of requests without line breaks are enough for
  that. -/
theorem oneLine_events (finish : Pool → Pool) (c : Config) (elapsed : Nat) (requests : List Request)
    (request : Option String) (memory : Memory) (hfinish : Interleaving c.threads finish) (hm : memory.Sound) :
    (∀ (p : Preferences) (expression values : String),
      let done := (Pipeline.evaluate p elapsed expression values).run request memory
      ∃ events, done.2.2.events = memory.events ++ events ∧
        ((∀ e ∈ events, OneLine e.line) ↔ (∀ mark ∈ request, OneLine mark) ∧ Pipeline.ReadsOneLine done.1) ∧
        (OneLine values → Pipeline.ReadsOneLine done.1)) ∧
    (let done := evaluateWith finish c elapsed requests request memory
      ∃ events, done.2.2.events = memory.events ++ events ∧
        ((∀ e ∈ events, OneLine e.line) ↔ (∀ mark ∈ request, OneLine mark) ∧
          ∀ results, done.1 = .ok results → ∀ o ∈ results.outcomes, OneLine o.name ∧ Pipeline.ReadsOneLine o.result) ∧
        ∀ results, done.1 = .ok results → ∀ o ∈ results.outcomes, ∃ r, requests[o.index]? = some r ∧
          ((∀ id ∈ r.id, OneLine id) → OneLine o.name) ∧ (OneLine r.values → Pipeline.ReadsOneLine o.result)) := by
  constructor
  · intro p expression values done
    obtain ⟨events, hevents, hlines⟩ := Pipeline.oneLine_evaluate hm request p elapsed expression values
    refine ⟨events, hevents, hlines, fun hvalues => ?_⟩
    show Pipeline.ReadsOneLine ((Pipeline.evaluate p elapsed expression values).run request memory).1
    rw [Pipeline.run_evaluate_fst hm]
    exact Pipeline.readsOneLine_of_oneLine p expression hvalues
  · intro done
    obtain ⟨events, hevents, hlines⟩ := oneLine_evaluateWith elapsed requests request hfinish hm
    refine ⟨events, hevents, hlines, fun results hresults o ho => ?_⟩
    -- A batch with too many requests has no results, and nothing is to be said about outcomes.
    by_cases hsize : requests.length ≤ Limits.requests
    · obtain ⟨_, hdone, houtcomes⟩ := outcomes_evaluateWith elapsed request hfinish hm hsize
      obtain rfl := Except.ok.inj (hdone.symm.trans hresults)
      rw [houtcomes] at ho
      obtain ⟨y, hy, rfl⟩ := List.mem_map.1 ho
      obtain ⟨k, hk⟩ := exists_seen_eq_take c requests
      rw [hk] at hy
      refine ⟨y.2, getElem?_of_mem_indexed (List.mem_of_mem_take hy), oneLine_name, fun hvalues => ?_⟩
      show Pipeline.ReadsOneLine (y.2.alone c.preferences)
      rw [y.2.alone_eq]
      exact Pipeline.readsOneLine_of_oneLine _ _ hvalues
    · replace hresults : (evaluateWith finish c elapsed requests request memory).1 = .ok results := hresults
      rw [evaluateWith, if_pos (Nat.lt_of_not_le hsize)] at hresults
      cases hresults

/-- Two requests whose expressions go over several lines; the second cannot be read for its `$`. -/
def severalLines : List Request :=
  [{ id := some "7", expression := "a\nOR b", values := "a=true,b=false" }, { expression := "a\r\nOR $" }]

/-- Two workers report the events of `severalLines` on one line each. -/
theorem oneLine_events_severalLines :
    Interleaving (Config.threads { maxThreads := 2 }) Pool.inTurn ∧ (Pipeline.ownMemory .strict).Sound ∧
    ∀ e ∈ (evaluateWith Pool.inTurn { maxThreads := 2 } 0 severalLines none (Pipeline.ownMemory .strict)).2.2.events,
      OneLine e.line := by
  have hfinish := interleaving_inTurn (Config.threads { maxThreads := 2 })
  have hm := Pipeline.sound_ownMemory .strict
  obtain ⟨-, events, hevents, hlines, hroutes⟩ :=
    oneLine_events Pool.inTurn { maxThreads := 2 } 0 severalLines none (Pipeline.ownMemory .strict) hfinish hm
  refine ⟨hfinish, hm, ?_⟩
  rw [hevents]
  refine hlines.2 ⟨nofun, fun results hresults o ho => ?_⟩
  obtain ⟨r, hr, hname, hvalues⟩ := hroutes results hresults o ho
  have hall : ∀ r ∈ severalLines, (∀ id ∈ r.id, OneLine id) ∧ OneLine r.values := by decide
  obtain ⟨hid, hline⟩ := hall r (List.mem_of_getElem? hr)
  exact ⟨hname hid, hvalues hline⟩

/-- A pair `a=x` whose value is none, with what looks like an event behind it on a line of its own. -/
def forgedEvent : String := "a=x\n[INFO] I080 - forged"

/-- The value in `forgedEvent` is quoted as a whole. -/
theorem answerOf_forgedEvent : Pipeline.answerOf .strict "true" forgedEvent =
    .error (.binding (.invalidBoolean "a" "x\n[INFO] I080 - forged")) := by
  rw [Pipeline.answerOf, Pipeline.treeOf_true]
  rfl

/-- A request with a line break in its `id`. -/
def twoLineName : List Request := [{ id := some "7\n8", expression := "true" }]

/-- **Two ways for a line break.** It comes into the events of an evaluation from a parameter string that cannot be
read, like `forgedEvent`, and into those of a batch from the name of a request, as in `twoLineName`. -/
theorem not_oneLine_forgedEvent :
    (∃ e ∈ ((Pipeline.evaluate .strict 0 "true" forgedEvent).run none (Pipeline.ownMemory .strict)).2.2.events,
      ¬OneLine e.line) ∧
    ∃ e ∈ (evaluateWith Pool.inTurn { maxThreads := 1 } 0 twoLineName none (Pipeline.ownMemory .strict)).2.2.events,
      ¬OneLine e.line := by
  have hm := Pipeline.sound_ownMemory .strict
  have hbroken {before events : List Log.Event} (h : ¬∀ e ∈ events, OneLine e.line) :
      ∃ e ∈ before ++ events, ¬OneLine e.line := by
    push Not at h
    obtain ⟨e, he, hline⟩ := h
    exact ⟨e, List.mem_append_right before he, hline⟩
  constructor
  · obtain ⟨events, hevents, hlines⟩ := Pipeline.oneLine_evaluate hm none .strict 0 "true" forgedEvent
    rw [Pipeline.run_evaluate_fst hm, answerOf_forgedEvent] at hlines
    rw [hevents]
    refine hbroken (mt hlines.1 fun h => absurd (h.2 _ rfl) ?_)
    decide +kernel
  · have hfinish := interleaving_inTurn (Config.threads { maxThreads := 1 })
    have hsize : twoLineName.length ≤ Limits.requests := by decide
    obtain ⟨events, hevents, hlines⟩ := oneLine_evaluateWith 0 twoLineName none hfinish hm
    obtain ⟨results, hresults, houtcomes⟩ := outcomes_evaluateWith (c := { maxThreads := 1 }) 0 none hfinish hm hsize
    have hname : outcomeOf .strict (0, { id := some "7\n8", expression := "true" }) ∈ results.outcomes := by
      rw [houtcomes, seen, if_pos (.inl rfl)]
      show _ ∈ (upTo false (fails .strict) [(0, _)]).map _
      rw [upTo_cons, upTo_nil, ite_self]
      exact List.mem_singleton.2 rfl
    rw [hevents]
    refine hbroken (mt hlines.1 fun h => absurd (h.2 results hresults _ hname).1 ?_)
    exact (by decide : ¬OneLine "7\n8")

end Batch

end BoolCalc
