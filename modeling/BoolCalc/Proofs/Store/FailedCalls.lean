import BoolCalc.Log.Process
import BoolCalc.Proofs.Pipeline.Milestones
import BoolCalc.Proofs.Store.Definitions
import BoolCalc.Proofs.Store.Recording

namespace BoolCalc

/-!
# What failed calls report

* `LogState.take`, `LogState.perform_evaluate` : an event reaches a sink, and all events of an evaluation do at the
  level for debugging;
* `LogState.perform_debug` : what reaches the sink is a `Chronicle` of the result;
* `Store.Preceding` : the events of the evaluator in a call of the service that fails;
* `Store.Call.Fails`, `Store.Call.Yields` : what a step logs when it fails, and when it does not;
* `Store.Call.Fails.bind` : one step after another;
* `Store.Call.answer_perform` : what a step logs that runs the evaluator;
* `Store.Errand.fails_call` : every call of the service;
* `Store.chronicles_of_calls` : **chronicles**, the events of an evaluation at the level for debugging, and those of a
  call of the service that fails;
* `Store.storedConjunction` : a service in which one expression is stored, to execute it without one of its variables.
-/

/-! ### A sink for all events -/

namespace LogState

variable {s : LogState} {v : Log.Service} {timestamp : Nat}

/-- `e` reaches the sink of the service `v`. -/
def take (v : Log.Service) (timestamp : Nat) (s : LogState) (e : Log.Event) : LogState :=
  { s with
    console := s.console ++ v.sink.print timestamp e
    buffer := if v.sink = .buffer then s.buffer.push e else s.buffer }

/-- With `.debug` as its least level, a service lets every event through. -/
theorem deliver_debug (hservice : s.service = some v) (hlevel : v.minLevel = .debug) (e : Log.Event) :
    s.deliver timestamp e = s.take v timestamp e := by
  have haccepts : v.accepts e = true := by
    rw [Log.Service.accepts, hlevel]
    cases e.level <;> rfl
  rw [deliver, hservice]
  exact if_pos haccepts

/-- The same for all `events` of a piece of work, in their order. -/
theorem foldl_deliver_debug (hservice : s.service = some v) (hlevel : v.minLevel = .debug) (events : List Log.Event) :
    events.foldl (·.deliver timestamp) s = events.foldl (take v timestamp) s := by
  induction events generalizing s with
  | nil => rfl
  | cons e events ih =>
    rw [List.foldl_cons, List.foldl_cons, deliver_debug hservice hlevel]
    exact ih (s := s.take v timestamp e) hservice

/-- A service with the sink `.buffer` pushes all `events` into the buffer. -/
theorem buffer_foldl_take (hsink : v.sink = .buffer) (events : List Log.Event) :
    (events.foldl (take v timestamp) s).buffer = s.buffer.pushAll events := by
  induction events generalizing s with
  | nil => rfl
  | cons e events ih =>
    rw [List.foldl_cons, ih, take, if_pos hsink]
    rfl

/-- An evaluation with a service for debugging comes to the value of `Pipeline.told`, and all events of `Pipeline.told`
reach the sink with the mark `s.request`. -/
theorem perform_evaluate (hservice : s.service = some v) (hlevel : v.minLevel = .debug) (timestamp : Nat)
    (p : Preferences) (elapsed : Nat) (expression values : String) (m : Memory) :
    let x := Pipeline.told p elapsed expression values (Pipeline.found? m p expression)
    s.perform timestamp (Pipeline.evaluate p elapsed expression values) { m with logged := [] } =
      (x.value, (x.events.map (·.forRequest s.request)).foldl (take v timestamp) s) := by
  obtain ⟨m', hrun, hlogged⟩ := Pipeline.tells_evaluate s.request { m with logged := [] } p elapsed expression values
  have hevents : m'.events = (Pipeline.told p elapsed expression values
      (Pipeline.found? { m with logged := [] } p expression)).events.map (·.forRequest s.request) := by
    rw [Memory.events, hlogged, List.append_nil, List.reverse_reverse]
  intro x
  unfold perform
  rw [hrun]
  exact Prod.ext rfl ((foldl_deliver_debug hservice hlevel _).trans (by rw [hevents]; rfl))

/-- **An evaluation with a service for debugging.** What reaches the sink is a `Chronicle` of the result. -/
theorem perform_debug (sink : Log.Sink) (s : LogState) (timestamp : Nat) (p : Preferences) (elapsed : Nat)
    (expression values : String) (m : Memory) :
    ∃ events, Chronicle (Pipeline.milestones (m.find? (Pipeline.keyOf p expression)).isSome)
        (({ s with service := some ⟨sink, .debug⟩ } : LogState).perform timestamp
          (Pipeline.evaluate p elapsed expression values) { m with logged := [] }).1 events ∧
      (({ s with service := some ⟨sink, .debug⟩ } : LogState).perform timestamp
          (Pipeline.evaluate p elapsed expression values) { m with logged := [] }).2 =
        events.foldl (take ⟨sink, .debug⟩ timestamp) { s with service := some ⟨sink, .debug⟩ } := by
  have hchronicle := (Pipeline.chronicle_told p elapsed expression values
    (Pipeline.found? m p expression)).forRequest s.request
  rw [Pipeline.found?, Option.isSome_map] at hchronicle
  rw [perform_evaluate rfl rfl]
  exact ⟨_, hchronicle, rfl⟩

end LogState

namespace Store

open Pipeline

/-! ### Steps of a call -/

/-- The events of the evaluator in a call that fails with the given error. If the expression is at fault
(`.rejected`), they are those of the compilation or the evaluation that fails. Otherwise there are none, or those of
a compilation before the failure. -/
inductive Preceding : ServiceError → List Log.Event → Prop where
  | nothing {e : ServiceError} (he : ∀ err, e ≠ .rejected err) : Preceding e []
  | compiled {e : ServiceError} {inCache : Bool} {object : TreeObject} {events : List Log.Event}
      (he : ∀ err, e ≠ .rejected err) (h : Chronicle (treeMilestones inCache) (.ok object) events) :
      Preceding e events
  | notCompiled {err : PipelineError} {inCache : Bool} {events : List Log.Event}
      (h : Chronicle (α := TreeObject) (treeMilestones inCache) (.error err) events) :
      Preceding (.rejected err) events
  | notEvaluated {err : PipelineError} {inCache : Bool} {events : List Log.Event}
      (h : Chronicle (α := Response) (milestones inCache) (.error err) events) :
      Preceding (.rejected err) events

variable {ρ α β : Type} {before : List Log.Event} {Q : List Log.Event → Prop}

namespace Call

/-- If the step `c` fails, it logs some events of the evaluator and then one error with the code of the failure.
With the events `before`, which the call has logged before the step, they are `Preceding` the failure. -/
def Fails (c : Call ρ α) (before : List Log.Event) : Prop :=
  ∀ (s t : Service ρ) (e : ServiceError), c.answer s = (.error (.failed e), t) →
    ∃ events last, t.log = s.log ++ (events ++ [last]).map Log.Entry.event ∧ IsFailure e.code last ∧
      Preceding e (before ++ events)

/-- If the step `c` does not fail, it logs some events for which `Q` holds. -/
def Yields (c : Call ρ α) (Q : List Log.Event → Prop) : Prop :=
  ∀ (s t : Service ρ) (a : α), c.answer s = (.ok a, t) →
    ∃ events, t.log = s.log ++ events.map Log.Entry.event ∧ Q events

/-- `c >>= f`, if `Q` holds of the events of `c` and the step behind them `Fails` as it should. -/
theorem Fails.bind {c : Call ρ α} {f : α → Call ρ β} (h : Fails c before) (hyields : Yields c Q)
    (hf : ∀ a events, Q events → Fails (f a) (before ++ events)) : Fails (c >>= f) before := by
  intro s t e hanswer
  rw [answer_bind] at hanswer
  rcases hfirst : c.answer s with ⟨x, u⟩
  rw [hfirst] at hanswer
  cases x with
  | error stop =>
    cases hanswer
    exact h s _ e hfirst
  | ok a =>
    -- What the first step has logged comes before what the second one logs.
    obtain ⟨events, hlog, hevents⟩ := hyields s u a hfirst
    obtain ⟨events', last, hlog', hlast, hpreceding⟩ := hf a events hevents u t e hanswer
    refine ⟨events ++ events', last, ?_, hlast, ?_⟩
    · rw [hlog', hlog, List.append_assoc, ← List.map_append, List.append_assoc]
    · rw [← List.append_assoc]
      exact hpreceding

theorem Yields.bind {c : Call ρ α} {f : α → Call ρ β} {R : List Log.Event → Prop} (h : Yields c Q)
    (hf : ∀ a events, Q events → Yields (f a) fun events' => R (events ++ events')) : Yields (c >>= f) R := by
  intro s t b hanswer
  rw [answer_bind] at hanswer
  rcases hfirst : c.answer s with ⟨x, u⟩
  rw [hfirst] at hanswer
  cases x with
  | error stop => cases hanswer
  | ok a =>
    obtain ⟨events, hlog, hevents⟩ := h s u a hfirst
    obtain ⟨events', hlog', hboth⟩ := hf a events hevents u t b hanswer
    refine ⟨events ++ events', ?_, hboth⟩
    rw [hlog', hlog, List.append_assoc, ← List.map_append]

/-- The same for a step `c` that logs no event of the evaluator. -/
theorem Fails.bind_nil {c : Call ρ α} {f : α → Call ρ β} (h : Fails c before) (hyields : Yields c (· = []))
    (hf : ∀ a, Fails (f a) before) : Fails (c >>= f) before := by
  refine h.bind hyields fun a events hevents => ?_
  rw [hevents, List.append_nil]
  exact hf a

theorem fails_of_ok {c : Call ρ α} (h : ∀ s, ∃ a t, c.answer s = (.ok a, t)) : Fails c before := by
  intro s t e hanswer
  obtain ⟨a, u, hok⟩ := h s
  cases hok.symm.trans hanswer

/-- The same for a step `c` behind which nothing fails. -/
theorem Fails.bind_ok {c : Call ρ α} {f : α → Call ρ β} (h : Fails c before)
    (hf : ∀ a s, ∃ b t, (f a).answer s = (.ok b, t)) : Fails (c >>= f) before := by
  intro s t e hanswer
  rw [answer_bind] at hanswer
  rcases hfirst : c.answer s with ⟨x, u⟩
  rw [hfirst] at hanswer
  cases x with
  | error stop =>
    cases hanswer
    exact h s _ e hfirst
  | ok a =>
    obtain ⟨b, v, hok⟩ := hf a u
    cases hok.symm.trans hanswer

theorem yields_pure (a : α) : Yields (pure a : Call ρ α) (· = []) := by
  intro s t b hanswer
  cases hanswer
  exact ⟨[], (List.append_nil _).symm, rfl⟩

/-- `fail e` logs one error with `e.code`. -/
theorem fails_fail {e : ServiceError} (h : Preceding e before) : Fails (fail e : Call ρ α) before := by
  intro s t e' hanswer
  cases hanswer
  refine ⟨[], e.event, ?_, isFailure_failure _ _ _ _, ?_⟩
  · rw [Service.log, Service.log]
    exact List.reverse_cons
  · rw [List.append_nil]
    exact h

theorem yields_fail (e : ServiceError) : Yields (fail e : Call ρ α) Q := by
  intro s t a hanswer
  cases hanswer

theorem fails_parseId (raw : String) : Fails (ρ := ρ) (parseId raw) [] := by
  unfold parseId
  split
  · exact fails_of_ok fun s => ⟨_, s, rfl⟩
  · exact fails_fail (.nothing nofun)

theorem yields_parseId (raw : String) : Yields (ρ := ρ) (parseId raw) (· = []) := by
  unfold parseId
  split
  · exact yields_pure _
  · exact yields_fail _

/-- `ask` has the answer of the store, and logs its failure. -/
theorem answer_ask (question : ρ → Reply α × ρ) (s : Service ρ) :
    (ask question).answer s =
      match question s.repository with
      | (.ok a, r) => (.ok a, { s with repository := r })
      | (.error (.failed e), r) => (fail (.store e)).answer { s with repository := r }
      | (.error .overflow, r) => (.error .overflow, { s with repository := r }) := by
  have hget : (get : Call ρ (Service ρ)).answer s = (.ok s, s) := rfl
  unfold ask
  rw [answer_bind, hget]
  dsimp only
  rcases question s.repository with ⟨reply, r⟩
  match reply with
  | .ok a => rfl
  | .error (.failed e) => rfl
  | .error .overflow => rfl

theorem fails_ask (question : ρ → Reply α × ρ) (h : ∀ e, Preceding (.store e) before) :
    Fails (ask question) before := by
  intro s t e hanswer
  rw [answer_ask] at hanswer
  rcases hreply : question s.repository with ⟨reply, r⟩
  rw [hreply] at hanswer
  cases reply with
  | ok a => cases hanswer
  | error stop =>
    cases stop with
    | failed e' => exact fails_fail (h e') { s with repository := r } t e hanswer
    | overflow => cases hanswer

theorem yields_ask (question : ρ → Reply α × ρ) : Yields (ask question) (· = []) := by
  intro s t a hanswer
  rw [answer_ask] at hanswer
  rcases hreply : question s.repository with ⟨reply, r⟩
  rw [hreply] at hanswer
  cases reply with
  | ok a =>
    cases hanswer
    exact ⟨[], (List.append_nil _).symm, rfl⟩
  | error stop => cases stop <;> cases hanswer

/-- `perform` of `work` that tells `x`: the events of `x` are logged, and then, if `x` failed, the error of the
call. -/
theorem answer_perform {work : Preferences → Nat → Work (Except PipelineError α)} {s : Service ρ}
    {x : Log.Logged (Except PipelineError α)}
    (h : Work.Tells none { s.memory with logged := [] } (work s.preferences s.elapsed) x) :
    ∃ t : Service ρ, t.log = s.log ++ x.events.map Log.Entry.event ∧
      (perform work).answer s =
        match x.value with
        | .ok a => (.ok a, t)
        | .error e => (fail (.rejected e)).answer t := by
  have hget : (get : Call ρ (Service ρ)).answer s = (.ok s, s) := rfl
  obtain ⟨m', hrun, hlogged⟩ := h
  refine ⟨{ s with memory := { m' with logged := [] }, logged := m'.logged.map Log.Entry.event ++ s.logged }, ?_, ?_⟩
  · have hunmarked : x.events.map (·.forRequest none) = x.events := List.map_id _
    rw [hunmarked, List.append_nil] at hlogged
    rw [Service.log, Service.log, List.reverse_append, hlogged, List.map_reverse, List.reverse_reverse]
  · unfold perform
    rw [answer_bind, hget]
    dsimp only
    rw [hrun]
    cases x.value <;> rfl

/-- The case of `answer_perform` in which `x` failed. -/
theorem answer_perform_error (work : Preferences → Nat → Work (Except PipelineError α)) {s : Service ρ}
    {x : Log.Logged (Except PipelineError α)} {err : PipelineError}
    (h : Work.Tells none { s.memory with logged := [] } (work s.preferences s.elapsed) x)
    (hvalue : x.value = .error err) :
    ∃ t : Service ρ, (perform work).answer s = (.error (.failed (.rejected err)), t) ∧
      t.log = s.log ++ (x.events ++ [(ServiceError.rejected err).event]).map Log.Entry.event := by
  obtain ⟨u, hlog, hperform⟩ := answer_perform h
  rw [hvalue] at hperform
  refine ⟨_, hperform, ?_⟩
  show (_ :: u.logged).reverse = _
  rw [List.reverse_cons, List.map_append, ← List.append_assoc, ← hlog]
  rfl

theorem fails_perform {work : Preferences → Nat → Work (Except PipelineError α)}
    (h : ∀ p elapsed m, ∃ x : Log.Logged (Except PipelineError α), Work.Tells none m (work p elapsed) x ∧
      ∀ e, x.value = .error e → Preceding (.rejected e) x.events) : Fails (ρ := ρ) (perform work) [] := by
  intro s t e hanswer
  obtain ⟨x, htells, hx⟩ := h s.preferences s.elapsed { s.memory with logged := [] }
  cases hvalue : x.value with
  | ok a =>
    obtain ⟨u, -, hperform⟩ := answer_perform htells
    rw [hperform, hvalue] at hanswer
    cases hanswer
  | error err =>
    obtain ⟨u, hperform, hlog⟩ := answer_perform_error work htells hvalue
    rw [hperform] at hanswer
    cases hanswer
    exact ⟨x.events, _, hlog, isFailure_failure _ _ _ _, hx err hvalue⟩

theorem yields_perform {work : Preferences → Nat → Work (Except PipelineError α)}
    (h : ∀ p elapsed m, ∃ x : Log.Logged (Except PipelineError α), Work.Tells none m (work p elapsed) x ∧
      ∀ a, x.value = .ok a → Q x.events) : Yields (ρ := ρ) (perform work) Q := by
  intro s t a hanswer
  obtain ⟨x, htells, hx⟩ := h s.preferences s.elapsed { s.memory with logged := [] }
  obtain ⟨u, hlog, hperform⟩ := answer_perform htells
  rw [hperform] at hanswer
  cases hvalue : x.value with
  | ok a' =>
    rw [hvalue] at hanswer
    cases hanswer
    exact ⟨x.events, hlog, hx a hvalue⟩
  | error err =>
    rw [hvalue] at hanswer
    cases hanswer

theorem fails_evaluate (definition values : String) : Fails (ρ := ρ) (Service.evaluate definition values) [] := by
  refine fails_perform fun p elapsed m => ⟨_, tells_evaluate none m p elapsed definition values, fun e he => ?_⟩
  have hchronicle := chronicle_told p elapsed definition values (found? m p definition)
  rw [he] at hchronicle
  exact .notEvaluated hchronicle

theorem fails_validate (definition : String) : Fails (ρ := ρ) (validate definition) [] := by
  unfold validate
  split
  · exact fails_fail (.nothing nofun)
  · refine (fails_perform fun p _ m => ?_).bind_ok fun _ s => ⟨_, s, rfl⟩
    obtain ⟨x, htells, hchronicle⟩ := exists_chronicle_compile none m p definition
    refine ⟨x, htells, fun e he => ?_⟩
    rw [he] at hchronicle
    exact .notCompiled hchronicle

/-- Behind `validate` the store may fail, which is no fault of the definition. -/
theorem yields_validate (definition : String) :
    Yields (ρ := ρ) (validate definition) fun events => ∀ e, Preceding (.store e) events := by
  unfold validate
  split
  · exact yields_fail _
  · refine Yields.bind (yields_perform fun p _ m => ?_) (Q := fun events => ∀ e, Preceding (.store e) events)
      fun a events hevents => ?_
    · obtain ⟨x, htells, hchronicle⟩ := exists_chronicle_compile none m p definition
      refine ⟨x, htells, fun a ha e => ?_⟩
      rw [ha] at hchronicle
      exact .compiled nofun hchronicle
    · intro s t b hanswer
      cases hanswer
      refine ⟨[], (List.append_nil _).symm, ?_⟩
      show ∀ e, Preceding (.store e) (events ++ [])
      rwa [List.append_nil]

end Call

/-! ### Calls of the service -/

/-- **Every call of the service** that fails logs one error of its own, as its last event: `errand.call` has
`Fails`. -/
theorem Errand.fails_call [Repository ρ] (errand : Errand) : Call.Fails (ρ := ρ) errand.call [] := by
  have hnothing (e : StoreError) : Preceding (.store e) [] := .nothing nofun
  -- A call is a row of steps. Only `validate` and `evaluate` log events of the evaluator; behind `validate` the
  -- store may still fail.
  cases errand with
  | evaluate definition values => exact (Call.fails_evaluate definition values).bind_ok fun _ _ => ⟨_, _, rfl⟩
  | about request =>
    show Call.Fails request.call []
    unfold Request.call
    cases request with
    | list =>
      simp only [Service.list, bind_assoc, pure_bind]
      exact (Call.fails_ask _ hnothing).bind_ok fun _ _ => ⟨_, _, rfl⟩
    | create definition =>
      simp only [Service.create, bind_assoc, pure_bind]
      refine (Call.fails_validate definition).bind (Call.yields_validate definition) fun _ events hevents => ?_
      exact (Call.fails_ask _ hevents).bind_ok fun _ _ => ⟨_, _, rfl⟩
    | save rawId definition =>
      simp only [Service.save, bind_assoc, pure_bind]
      refine (Call.fails_parseId rawId).bind_nil (Call.yields_parseId rawId) fun id => ?_
      refine (Call.fails_validate definition).bind (Call.yields_validate definition) fun _ events hevents => ?_
      exact (Call.fails_ask _ hevents).bind_ok fun _ _ => ⟨_, _, rfl⟩
    | delete rawId =>
      simp only [Service.delete, bind_assoc]
      refine (Call.fails_parseId rawId).bind_nil (Call.yields_parseId rawId) fun id => ?_
      exact (Call.fails_ask _ hnothing).bind_ok fun _ _ => ⟨_, _, rfl⟩
    | execute rawId values =>
      simp only [Service.execute, bind_assoc, pure_bind]
      refine (Call.fails_parseId rawId).bind_nil (Call.yields_parseId rawId) fun id => ?_
      refine (Call.fails_ask _ hnothing).bind_nil (Call.yields_ask _) fun e => ?_
      exact (Call.fails_evaluate e.definition values).bind_ok fun _ _ => ⟨_, _, rfl⟩

/-- **Chronicles.** The events of an evaluation, and of a call about stored expressions:
* With a service at the level `.debug`, what reaches the sink of an evaluation is a `Chronicle` of its result: all
  `milestones` if there is an answer, else those before the one it has not reached and one error with the code of
  the failure. This is so whatever the expression, the parameter string, the preferences and the cache are.
* A call that fails with `e` logs `events` that are `Preceding e`, and then one more error with `e.code`, its last
  event. -/
theorem chronicles_of_calls :
    (∀ (sink : Log.Sink) (s : LogState) (timestamp : Nat) (p : Preferences) (elapsed : Nat)
      (expression values : String) (m : Memory),
      let s : LogState := { s with service := some ⟨sink, .debug⟩ }
      let done := s.perform timestamp (Pipeline.evaluate p elapsed expression values) { m with logged := [] }
      ∃ events, Chronicle (milestones (m.find? (keyOf p expression)).isSome) done.1 events ∧
        done.2 = events.foldl (LogState.take ⟨sink, .debug⟩ timestamp) s) ∧
    ∀ (ρ : Type) [Repository ρ] (errand : Errand) (s t : Service ρ) (e : ServiceError),
      errand.call.answer s = (.error (.failed e), t) →
      ∃ events last, t.log = s.log ++ (events ++ [last]).map Log.Entry.event ∧ IsFailure e.code last ∧
        Preceding e events :=
  ⟨LogState.perform_debug, fun _ _ errand => errand.fails_call⟩

/-- A service over a store that has `a and b` under every id. -/
def storedConjunction : Service Scripted := { repository := { found := some ⟨.one, "a and b"⟩ } }

/-- `a and b` has a tree, but with `a=1` the variable `b` is unbound: three stages of reading, one of binding, and
the error. -/
theorem told_unboundVariable (elapsed : Nat) :
    let x := told .strict elapsed "a and b" "a=1" none
    x.value = .error (.evaluation (.unboundVariable "b")) ∧ x.events.map Log.Event.code =
      [.normalizationComplete, .tokenizationComplete, .parseComplete, .bindingComplete, .unboundVariable] := by
  have hcompiled : compileExpression "a and b" = .ok Service.bothDerivation.value :=
    compileExpression_of_scan (q := ⟨7, 1, 8⟩) (by decide +kernel) (by decide +kernel) (by decide) (by decide)
  have htree : (toldTree .strict "a and b" none).value = .ok Service.bothDerivation.value := by
    rw [compileExpression_eq_treeOf] at hcompiled
    rw [toldTree_eq rfl]
    exact (toldReading_value _ _).trans hcompiled
  refine ⟨?_, ?_⟩
  · rw [told, Log.Logged.andThen_value, htree]
    rfl
  · rw [map_code_told htree]
    rfl

/-- `execute` of the stored `a and b` with `a=1` logs the events of the evaluation, and the error of the call. -/
theorem answer_storedConjunction : ∃ t : Service Scripted,
    (Errand.about (.execute "1" "a=1")).call.answer storedConjunction =
      (.error (.failed (.rejected (.evaluation (.unboundVariable "b")))), t) ∧
    t.log = ((told .strict 0 "a and b" "a=1" none).events ++
      [(ServiceError.rejected (.evaluation (.unboundVariable "b"))).event]).map Log.Entry.event := by
  let s : Service Scripted :=
    { storedConjunction with repository := (Repository.get .one storedConjunction.repository).2 }
  obtain ⟨t, hevaluate, hlog⟩ := Call.answer_perform_error (s := s)
    (fun p elapsed => Pipeline.evaluate p elapsed "a and b" "a=1")
    (tells_evaluate none { s.memory with logged := [] } .strict 0 "a and b" "a=1") (told_unboundVariable 0).1
  have hid : (Call.parseId "1").answer storedConjunction = (.ok .one, storedConjunction) := by
    rw [Call.parseId, show Id.parse? "1" = some .one by decide]
    rfl
  have hask : (Call.ask (Repository.get .one)).answer storedConjunction = (.ok ⟨.one, "a and b"⟩, s) := rfl
  refine ⟨t, ?_, hlog⟩
  simp only [Errand.call, Request.call, Service.execute, Service.evaluate, bind_assoc, Call.answer_bind, hid, hask,
    hevaluate]

/-- With `a=1`, an evaluation of `a and b` reaches four milestones and leaves five events in a buffer. The call that
executes it as a stored expression logs six, the last one with the code of the call. -/
theorem chronicles_of_calls_unboundVariable :
    let err : PipelineError := .evaluation (.unboundVariable "b")
    let codes : List Log.Code :=
      [.normalizationComplete, .tokenizationComplete, .parseComplete, .bindingComplete, .unboundVariable]
    let done := ({ service := some ⟨.buffer, .debug⟩ } : LogState).perform 0
      (Pipeline.evaluate .strict 7 "a and b" "a=1") {}
    (done.1 = .error err ∧ Chronicle (milestones false) done.1 done.2.buffer.toList ∧
      done.2.buffer.toList.map Log.Event.code = codes) ∧
    ∃ (t : Service Scripted) (events : List Log.Event) (last : Log.Event),
      (Errand.about (.execute "1" "a=1")).call.answer storedConjunction = (.error (.failed (.rejected err)), t) ∧
      t.log = (events ++ [last]).map Log.Entry.event ∧ IsFailure .evaluationRejected last ∧
      Preceding (.rejected err) events ∧
      (events ++ [last]).map Log.Event.code = codes ++ [.evaluationRejected] := by
  intro err codes done
  constructor
  · obtain ⟨events, hchronicle, hdone⟩ := chronicles_of_calls.1 .buffer {} 0 .strict 7 "a and b" "a=1" {}
    let s : LogState := { service := some ⟨.buffer, .debug⟩ }
    let x := told .strict 7 "a and b" "a=1" none
    have hperform : done = (x.value, x.events.foldl (LogState.take ⟨.buffer, .debug⟩ 0) s) := by
      rw [← List.map_id x.events]
      exact LogState.perform_evaluate rfl rfl 0 .strict 7 "a and b" "a=1" {}
    -- Both the events of the chronicle and those of `told` are what is in the buffer.
    have hbuffer {kept : List Log.Event} (hkept : kept.length ≤ 6)
        (h : done.2 = kept.foldl (LogState.take ⟨.buffer, .debug⟩ 0) s) : done.2.buffer.toList = kept := by
      rw [h, LogState.buffer_foldl_take rfl]
      exact Log.Buffer.toList_pushAll (hkept.trans (by decide))
    have hkept := hbuffer hchronicle.length_le hdone
    have htold := hbuffer (chronicle_told .strict 7 "a and b" "a=1" none).length_le (congrArg Prod.snd hperform)
    obtain ⟨hvalue, hcodes⟩ := told_unboundVariable 7
    exact ⟨hperform ▸ hvalue, hkept ▸ hchronicle, htold ▸ hcodes⟩
  · obtain ⟨t, hanswer, hlog⟩ := answer_storedConjunction
    obtain ⟨events, last, hlog', hlast, hpreceding⟩ :=
      chronicles_of_calls.2 Scripted (.about (.execute "1" "a=1")) _ t _ hanswer
    refine ⟨t, events, last, hanswer, hlog', hlast, hpreceding, ?_⟩
    have hsame : (events ++ [last]).map Log.Entry.event = _ := hlog'.symm.trans hlog
    rw [List.map_injective_iff.2 (fun _ _ => Log.Entry.event.inj) hsame, List.map_append, (told_unboundVariable 0).2]
    rfl

end Store

end BoolCalc
