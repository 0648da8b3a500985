import BoolCalc.Proofs.Pipeline.Contract
import BoolCalc.Proofs.Store.History
import BoolCalc.Store.Service

namespace BoolCalc.Store

open Pipeline

/-!
# What the calls of the service come to

* `Service.Leaves` : the store that a call leaves behind; the preferences stay, and no cache is spoiled;
* `Call.Ends`, `Ends.bind`, `Ends.bind_error`, `Ends.map` : how a call ends, and one step after another;
* `ends_parseId`, `ends_validate`, `ends_ask`, `ends_evaluate` : the steps;
* `Request`, `Request.call` : any call about stored expressions, with answers of one type;
* `Request.question`, `Request.outcome`, `Request.result` : what it asks the store, what it makes of the
  answer, and both together;
* `Request.ends_call` : **requests**, the store is asked at most once, and not before the id and the
  definition have passed.
-/

variable {ρ α β : Type} {s t : Service ρ} {r : ρ}

/-- After `s` there is the service `t` with the store `r`, the same preferences, and a sound cache. -/
structure Service.Leaves (s : Service ρ) (r : ρ) (t : Service ρ) : Prop where
  repository : t.repository = r
  preferences : t.preferences = s.preferences
  sound : t.memory.Sound

namespace Call

/-- The call `c` ends with the result `out.1` and leaves the store `out.2`. -/
def Ends (c : Call ρ α) (s : Service ρ) (out : Except (Stop ServiceError) α × ρ) : Prop :=
  ∃ t, c.answer s = (out.1, t) ∧ s.Leaves out.2 t

/-! ### One step after another -/

theorem answer_bind (c : Call ρ α) (f : α → Call ρ β) (s : Service ρ) :
    (c >>= f).answer s =
      match c.answer s with
      | (.ok a, t) => (f a).answer t
      | (.error e, t) => (.error e, t) := by
  show (ExceptT.bindCont f (c.answer s).1).run (c.answer s).2 = _
  rcases c.answer s with ⟨x, t⟩
  cases x <;> rfl

/-- `c >>= f` if `c` succeeds. -/
theorem Ends.bind {c : Call ρ α} {f : α → Call ρ β} {a : α} {out : Except (Stop ServiceError) β × ρ}
    (h : Ends c s (.ok a, r)) (hf : ∀ t : Service ρ, s.Leaves r t → Ends (f a) t out) :
    Ends (c >>= f) s out := by
  obtain ⟨t, hanswer, ht⟩ := h
  obtain ⟨u, hanswer', hu⟩ := hf t ht
  refine ⟨u, ?_, hu.repository, hu.preferences.trans ht.preferences, hu.sound⟩
  rw [answer_bind, hanswer]
  exact hanswer'

/-- `c >>= f` if `c` fails. -/
theorem Ends.bind_error {c : Call ρ α} {e : Stop ServiceError} (h : Ends c s (.error e, r))
    (f : α → Call ρ β) : Ends (c >>= f) s (.error e, r) := by
  obtain ⟨t, hanswer, ht⟩ := h
  refine ⟨t, ?_, ht⟩
  rw [answer_bind, hanswer]

theorem Ends.map {c : Call ρ α} {x : Except (Stop ServiceError) α} (h : Ends c s (x, r)) (f : α → β) :
    Ends (do return f (← c)) s (x.map f, r) := by
  cases x with
  | error e => exact h.bind_error _
  | ok a => exact h.bind fun t ht => ⟨t, rfl, ht.repository, rfl, ht.sound⟩

theorem ends_pure (hs : s.memory.Sound) (a : α) : Ends (pure a : Call ρ α) s (.ok a, s.repository) :=
  ⟨s, rfl, rfl, rfl, hs⟩

theorem ends_get (hs : s.memory.Sound) : Ends get s (.ok s, s.repository) := ⟨s, rfl, rfl, rfl, hs⟩

theorem ends_set (hpreferences : t.preferences = s.preferences) (ht : t.memory.Sound) :
    Ends (set t) s (.ok ⟨⟩, t.repository) :=
  ⟨t, rfl, rfl, hpreferences, ht⟩

theorem ends_tell (hs : s.memory.Sound) (e : Log.Entry) : Ends (tell e) s (.ok (), s.repository) :=
  ⟨_, rfl, rfl, rfl, hs⟩

theorem ends_fail (hs : s.memory.Sound) (e : ServiceError) :
    Ends (fail e : Call ρ α) s (.error (.failed e), s.repository) :=
  ⟨_, rfl, rfl, rfl, hs⟩

/-- A `tell` at the end does not change the result. -/
theorem ends_tell_pure (hs : s.memory.Sound) (e : Log.Entry) (a : α) :
    Ends (do tell e; pure a) s (.ok a, s.repository) :=
  (ends_tell hs e).bind fun _ ht => ht.repository ▸ ends_pure ht.sound a

/-! ### The id, the store, the evaluator and the definition -/

/-- The id that `raw` spells, or the failure. -/
def idOf (raw : String) : Except ServiceError Id :=
  match Id.parse? raw with
  | some id => .ok id
  | none => .error (.invalidId raw)

theorem idOf_eq_ok_iff {raw : String} {id : Id} : idOf raw = .ok id ↔ Id.parse? raw = some id := by
  unfold idOf
  cases Id.parse? raw <;> simp

theorem ends_parseId (hs : s.memory.Sound) (raw : String) :
    Ends (parseId raw) s ((idOf raw).mapError .failed, s.repository) := by
  unfold parseId idOf
  cases Id.parse? raw with
  | some id => exact ends_pure hs id
  | none => exact ends_fail hs _

/-- `ask` ends with the reply of the store. -/
theorem ends_ask (hs : s.memory.Sound) (question : ρ → Reply α × ρ) :
    Ends (ask question) s
      ((question s.repository).1.mapError (Stop.map .store), (question s.repository).2) := by
  unfold ask
  refine (ends_get hs).bind fun t ht => ?_
  rcases question s.repository with ⟨reply, r⟩
  have hset : Ends (set { s with repository := r }) t (.ok ⟨⟩, r) := ends_set ht.preferences.symm hs
  refine hset.bind fun u hu => ?_
  obtain rfl := hu.repository
  match reply with
  | .ok a => exact ends_pure hu.sound a
  | .error (.failed e) => exact ends_fail hu.sound _
  | .error .overflow => exact ⟨u, rfl, rfl, rfl, hu.sound⟩

/-- `perform` of `work` under a contract for `P` ends with a result that has `P`. -/
theorem ends_perform (hs : s.memory.Sound) {key : CacheKey} {P : Except PipelineError α → Prop} {n : Nat}
    (work : Preferences → Nat → Work (Except PipelineError α))
    (hwork : (work s.preferences s.elapsed).Meets key P n) :
    ∃ x, P x ∧ Ends (perform work) s (x.mapError fun e => .failed (.rejected e), s.repository) := by
  have hempty : Memory.Sound { s.memory with logged := [] } := hs
  obtain ⟨hresult, hsound⟩ := Work.meets_run hwork hempty none
  rcases hrun : (work s.preferences s.elapsed).run none { s.memory with logged := [] } with ⟨x, _, m⟩
  rw [hrun] at hresult hsound
  refine ⟨x, hresult, ?_⟩
  unfold perform
  refine (ends_get hs).bind fun t ht => ?_
  rw [hrun]
  have hset : Ends (set { s with
      memory := { m with logged := [] },
      logged := m.logged.map Log.Entry.event ++ s.logged }) t (.ok ⟨⟩, s.repository) :=
    ends_set ht.preferences.symm hsound
  refine hset.bind fun u hu => ?_
  rw [← hu.repository]
  cases x with
  | ok a => exact ends_pure hu.sound a
  | error e => exact ends_fail hu.sound _

/-- `evaluate` ends with `answerOf`. -/
theorem ends_evaluate (hs : s.memory.Sound) (definition values : String) :
    Ends (Service.evaluate definition values) s
      ((answerOf s.preferences definition values).mapError fun e => .failed (.rejected e), s.repository) := by
  obtain ⟨x, rfl, h⟩ := ends_perform hs (fun p elapsed => Pipeline.evaluate p elapsed definition values)
    (meets_evaluate s.preferences s.elapsed definition values)
  exact h

/-- Whether a `definition` may be stored under the preferences `p`. -/
def check (p : Preferences) (definition : String) : Except ServiceError Unit :=
  if Text.isAllBlank definition then .error .missingDefinition
  else ((treeOf p definition).mapError .rejected).map fun _ => ()

/-- `validate` ends with what `check` says. -/
theorem ends_validate (hs : s.memory.Sound) (definition : String) :
    Ends (validate definition) s ((check s.preferences definition).mapError .failed, s.repository) := by
  unfold validate check
  split
  · exact ends_fail hs _
  · obtain ⟨x, htree, hcompile⟩ := ends_perform hs (fun p _ => Pipeline.compile p definition)
      (meets_compile s.preferences definition)
    rw [← htree]
    cases x with
    | error e => exact hcompile.bind_error _
    | ok object => exact hcompile.bind fun t ht => ht.repository ▸ ends_pure ht.sound ()

end Call

/-! ### Requests -/

inductive Request where
  | list
  | create (definition : String)
  | save (rawId definition : String)
  | delete (rawId : String)
  | execute (rawId values : String)
  deriving DecidableEq

/-- What the service answers to a `Request`. -/
inductive Served where
  | stored (a : Answer)
  | evaluated (response : Response)
  deriving DecidableEq

namespace Request

/-- The call of the service, for any `Repository`. -/
def call [Repository ρ] : Request → Call ρ Served
  | .list => do return .stored (.all (← Service.list))
  | .create definition => do return .stored (.one (← Service.create definition))
  | .save rawId definition => do return .stored (.one (← Service.save rawId definition))
  | .delete rawId => do
    Service.delete rawId
    return .stored .done
  | .execute rawId values => do return .evaluated (← Service.execute rawId values)

/-- The `StoreCall` that the request asks for, if the id and the definition pass. -/
def question (p : Preferences) : Request → Except ServiceError StoreCall
  | .list => return .all
  | .create definition => do
    Call.check p definition
    return .create definition
  | .save rawId definition => do
    let id ← Call.idOf rawId
    Call.check p definition
    return .save id definition
  | .delete rawId => do return .delete (← Call.idOf rawId)
  | .execute rawId _ => do return .get (← Call.idOf rawId)

/-- What the request makes of the `Answer` of the store. -/
def outcome (p : Preferences) : Request → Answer → Except (Stop ServiceError) Served
  | .execute _ values, .one e =>
    ((answerOf p e.definition values).mapError fun err => .failed (.rejected err)).map .evaluated
  | _, a => .ok (.stored a)

variable [Repository ρ]

/-- What comes of a `question`, and the store afterwards. -/
def consult (outcome : Answer → Except (Stop ServiceError) Served) (question : Except ServiceError StoreCall)
    (r : ρ) : Except (Stop ServiceError) Served × ρ :=
  match question with
  | .error e => (.error (.failed e), r)
  | .ok asked => (((asked.perform r).1.mapError (Stop.map .store)).bind outcome, (asked.perform r).2)

/-- The result of a request, and the store that it leaves. -/
def result (p : Preferences) (request : Request) : ρ → Except (Stop ServiceError) Served × ρ :=
  consult (request.outcome p) (request.question p)

variable {outcome : Answer → Except (Stop ServiceError) Served}

/-- `c` is a check that has to pass before the `question`. -/
theorem ends_guard {c : Call ρ α} {x : Except ServiceError α} {f : α → Call ρ Served}
    {question : α → Except ServiceError StoreCall} (h : c.Ends s (x.mapError .failed, s.repository))
    (hf : ∀ a (t : Service ρ), s.Leaves s.repository t →
      (f a).Ends t (consult outcome (question a) t.repository)) :
    (c >>= f).Ends s (consult outcome (x >>= question) s.repository) := by
  cases x with
  | error e => exact h.bind_error f
  | ok a => exact h.bind fun t ht => ht.repository ▸ hf a t ht

/-- `asked` is the question to the store, and `f` makes the `outcome` of the answer. -/
theorem ends_ask {asked : StoreCall} {call : ρ → Reply α × ρ} {word : α → Answer} {f : α → Call ρ Served}
    (hs : s.memory.Sound) (hcall : asked.perform s.repository = Reply.under word (call s.repository))
    (hf : ∀ a (t : Service ρ), t.preferences = s.preferences → t.memory.Sound →
      (f a).Ends t (outcome (word a), t.repository)) :
    (Call.ask call >>= f).Ends s (consult outcome (.ok asked) s.repository) := by
  have hask := Call.ends_ask hs call
  simp only [consult, hcall]
  rcases hreply : call s.repository with ⟨reply, r⟩
  rw [hreply] at hask
  cases reply with
  | error stop => exact hask.bind_error f
  | ok a => exact hask.bind fun t ht => ht.repository ▸ hf a t ht.preferences ht.sound

/-- **Requests.** A request ends with its `result`: the store is asked at most once, and not before the id and the
definition have passed. -/
theorem ends_call (hs : s.memory.Sound) (request : Request) :
    Call.Ends request.call s (request.result s.preferences s.repository) := by
  unfold call result
  -- Each request is a row of checks, then one question to the store, then what is logged at the end.
  cases request with
  | list =>
    simp only [Service.list, bind_assoc, pure_bind]
    exact ends_ask hs rfl fun es t _ ht => Call.ends_tell_pure ht _ _
  | create definition =>
    simp only [Service.create, bind_assoc, pure_bind]
    refine ends_guard (Call.ends_validate hs definition) fun _ t ht => ?_
    exact ends_ask ht.sound rfl fun e u _ hu => Call.ends_tell_pure hu _ _
  | save rawId definition =>
    simp only [Service.save, bind_assoc, pure_bind]
    refine ends_guard (Call.ends_parseId hs rawId) fun id t ht => ?_
    have hvalidate := Call.ends_validate ht.sound definition
    -- The definition is checked after the id, by a service whose preferences are still the same.
    rw [ht.preferences] at hvalidate
    refine ends_guard hvalidate fun _ u hu => ?_
    exact ends_ask hu.sound rfl fun e v _ hv => Call.ends_tell_pure hv _ _
  | delete rawId =>
    simp only [Service.delete, bind_assoc]
    refine ends_guard (Call.ends_parseId hs rawId) fun id t ht => ?_
    exact ends_ask ht.sound rfl fun _ u _ hu => Call.ends_tell_pure hu _ _
  | execute rawId values =>
    simp only [Service.execute, bind_assoc, pure_bind]
    refine ends_guard (Call.ends_parseId hs rawId) fun id t ht => ?_
    refine ends_ask ht.sound rfl fun e u hpreferences hu => ?_
    -- The expression that was found is evaluated, and the store is left alone.
    have hevaluate := Call.ends_evaluate hu e.definition values
    rw [hpreferences, ht.preferences] at hevaluate
    dsimp only [Request.outcome]
    cases hanswer : answerOf s.preferences e.definition values with
    | error err =>
      rw [hanswer] at hevaluate
      exact hevaluate.bind_error _
    | ok response =>
      rw [hanswer] at hevaluate
      refine hevaluate.bind fun v hv => hv.repository ▸ ?_
      exact (Call.ends_tell hv.sound _).bind fun w hw =>
        hw.repository ▸ Call.ends_tell_pure hw.sound _ _

end Request

end BoolCalc.Store
