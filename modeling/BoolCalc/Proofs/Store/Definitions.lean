import BoolCalc.Proofs.LastEntry
import BoolCalc.Proofs.Pipeline.Assignment
import BoolCalc.Proofs.Store.Requests

namespace BoolCalc.Store

open Pipeline

/-!
# Stored definitions can be evaluated

* `Visit`, `Service.visit`, `Service.after` : a request and what the store finds outside meanwhile; the
  service after several of them;
* `Request.accepted?`, `Service.accepted` : the definitions that the service accepted, as they were written;
* `Service.Compiles` : the evaluator of the service compiles a definition;
* `Service.visit_leaves`, `Service.visit_cases` : **inversion**, the result of a visit, and what it does to the
  expressions;
* `Service.Accounted` : the invariant, every definition is the one that was accepted last and compiles;
* `Service.Accounted.visit`, `Service.Accounted.after` : it holds after any requests;
* `Service.execute_cases` : how the execution of a stored expression ends;
* `Service.definitions_accepted` : **stored definitions** are as they were accepted and compile, and an
  execution fails because of its id, its parameter string or a variable without a value, if at all.
-/

/-- A `Request` that comes to the service, and what the store finds outside meanwhile. -/
structure Visit where
  request : Request
  fault : Option String := none
  now : Timestamp := .epoch
  deriving DecidableEq

namespace Request

/-- The definition that a request with this result has brought into the store (`.create` and `.save`), as it was
written. -/
def accepted? : Request → Except (Stop ServiceError) Served → Option Expression
  | .create definition, .ok (.stored (.one e)) => some ⟨e.id, definition⟩
  | .save rawId definition, .ok _ => (Id.parse? rawId).map fun id => ⟨id, definition⟩
  | _, _ => none

variable {p : Preferences} {request : Request} {asked : StoreCall} {reply : Reply Answer} {e : Expression}

theorem accepted?_error (request : Request) (stop : Stop ServiceError) :
    request.accepted? (.error stop) = none := by
  cases request <;> rfl

/-- `Call.check` passes a definition only if it has a tree. -/
theorem exists_tree_of_check {definition : String} (h : Call.check p definition = .ok ()) :
    ∃ tree, treeOf p definition = .ok tree := by
  unfold Call.check at h
  split at h
  · cases h
  · cases htree : treeOf p definition with
    | error err => rw [htree] at h; cases h
    | ok tree => exact ⟨tree, rfl⟩

/-- If the store call asked for has `put?` an expression, its definition has a tree. -/
theorem exists_tree_of_put? (h : request.question p = .ok asked) (hput : asked.put? reply = some e) :
    ∃ tree, treeOf p e.definition = .ok tree := by
  -- The stored definition is the one of the question, and the question has passed `Call.check`.
  have hcall := StoreCall.eq_of_put? hput
  cases request with
  | create definition =>
    obtain ⟨_, hcheck, hasked⟩ := Syntax.bind_eq_ok.1 h
    cases hasked
    obtain rfl : definition = e.definition := by simpa using hcall
    exact exists_tree_of_check hcheck
  | save rawId definition =>
    obtain ⟨id, -, h⟩ := Syntax.bind_eq_ok.1 h
    obtain ⟨_, hcheck, hasked⟩ := Syntax.bind_eq_ok.1 h
    cases hasked
    obtain ⟨-, rfl⟩ : id = e.id ∧ definition = e.definition := by simpa using hcall
    exact exists_tree_of_check hcheck
  | list =>
    cases h
    simp at hcall
  | delete rawId | execute rawId values =>
    obtain ⟨id, -, hasked⟩ := Syntax.bind_eq_ok.1 h
    cases hasked
    simp at hcall

/-- `accepted?` of the result of a request is `put?` of the store call it has asked for. -/
theorem accepted?_of_question (h : request.question p = .ok asked) (reply : Reply Answer) :
    request.accepted? ((reply.mapError (Stop.map .store)).bind (request.outcome p)) = asked.put? reply := by
  cases request with
  | list =>
    cases h
    rfl
  | create definition =>
    obtain ⟨-, -, hasked⟩ := Syntax.bind_eq_ok.1 h
    cases hasked
    rcases reply with stop | (es | e | -) <;> rfl
  | save rawId definition =>
    obtain ⟨id, hid, h⟩ := Syntax.bind_eq_ok.1 h
    obtain ⟨-, -, hasked⟩ := Syntax.bind_eq_ok.1 h
    cases hasked
    cases reply with
    | error stop => rfl
    | ok a => exact congrArg (Option.map _) (Call.idOf_eq_ok_iff.1 hid)
  | delete rawId | execute rawId values =>
    obtain ⟨id, -, hasked⟩ := Syntax.bind_eq_ok.1 h
    cases hasked
    rfl

end Request

namespace Service

/-- The service with another `fault` and `now` outside. The content of the file stays. -/
def facing (s : Service Shelf) (v : Visit) : Service Shelf :=
  { s with repository := s.repository.facing v.fault v.now }

/-- The result of a visit, and the service that it leaves. -/
def visit (s : Service Shelf) (v : Visit) : Except (Stop ServiceError) Served × Service Shelf :=
  v.request.call.answer (s.facing v)

/-- The service after the visits `vs`. -/
def after (s : Service Shelf) (vs : List Visit) : Service Shelf := vs.foldl (fun s v => (s.visit v).2) s

/-- The definitions that were `accepted?` in the visits, one after the other. -/
def accepted (s : Service Shelf) : List Visit → List Expression
  | [] => []
  | v :: vs => (v.request.accepted? (s.visit v).1).toList ++ (s.visit v).2.accepted vs

def stored (s : Service Shelf) : List Expression := s.repository.catalog.entries

/-- The evaluator of the service compiles the `definition`. -/
def Compiles (s : Service Shelf) (definition : String) : Prop :=
  ∃ object, ((compile s.preferences definition).run none s.memory).1 = .ok object

variable {s : Service Shelf} {p : Preferences} {es : List Expression}

/-- `Compiles` in terms of `treeOf`. -/
theorem compiles_iff (hs : s.memory.Sound) (definition : String) :
    s.Compiles definition ↔ ∃ tree, treeOf s.preferences definition = .ok tree :=
  exists_compile_eq_ok_iff hs

/-! ### Visits -/

/-- A visit has the `Request.result` of its request, which also says what store is left. -/
theorem visit_leaves (hs : s.memory.Sound) (v : Visit) :
    (s.visit v).1 = (v.request.result s.preferences (s.repository.facing v.fault v.now)).1 ∧
      s.Leaves (v.request.result s.preferences (s.repository.facing v.fault v.now)).2 (s.visit v).2 := by
  have hfacing : (s.facing v).memory.Sound := hs
  obtain ⟨t, hanswer, ht⟩ := Request.ends_call hfacing v.request
  rw [visit, hanswer]
  exact ⟨rfl, ht.repository, ht.preferences, ht.sound⟩

/-- **Inversion.** A visit accepts a definition `e` that has a tree, and puts it in its place, or accepts none and
adds nothing to the store. -/
theorem visit_cases (hs : s.memory.Sound) (v : Visit) :
    (∃ e, v.request.accepted? (s.visit v).1 = some e ∧
      (∃ tree, treeOf s.preferences e.definition = .ok tree) ∧ (s.visit v).2.stored = place e s.stored) ∨
    (v.request.accepted? (s.visit v).1 = none ∧ ∀ e ∈ (s.visit v).2.stored, e ∈ s.stored) := by
  obtain ⟨hvalue, hleaves⟩ := visit_leaves hs v
  unfold stored
  rw [hvalue, hleaves.repository]
  unfold Request.result
  cases hquestion : v.request.question s.preferences with
  | error e => exact .inr ⟨Request.accepted?_error _ _, fun e he => he⟩
  | ok asked =>
    dsimp only [Request.consult]
    rw [Request.accepted?_of_question hquestion]
    -- The store answers as it does at an attempt.
    rcases Shelf.entries_attempt s.repository ⟨asked, v.fault, v.now⟩ with
      ⟨e, hput, hentries⟩ | ⟨hnone, hold⟩
    · exact .inl ⟨e, hput, Request.exists_tree_of_put? hquestion hput, hentries⟩
    · exact .inr ⟨hnone, hold⟩

/-- The invariant: every definition in the store is the one that was accepted last under its id, among `es`, and has
a tree under the preferences `p`. -/
structure Accounted (p : Preferences) (es : List Expression) (s : Service Shelf) : Prop where
  preferences : s.preferences = p
  sound : s.memory.Sound
  last : ∀ e ∈ s.stored, IsLast Expression.id es e
  trees : ∀ e ∈ s.stored, ∃ tree, treeOf p e.definition = .ok tree

/-- `Accounted` holds at first if all stored definitions compile, with these as the accepted ones. -/
theorem accounted_stored (hs : s.memory.Sound) (hcompiles : ∀ e ∈ s.stored, s.Compiles e.definition) :
    s.Accounted s.preferences s.stored where
  preferences := rfl
  sound := hs
  last e he := by
    have hdistinct : (s.stored.map Expression.id).Nodup := by
      rw [List.Nodup, List.pairwise_map]
      exact s.repository.catalog.increasing.imp Id.ne_of_lt
    exact isLast_of_nodup hdistinct he
  trees e he := (compiles_iff hs e.definition).1 (hcompiles e he)

/-- **One visit** keeps the invariant, with what it accepts behind `es`. -/
theorem Accounted.visit (h : s.Accounted p es) (v : Visit) :
    (s.visit v).2.Accounted p (es ++ (v.request.accepted? (s.visit v).1).toList) := by
  obtain ⟨rfl, hs, hlast, htrees⟩ := h
  obtain ⟨-, -, hpreferences, hsound⟩ := visit_leaves hs v
  rcases visit_cases hs v with ⟨e, hnew, htree, hentries⟩ | ⟨hnone, hold⟩
  · rw [hnew]
    -- The new expression is the last one of its number; those of other numbers stay what they are.
    have hmem : ∀ x ∈ (s.visit v).2.stored, x = e ∨ x ∈ s.stored ∧ x.id ≠ e.id := by
      intro x hx
      rw [hentries] at hx
      exact (mem_place_iff s.repository.catalog.increasing).1 hx
    refine ⟨hpreferences, hsound, fun x hx => ?_, fun x hx => ?_⟩
    · rw [Option.toList_some, isLast_concat]
      exact (hmem x hx).imp_right fun ⟨hx, hne⟩ => ⟨hlast x hx, hne.symm⟩
    · rcases hmem x hx with rfl | ⟨hx, -⟩
      · exact htree
      · exact htrees x hx
  · rw [hnone, Option.toList_none, List.append_nil]
    exact ⟨hpreferences, hsound, fun x hx => hlast x (hold x hx), fun x hx => htrees x (hold x hx)⟩

/-- **All visits** keep the invariant, with all that they have `accepted` behind `es`. -/
theorem Accounted.after (h : s.Accounted p es) (vs : List Visit) :
    (s.after vs).Accounted p (es ++ s.accepted vs) := by
  induction vs generalizing s es with
  | nil =>
    rw [accepted, List.append_nil]
    exact h
  | cons v vs ih =>
    have hrest := ih (h.visit v)
    rwa [List.append_assoc] at hrest

/-! ### Executions -/

/-- The result of `execute`, as that of a `Request` without the call around it. -/
theorem map_execute (hs : s.memory.Sound) (rawId values : String) :
    ((execute rawId values).answer s).1.map Served.evaluated =
      (Request.consult ((Request.execute rawId values).outcome s.preferences)
        (Call.idOf rawId >>= fun id => .ok (.get id)) s.repository).1 := by
  obtain ⟨t, hanswer, -⟩ := Request.ends_call hs (.execute rawId values)
  have hbind : ((Request.execute rawId values).call.answer s).1 =
      ((execute rawId values).answer s).1.map Served.evaluated := by
    unfold Request.call
    rw [Call.answer_bind]
    rcases (execute rawId values).answer s with ⟨x, u⟩
    cases x <;> rfl
  rw [← hbind, hanswer]
  rfl

/-- The result of `evaluate` is `answerOf`, and a failure is `.rejected`. -/
theorem evaluate_answer (hs : s.memory.Sound) (definition values : String) :
    ((evaluate definition values).answer s).1 =
      (answerOf s.preferences definition values).mapError fun e => .failed (.rejected e) := by
  obtain ⟨t, hanswer, -⟩ := Call.ends_evaluate hs definition values
  rw [hanswer]

/-- `map Served.evaluated` is injective on results. -/
theorem eq_of_map_evaluated {x y : Except (Stop ServiceError) Response}
    (h : x.map Served.evaluated = y.map Served.evaluated) : x = y := by
  cases x <;> cases y <;> simp_all [Except.map]

/-- **The four ends of `execute`:** `rawId` is no id, no expression has the id, the store is spoiled, or a stored
definition is evaluated. -/
theorem execute_cases (hs : s.memory.Sound) (rawId values : String) :
    (Id.parse? rawId = none ∧
      ((execute rawId values).answer s).1 = .error (.failed (.invalidId rawId))) ∨
    (∃ id, Id.parse? rawId = some id ∧ (∀ e ∈ s.stored, e.id ≠ id) ∧
      ((execute rawId values).answer s).1 = .error (.failed (.store (.notFound id)))) ∨
    (s.repository.spoiled = true ∧
      ((execute rawId values).answer s).1 = .error (.failed (.store Shelf.spoiledError))) ∨
    ∃ e ∈ s.stored, Id.parse? rawId = some e.id ∧
      ((execute rawId values).answer s).1 = ((evaluate e.definition values).answer s).1 := by
  have hresult := map_execute hs rawId values
  cases hparse : Id.parse? rawId with
  | none =>
    have hid : Call.idOf rawId = .error (.invalidId rawId) := by rw [Call.idOf, hparse]
    rw [hid] at hresult
    exact .inl ⟨rfl, eq_of_map_evaluated hresult⟩
  | some id =>
    rw [Call.idOf_eq_ok_iff.2 hparse] at hresult
    have hget : (StoreCall.get id).perform s.repository = Reply.under .one (s.repository.get id) := rfl
    have hconsult : ((execute rawId values).answer s).1.map Served.evaluated =
        ((Reply.under .one (s.repository.get id)).1.mapError (Stop.map .store)).bind
          (Request.outcome s.preferences (.execute rawId values)) := hresult
    -- The store answers by its lock first, then by its catalog.
    unfold Shelf.get Shelf.guarded at hconsult
    cases hspoiled : s.repository.spoiled with
    | true =>
      rw [hspoiled] at hconsult
      exact .inr (.inr (.inl ⟨rfl, eq_of_map_evaluated hconsult⟩))
    | false =>
      rw [hspoiled] at hconsult
      cases hfound : s.repository.catalog.get? id with
      | none =>
        rw [hfound] at hconsult
        exact .inr (.inl ⟨id, rfl, Catalog.get?_eq_none_iff.1 hfound, eq_of_map_evaluated hconsult⟩)
      | some e =>
        rw [hfound] at hconsult
        obtain ⟨he, rfl⟩ := Catalog.get?_eq_some_iff.1 hfound
        refine .inr (.inr (.inr ⟨e, he, rfl, ?_⟩))
        rw [evaluate_answer hs]
        exact eq_of_map_evaluated hconsult

/-- Only on a spoiled store does `execute` fail with `.storage`. -/
theorem execute_ne_storage (hs : s.memory.Sound) (hspoiled : s.repository.spoiled = false)
    (rawId values reason : String) :
    ((execute rawId values).answer s).1 ≠ .error (.failed (.store (.storage reason))) := by
  intro h
  rcases execute_cases hs rawId values with ⟨-, hv⟩ | ⟨id, -, -, hv⟩ | ⟨htrue, -⟩ | ⟨e, -, -, hv⟩
  · cases hv.symm.trans h
  · cases hv.symm.trans h
  · cases hspoiled.symm.trans htrue
  · rw [hv, evaluate_answer hs] at h
    cases hanswer : answerOf s.preferences e.definition values <;> rw [hanswer] at h <;> cases h

/-- If `definition` has a tree, `evaluate` fails with an error of `bind`, or for an unbound variable. -/
theorem evaluate_error {definition values : String} (hs : s.memory.Sound)
    (htree : ∃ tree, treeOf s.preferences definition = .ok tree) {stop : Stop ServiceError}
    (h : ((evaluate definition values).answer s).1 = .error stop) :
    (∃ err, stop = .failed (.rejected (.binding err))) ∨
      ∃ name, stop = .failed (.rejected (.evaluation (.unboundVariable name))) := by
  rw [evaluate_answer hs] at h
  cases hanswer : answerOf s.preferences definition values with
  | ok response => rw [hanswer] at h; cases h
  | error err =>
    rw [hanswer] at h
    cases h
    obtain ⟨tree, htree⟩ := htree
    rcases answerOf_eq_error hanswer with hread | ⟨err, rfl⟩ | ⟨err, rfl⟩
    · cases htree.symm.trans hread
    · exact .inl ⟨err, rfl⟩
    · cases err with
      | unboundVariable name => exact .inr ⟨name, rfl⟩
      | tooDeep => exact absurd hanswer (answerOf_ne_tooDeep _ _ _)

/-- **Stored definitions.** Take a service with any preferences and any sound cache, whose definitions all compile,
and any visits `vs`, where each may meet a disk that cannot be written. Afterwards:
* Every stored definition is the one that was accepted last under its id, as it was written, and it compiles.
* An `execute` that does not fail with `.storage` has no id, or finds no expression, or is `evaluate` of the stored
  definition.
* The latter fails with an error of `bind` or for an unbound variable, if at all. -/
theorem definitions_accepted (hs : s.memory.Sound) (hcompiles : ∀ e ∈ s.stored, s.Compiles e.definition)
    (vs : List Visit) :
    (s.after vs).preferences = s.preferences ∧
    (∀ e ∈ (s.after vs).stored,
      IsLast Expression.id (s.stored ++ s.accepted vs) e ∧ (s.after vs).Compiles e.definition) ∧
    ∀ rawId values,
      (∀ reason, ((execute rawId values).answer (s.after vs)).1 ≠
        .error (.failed (.store (.storage reason)))) →
      (Id.parse? rawId = none ∧
        ((execute rawId values).answer (s.after vs)).1 = .error (.failed (.invalidId rawId))) ∨
      (∃ id, Id.parse? rawId = some id ∧ (∀ e ∈ (s.after vs).stored, e.id ≠ id) ∧
        ((execute rawId values).answer (s.after vs)).1 = .error (.failed (.store (.notFound id)))) ∨
      ∃ e ∈ (s.after vs).stored, Id.parse? rawId = some e.id ∧
        ((execute rawId values).answer (s.after vs)).1 =
          ((evaluate e.definition values).answer (s.after vs)).1 ∧
        ∀ stop, ((execute rawId values).answer (s.after vs)).1 = .error stop →
          (∃ err, stop = .failed (.rejected (.binding err))) ∨
          ∃ name, stop = .failed (.rejected (.evaluation (.unboundVariable name))) := by
  obtain ⟨hpreferences, hsound, hlast, htrees⟩ := (accounted_stored hs hcompiles).after vs
  rw [← hpreferences] at htrees
  refine ⟨hpreferences, fun e he => ⟨hlast e he, (compiles_iff hsound _).2 (htrees e he)⟩, ?_⟩
  intro rawId values hstorage
  rcases execute_cases hsound rawId values with hid | hfound | ⟨-, hspoiled⟩ | ⟨e, he, hparse, hvalue⟩
  · exact .inl hid
  · exact .inr (.inl hfound)
  · exact absurd hspoiled (hstorage _)
  · refine .inr (.inr ⟨e, he, hparse, hvalue, fun stop hstop => ?_⟩)
    exact evaluate_error hsound (htrees e he) (hvalue ▸ hstop)

/-- The derivation of `a AND b`. -/
def bothDerivation : Grammar.Derivation .disjunction :=
  .disjunction (.conjunction (.plain (.identifier "a")) (.andCons (.plain (.identifier "b")) .andNil)) .orNil

/-- The derivation of `NOT a`. -/
def negationDerivation : Grammar.Derivation .disjunction :=
  .disjunction (.conjunction (.not (.plain (.identifier "a"))) .andNil) .orNil

/-- A service that keeps trees, with the expression `a and b`. -/
def seeded : Service Shelf where
  repository := (Shelf.create "a and b" { catalog := .empty }).2
  preferences := { evaluation := { cacheTrees := true } }

/-- The definition of this expression becomes `not a`. -/
def redefinition : Visit := ⟨.save "1" "not a", none, .epoch⟩

theorem treeOf_negation : treeOf seeded.preferences "not a" = .ok negationDerivation.value :=
  (compileExpression_eq_treeOf _).symm.trans
    (compileExpression_of_scan (q := ⟨5, 1, 6⟩) (by decide +kernel) (by decide +kernel) (by decide) (by decide))

theorem sound_seeded : seeded.memory.Sound := nofun

theorem compiles_seeded : ∀ e ∈ seeded.stored, seeded.Compiles e.definition := by
  intro e he
  rw [List.mem_singleton.1 he]
  have hcompiled : compileExpression "a and b" = .ok bothDerivation.value :=
    compileExpression_of_scan (q := ⟨7, 1, 8⟩) (by decide +kernel) (by decide +kernel) (by decide) (by decide)
  exact (compiles_iff sound_seeded _).2 ⟨_, (compileExpression_eq_treeOf _).symm.trans hcompiled⟩

/-- `not a` takes the place of `a and b`. -/
theorem repository_redefinition : (seeded.after [redefinition]).repository =
    { seeded.repository with catalog := seeded.repository.catalog.put ⟨.one, "not a"⟩ } := by
  have hquestion : redefinition.request.question seeded.preferences = .ok (.save .one "not a") := by
    show (Call.idOf "1" >>= fun id => Call.check _ "not a" >>= fun _ => .ok (StoreCall.save id "not a")) = _
    rw [Call.idOf_eq_ok_iff.2 (by decide : Id.parse? "1" = some .one), Call.check, treeOf_negation]
    rfl
  have hrepository := (visit_leaves sound_seeded redefinition).2.repository
  rw [Request.result, hquestion] at hrepository
  exact hrepository

/-- The stored definition is `not a` in the end, and this is what `execute` evaluates. -/
theorem definitions_accepted_redefinition :
    seeded.memory.Sound ∧ (∀ e ∈ seeded.stored, seeded.Compiles e.definition) ∧
      (seeded.after [redefinition]).stored = [⟨.one, "not a"⟩] ∧
      IsLast Expression.id (seeded.stored ++ seeded.accepted [redefinition]) ⟨.one, "not a"⟩ ∧
      (seeded.after [redefinition]).Compiles "not a" ∧
      ((execute "1" "a=true").answer (seeded.after [redefinition])).1 = .ok ⟨"not a", "a=true", false⟩ := by
  obtain ⟨hpreferences, hlast, hexecute⟩ := definitions_accepted sound_seeded compiles_seeded [redefinition]
  have hsound := ((accounted_stored sound_seeded compiles_seeded).after [redefinition]).sound
  have hstored : (seeded.after [redefinition]).stored = [⟨.one, "not a"⟩] := by
    rw [stored, repository_redefinition]
    rfl
  have hmem : (⟨.one, "not a"⟩ : Expression) ∈ (seeded.after [redefinition]).stored :=
    hstored ▸ List.mem_singleton_self _
  refine ⟨sound_seeded, compiles_seeded, hstored, (hlast _ hmem).1, (hlast _ hmem).2, ?_⟩
  -- The answer of the evaluator, for the assignment that makes `a` true.
  have htext : assignmentText (fun _ => true) ["a"] = "a=true" := by decide
  have hanswer : answerOf seeded.preferences "not a" (assignmentText (fun _ => true) ["a"]) = _ :=
    answerOf_assignmentText treeOf_negation (.refl _) (by decide) (by rw [htext]; decide)
  rw [htext] at hanswer
  have hspoiled : (seeded.after [redefinition]).repository.spoiled = false := by
    rw [repository_redefinition]
    rfl
  have hparse : Id.parse? "1" = some .one := by decide
  rcases hexecute "1" "a=true" (execute_ne_storage hsound hspoiled _ _) with
    ⟨hnone, -⟩ | ⟨id, hid, hne, -⟩ | ⟨e, he, -, hvalue, -⟩
  · cases hparse.symm.trans hnone
  · cases hparse.symm.trans hid
    exact absurd rfl (hne _ hmem)
  · rw [hstored] at he
    obtain rfl := List.mem_singleton.1 he
    rw [hvalue, evaluate_answer hsound, hpreferences, hanswer]
    rfl

end Service

end BoolCalc.Store
