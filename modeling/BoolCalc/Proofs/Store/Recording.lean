import BoolCalc.Proofs.Pipeline.ErrorPlaces
import BoolCalc.Proofs.Store.Requests
import BoolCalc.Store.Scripted

namespace BoolCalc.Store

open Pipeline

/-!
# What a store is asked

* `Id.parse?_eq_some_iff` : the texts that are read as an id;
* `Storable`, `Call.check_eq_ok_iff` : the definitions that may be stored;
* `isAllBlank_of_emptyExpression` : a text without tokens has blanks only, so that it is no definition;
* `Errand`, `Errand.Reaches`, `Records` : any call of the service; the call of the store that it comes to; the calls of
  the store that several of them come to;
* `Scripted.perform_snd` : a store with set answers notes a call, and does nothing else;
* `Errand.Reaches.unique`, `Records.unique` : the errands settle these calls;
* `Errand.answer_cases`, `Service.records_after` : what one call of the service leaves behind, and several;
* `Service.recorded_calls` : **recording**, the store receives the calls that pass their checks, in order.
-/

/-! ### Ids -/

/-- `Id.parse?` reads an id from a text that writes its number. -/
theorem Id.parse?_eq_some_iff {raw : String} {id : Id} :
    Id.parse? raw = some id ↔ Text.Writes raw.toList id.value := by
  rw [Id.parse?, Option.bind_eq_some_iff]
  constructor
  · rintro ⟨n, hn, hid⟩
    rw [Id.ofInt?_eq_some_iff.1 hid]
    exact (Text.parseInt64?_eq_some_iff.1 hn).1
  · intro h
    exact ⟨id.value, Text.parseInt64?_eq_some_iff.2 ⟨h, id.lower, id.upper⟩, Id.ofInt?_value id⟩

/-! ### Definitions -/

/-- A `definition` may be stored: it has a character that is no blank, and an evaluator compiles it. -/
structure Storable (p : Preferences) (definition : String) : Prop where
  visible : ∃ c ∈ definition.toList, Text.isBlank c = false
  compiles : ∃ object, ((compile p definition).run none {}).1 = .ok object

/-- `Call.check` passes the `Storable` definitions. -/
theorem Call.check_eq_ok_iff {p : Preferences} {definition : String} :
    Call.check p definition = .ok () ↔ Storable p definition := by
  have hcompiles : (∃ object, ((compile p definition).run none {}).1 = .ok object) ↔
      ∃ tree, treeOf p definition = .ok tree := exists_compile_eq_ok_iff nofun
  have hvisible : Text.isAllBlank definition = true ↔ ¬∃ c ∈ definition.toList, Text.isBlank c = false := by
    simp [Text.isAllBlank]
  unfold Call.check
  constructor
  · intro h
    split at h
    · cases h
    · next hblank =>
      cases htree : treeOf p definition with
      | error e =>
        rw [htree] at h
        cases h
      | ok tree => exact ⟨not_not.1 (mt hvisible.2 hblank), hcompiles.2 ⟨tree, htree⟩⟩
  · rintro ⟨hsome, hobject⟩
    obtain ⟨tree, htree⟩ := hcompiles.1 hobject
    rw [if_neg (fun hblank => hvisible.1 hblank hsome), htree]
    rfl

/-- Only a text of blanks fails with `.emptyExpression`. -/
theorem isAllBlank_of_emptyExpression {p : Preferences} {definition : String} {span : Span}
    (h : treeOf p definition = .error (.parse (.emptyExpression span))) : Text.isAllBlank definition = true := by
  rw [treeOf_eq_reading] at h
  rcases CacheKey.reading_eq_error h with ⟨e, -, heq⟩ | ⟨s, e, htokens, hparse, heq⟩
  · cases heq
  · obtain rfl := PipelineError.parse.inj heq
    obtain ⟨-, q, hending, rfl⟩ := tokenize_eq_ok_iff.1 htokens
    have hlexes := lexes_of_scan hending
    -- None of the tokens is an end of input, so there is none where the end of input is the first.
    have hnone := (Syntax.headToken_isEnd_iff fun t ht =>
      hlexes.ne_endOfInput (List.mem_map_of_mem ht)).1 (Syntax.isEnd_of_emptyExpression hparse)
    rw [hnone] at hlexes
    exact List.all_eq_true.2 hlexes.isBlank_of_mem

/-- `Call.check` never fails with `.emptyExpression`: it looks for blanks before. -/
theorem Call.check_ne_emptyExpression {p : Preferences} {definition : String} (span : Span) :
    Call.check p definition ≠ .error (.rejected (.parse (.emptyExpression span))) := by
  unfold Call.check
  split
  · nofun
  · next hblank =>
    cases htree : treeOf p definition with
    | ok tree => nofun
    | error e =>
      intro h
      cases h
      exact hblank (isAllBlank_of_emptyExpression htree)

/-! ### Calls of the service -/

inductive Errand where
  /-- A request about stored expressions. -/
  | about (request : Request)
  | evaluate (definition values : String)
  deriving DecidableEq

/-- The call of the store that an errand comes to if it passes its checks: a text for an id has to write an id, and
a definition that is to be stored has to be `Storable`. The call has this id, and the definition as it was given. -/
inductive Errand.Reaches (p : Preferences) : Errand → StoreCall → Prop where
  | list : Reaches p (.about .list) .all
  | create {definition : String} (hdefinition : Storable p definition) :
      Reaches p (.about (.create definition)) (.create definition)
  | save {rawId definition : String} {id : Id} (hid : Text.Writes rawId.toList id.value)
      (hdefinition : Storable p definition) : Reaches p (.about (.save rawId definition)) (.save id definition)
  | delete {rawId : String} {id : Id} (hid : Text.Writes rawId.toList id.value) :
      Reaches p (.about (.delete rawId)) (.delete id)
  | execute {rawId values : String} {id : Id} (hid : Text.Writes rawId.toList id.value) :
      Reaches p (.about (.execute rawId values)) (.get id)

/-- The calls of the store that some errands come to, one after the other. Each errand `Reaches` one call, or does
not pass its checks and comes to none. -/
inductive Records (p : Preferences) : List Errand → List StoreCall → Prop where
  | nil : Records p [] []
  | reaches {errand : Errand} {asked : StoreCall} {errands : List Errand} {calls : List StoreCall}
      (h : errand.Reaches p asked) (hothers : Records p errands calls) : Records p (errand :: errands) (asked :: calls)
  | stops {errand : Errand} {errands : List Errand} {calls : List StoreCall} (h : ∀ asked, ¬errand.Reaches p asked)
      (hothers : Records p errands calls) : Records p (errand :: errands) calls

namespace Errand

/-- The call of the service, for any `Repository`. -/
def call {ρ : Type} [Repository ρ] : Errand → Call ρ Served
  | .about request => request.call
  | .evaluate definition values => do return .evaluated (← Service.evaluate definition values)

variable {p : Preferences} {request : Request} {asked : StoreCall}

/-- `Reaches` in terms of `Request.question`. -/
theorem reaches_about_iff : (Errand.about request).Reaches p asked ↔ request.question p = .ok asked := by
  constructor
  · -- The checks are bound one after the other, so that each of them has passed if the question is asked.
    intro h
    cases h with
    | list => rfl
    | create hdefinition =>
      rw [Request.question, Call.check_eq_ok_iff.2 hdefinition]
      rfl
    | save hid hdefinition =>
      rw [Request.question, Call.idOf_eq_ok_iff.2 (Id.parse?_eq_some_iff.2 hid), Call.check_eq_ok_iff.2 hdefinition]
      rfl
    | delete hid | execute hid =>
      rw [Request.question, Call.idOf_eq_ok_iff.2 (Id.parse?_eq_some_iff.2 hid)]
      rfl
  · intro h
    have hwrites {rawId : String} {id : Id} (hid : Call.idOf rawId = .ok id) : Text.Writes rawId.toList id.value :=
      Id.parse?_eq_some_iff.1 (Call.idOf_eq_ok_iff.1 hid)
    cases request with
    | list =>
      cases h
      exact .list
    | create definition =>
      obtain ⟨_, hcheck, hasked⟩ := Syntax.bind_eq_ok.1 h
      cases hasked
      exact .create (Call.check_eq_ok_iff.1 hcheck)
    | save rawId definition =>
      obtain ⟨id, hid, h⟩ := Syntax.bind_eq_ok.1 h
      obtain ⟨_, hcheck, hasked⟩ := Syntax.bind_eq_ok.1 h
      cases hasked
      exact .save (hwrites hid) (Call.check_eq_ok_iff.1 hcheck)
    | delete rawId =>
      obtain ⟨id, hid, hasked⟩ := Syntax.bind_eq_ok.1 h
      cases hasked
      exact .delete (hwrites hid)
    | execute rawId values =>
      obtain ⟨id, hid, hasked⟩ := Syntax.bind_eq_ok.1 h
      cases hasked
      exact .execute (hwrites hid)

theorem Reaches.unique {errand : Errand} {asked asked' : StoreCall} (h : errand.Reaches p asked)
    (h' : errand.Reaches p asked') : asked = asked' := by
  cases errand with
  | about request => exact Except.ok.inj ((reaches_about_iff.1 h).symm.trans (reaches_about_iff.1 h'))
  | evaluate definition values => cases h

end Errand

/-- The `calls` are settled by the `errands`. -/
theorem Records.unique {p : Preferences} {errands : List Errand} {calls calls' : List StoreCall}
    (h : Records p errands calls) (h' : Records p errands calls') : calls = calls' := by
  induction h generalizing calls' with
  | nil =>
    cases h'
    rfl
  | reaches hreaches _ ih =>
    cases h' with
    | reaches hreaches' hothers => rw [hreaches.unique hreaches', ih hothers]
    | stops hstops _ => exact absurd hreaches (hstops _)
  | stops hstops _ ih =>
    cases h' with
    | reaches hreaches _ => exact absurd hreaches (hstops _)
    | stops _ hothers => exact ih hothers

/-! ### A store with set answers -/

/-- `Scripted` notes a call, and does nothing else. -/
theorem Scripted.perform_snd (asked : StoreCall) (r : Scripted) :
    (asked.perform r).2 = { r with received := asked :: r.received } := by
  have hanswer {α : Type} (failure : Option StoreError) (reply : Reply α) :
      (r.answer asked failure reply).2 = { r with received := asked :: r.received } := by
    cases failure <;> rfl
  cases asked with
  | all => exact hanswer r.listError (.ok r.listed)
  | get id =>
    show (Repository.get id r).2 = _
    exact hanswer r.getError _
  | create definition => exact hanswer r.createError (.ok (⟨.one, definition⟩ : Expression))
  | save id definition => exact hanswer r.saveError (.ok (⟨id, definition⟩ : Expression))
  | delete id => exact hanswer r.deleteError (.ok ())

/-! ### The service and its store -/

variable {s : Service Scripted}

/-- **One call** of the service. The store receives the call that `errand` reaches, or is left alone if there is
none. -/
theorem Errand.answer_cases (hs : s.memory.Sound) (errand : Errand) :
    (∃ asked, errand.Reaches s.preferences asked ∧
      s.Leaves { s.repository with received := asked :: s.repository.received } (errand.call.answer s).2) ∨
    ((∀ asked, ¬errand.Reaches s.preferences asked) ∧ s.Leaves s.repository (errand.call.answer s).2) := by
  cases errand with
  | about request =>
    obtain ⟨t, hanswer, ht⟩ := Request.ends_call hs request
    have hcall : (Errand.about request).call.answer s = request.call.answer s := rfl
    rw [hcall, hanswer]
    unfold Request.result at ht
    cases hquestion : request.question s.preferences with
    | error e =>
      rw [hquestion] at ht
      refine .inr ⟨fun asked hasked => ?_, ht⟩
      cases hquestion.symm.trans (Errand.reaches_about_iff.1 hasked)
    -- `Scripted.perform` receives the call, whatever it has been told to answer.
    | ok asked =>
      rw [hquestion] at ht
      refine .inl ⟨asked, Errand.reaches_about_iff.2 hquestion, ?_⟩
      rw [← Scripted.perform_snd]
      exact ht
  | evaluate definition values =>
    obtain ⟨t, hanswer, ht⟩ := (Call.ends_evaluate hs definition values).map Served.evaluated
    rw [Errand.call, hanswer]
    -- An evaluation of a text asks the repository nothing.
    refine .inr ⟨fun asked hasked => ?_, ht⟩
    cases hasked

namespace Service

/-- The service after the `errands`. -/
def afterAll (s : Service Scripted) (errands : List Errand) : Service Scripted :=
  errands.foldl (fun s errand => (errand.call.answer s).2) s

/-- **All calls** of the service. The store receives `calls` with `Records`, and its answers stay set as they were. -/
theorem records_after (hs : s.memory.Sound) (errands : List Errand) :
    ∃ calls, Records s.preferences errands calls ∧
      s.Leaves { s.repository with received := calls.reverse ++ s.repository.received } (s.afterAll errands) := by
  induction errands generalizing s with
  | nil => exact ⟨[], .nil, rfl, rfl, hs⟩
  | cons errand errands ih =>
    rcases errand.answer_cases hs with ⟨asked, hreaches, hleaves⟩ | ⟨hstops, hleaves⟩
    · obtain ⟨calls, hrecords, hrest⟩ := ih hleaves.sound
      rw [hleaves.preferences] at hrecords
      refine ⟨asked :: calls, .reaches hreaches hrecords, ?_, hrest.preferences.trans hleaves.preferences, hrest.sound⟩
      have hrepository := hrest.repository
      rw [hleaves.repository] at hrepository
      rw [List.reverse_cons, List.append_assoc]
      exact hrepository
    · obtain ⟨calls, hrecords, hrest⟩ := ih hleaves.sound
      rw [hleaves.preferences] at hrecords
      refine ⟨calls, .stops hstops hrecords, ?_, hrest.preferences.trans hleaves.preferences, hrest.sound⟩
      have hrepository := hrest.repository
      rwa [hleaves.repository] at hrepository

/-- A request without a `question` fails with what its checks say. -/
theorem answer_of_question {request : Request} {e : ServiceError} (hs : s.memory.Sound)
    (h : request.question s.preferences = .error e) : (request.call.answer s).1 = .error (.failed e) := by
  obtain ⟨t, hanswer, -⟩ := Request.ends_call hs request
  rw [hanswer, Request.result, h]
  rfl

/-- A definition of blanks is `.missingDefinition`, unless `save` finds no id in `rawId` before. -/
theorem question_of_blank {p : Preferences} {definition : String} (hblank : Text.isAllBlank definition = true) :
    (Request.create definition).question p = .error .missingDefinition ∧
      ∀ rawId, (Request.save rawId definition).question p = match Id.parse? rawId with
        | some _ => .error .missingDefinition
        | none => .error (.invalidId rawId) := by
  have hcheck : Call.check p definition = .error .missingDefinition := if_pos hblank
  constructor
  · rw [Request.question, hcheck]
    rfl
  · intro rawId
    rw [Request.question, hcheck, Call.idOf]
    cases Id.parse? rawId <;> rfl

theorem question_ne_emptyExpression {p : Preferences} (request : Request) (span : Span) :
    request.question p ≠ .error (.rejected (.parse (.emptyExpression span))) := by
  have hid (rawId : String) : Call.idOf rawId ≠ .error (.rejected (.parse (.emptyExpression span))) := by
    unfold Call.idOf
    split <;> nofun
  have hcheck (definition : String) : Call.check p definition ≠ .error (.rejected (.parse (.emptyExpression span))) :=
    Call.check_ne_emptyExpression span
  intro h
  -- An identifier that is no number fails in another way, and `Call.check` answers `missingDefinition` for a blank
  -- text.
  cases request with
  | list => cases h
  | create definition =>
    rcases Syntax.bind_eq_error.1 h with hfailed | ⟨_, -, hok⟩
    · exact hcheck definition hfailed
    · cases hok
  | save rawId definition =>
    rcases Syntax.bind_eq_error.1 h with hfailed | ⟨id, -, hothers⟩
    · exact hid rawId hfailed
    · rcases Syntax.bind_eq_error.1 hothers with hfailed | ⟨_, -, hok⟩
      · exact hcheck definition hfailed
      · cases hok
  | delete rawId | execute rawId values =>
    rcases Syntax.bind_eq_error.1 h with hfailed | ⟨id, -, hok⟩
    · exact hid rawId hfailed
    · cases hok

/-- A request that hands on what the store answers does not fail with `.emptyExpression`. -/
theorem answer_ne_emptyExpression {request : Request} (hs : s.memory.Sound)
    (houtcome : ∀ a, request.outcome s.preferences a = .ok (.stored a)) (span : Span) :
    (request.call.answer s).1 ≠ .error (.failed (.rejected (.parse (.emptyExpression span)))) := by
  obtain ⟨t, hanswer, -⟩ := Request.ends_call hs request
  rw [hanswer, Request.result]
  cases hquestion : request.question s.preferences with
  | error e =>
    intro h
    cases h
    exact question_ne_emptyExpression request span hquestion
  | ok asked =>
    dsimp only [Request.consult]
    rcases (asked.perform s.repository).1 with (e | -) | a
    · nofun
    · nofun
    · show request.outcome s.preferences a ≠ _
      rw [houtcome]
      nofun

/-- **Recording.** Let `t` be a service over a `Scripted` store after any errands.
* The store has received `calls` with `Records`: in order one call for each errand that passes its checks, with the
  id that was written and the definition as it was given.
* A further errand that does not pass its checks leaves the store alone.
* A definition of blanks, however long, is `.missingDefinition` when it is to be stored; with `save`, a `rawId` that
  writes no id is looked at before.
* Neither `create` nor `save` ever fails with `.emptyExpression`. -/
theorem recorded_calls (hs : s.memory.Sound) (errands : List Errand) :
    let t := s.afterAll errands
    (∃ calls, Records s.preferences errands calls ∧ t.repository.calls = s.repository.calls ++ calls) ∧
    (∀ errand : Errand, (∀ asked, ¬errand.Reaches s.preferences asked) →
      (errand.call.answer t).2.repository = t.repository) ∧
    (∀ definition, (∀ c ∈ definition.toList, Text.isBlank c = true) →
      ((Request.create definition).call.answer t).1 = .error (.failed .missingDefinition) ∧
      ∀ rawId,
        (∀ id : Id, Text.Writes rawId.toList id.value →
          ((Request.save rawId definition).call.answer t).1 = .error (.failed .missingDefinition)) ∧
        ((∀ id : Id, ¬Text.Writes rawId.toList id.value) →
          ((Request.save rawId definition).call.answer t).1 = .error (.failed (.invalidId rawId)))) ∧
    ∀ definition rawId span,
      ((Request.create definition).call.answer t).1 ≠
        .error (.failed (.rejected (.parse (.emptyExpression span)))) ∧
      ((Request.save rawId definition).call.answer t).1 ≠
        .error (.failed (.rejected (.parse (.emptyExpression span)))) := by
  obtain ⟨calls, hrecords, hleaves⟩ := records_after hs errands
  refine ⟨⟨calls, hrecords, ?_⟩, fun errand hstops => ?_, fun definition hblank => ?_, fun definition rawId span => ?_⟩
  · rw [hleaves.repository]
    simp [Scripted.calls]
  · -- An errand that reaches nothing leaves the repository as it stood after the others.
    rcases errand.answer_cases hleaves.sound with ⟨asked, hreaches, -⟩ | ⟨-, hleft⟩
    · rw [hleaves.preferences] at hreaches
      exact absurd hreaches (hstops asked)
    · exact hleft.repository
  · obtain ⟨hcreate, hsave⟩ := question_of_blank (p := (s.afterAll errands).preferences) (List.all_eq_true.2 hblank)
    refine ⟨answer_of_question hleaves.sound hcreate, fun rawId => ⟨fun id hid => ?_, fun hnone => ?_⟩⟩
    · have hquestion := hsave rawId
      rw [Id.parse?_eq_some_iff.2 hid] at hquestion
      exact answer_of_question hleaves.sound hquestion
    · have hquestion := hsave rawId
      rw [Option.eq_none_iff_forall_ne_some.2 fun id hid => hnone id (Id.parse?_eq_some_iff.1 hid)] at hquestion
      exact answer_of_question hleaves.sound hquestion
  · exact ⟨answer_ne_emptyExpression hleaves.sound (fun _ => rfl) span,
      answer_ne_emptyExpression hleaves.sound (fun _ => rfl) span⟩

/-- Errands of which two reach the store: `.get 5` and `.all`. -/
def mixedErrands : List Errand :=
  [.about (.create " \t\n"), .about (.execute "+5" "nothing"), .about (.delete " 5"), .evaluate "a" "a=1", .about .list]

/-- A service over a `Scripted` store in which nothing can be listed. -/
def scriptedService : Service Scripted := { repository := { listError := some (.storage "gone") } }

/-- After `mixedErrands` the store was asked for the expression 5 and for the list. The definition of blanks is
missing. -/
theorem recorded_calls_mixedErrands : scriptedService.memory.Sound ∧
    (scriptedService.afterAll mixedErrands).repository.calls = [.get ⟨5, by decide, by decide⟩, .all] ∧
    (∀ c ∈ " \t\n".toList, Text.isBlank c = true) ∧
    ((Request.create " \t\n").call.answer (scriptedService.afterAll mixedErrands)).1 =
      .error (.failed .missingDefinition) := by
  have hs : scriptedService.memory.Sound := nofun
  have hblank : ∀ c ∈ " \t\n".toList, Text.isBlank c = true := List.all_eq_true.1 (by decide)
  obtain ⟨⟨calls, hrecords, hcalls⟩, -, hmissing, -⟩ := recorded_calls hs mixedErrands
  refine ⟨hs, ?_, hblank, (hmissing _ hblank).1⟩
  have hfive : Text.Writes "+5".toList (⟨5, by decide, by decide⟩ : Id).value := Id.parse?_eq_some_iff.1 (by decide)
  have hspaced (id : Id) : ¬Text.Writes " 5".toList id.value := fun h =>
    nomatch (show Id.parse? " 5" = none by decide).symm.trans (Id.parse?_eq_some_iff.2 h)
  have hexpected : Records scriptedService.preferences mixedErrands [.get ⟨5, by decide, by decide⟩, .all] := by
    refine .stops (fun asked h => ?_) (.reaches (.execute hfive) (.stops (fun asked h => ?_) (.stops (fun asked h => ?_)
      (.reaches .list .nil))))
    · cases h with
      | create hdefinition =>
        obtain ⟨c, hc, hvisible⟩ := hdefinition.visible
        rw [hblank c hc] at hvisible
        cases hvisible
    · cases h with
      | delete hid => exact hspaced _ hid
    · cases h
  rw [hcalls, hrecords.unique hexpected]
  rfl

end Service

end BoolCalc.Store
