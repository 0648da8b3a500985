import Mathlib.Data.List.Forall2
import BoolCalc.Proofs.Log.Messages
import BoolCalc.Proofs.Pipeline.Told

namespace BoolCalc

/-!
# Milestones of an evaluation

* `Milestone`, `Milestone.IsToldBy` : the completion of a stage, and the event that tells it;
* `Pipeline.treeMilestones`, `Pipeline.milestones` : the milestones of a compilation and of an evaluation, with or
  without a tree in the cache;
* `Milestone.map_code_eq` : the codes of the events are those of the milestones they tell;
* `Chronicle` : the events of a piece of work tell its milestones, all of them if there is a result; otherwise they
  break off before one of them, and an error with the code of the failure comes last;
* `Chronicle.andThen` : pieces of work one after another;
* `Chronicle.length_le` : there are at most as many events as milestones;
* `Pipeline.chronicle_toldTree`, `Pipeline.chronicle_told` : the chronicles of the two calls;
* `Pipeline.map_code_told` : the codes of the events of an evaluation whose text compiles.
-/

/-! ### Milestones -/

/-- The completion of a stage, as the `code` and the `message` of an event tell it. -/
structure Milestone where
  code : Log.Code
  message : String
  deriving DecidableEq

/-- `e` is an event at the level `.debug` with the code and the message of `s`. -/
structure Milestone.IsToldBy (s : Milestone) (e : Log.Event) : Prop where
  level : e.level = .debug
  code : e.code = s.code
  message : e.message = s.message

theorem Milestone.isToldBy_stage (s : Milestone) (pairs : List (String × String)) :
    s.IsToldBy (.stage s.code s.message pairs) := by
  rw [Log.Event.stage_eq]
  exact ⟨rfl, rfl, rfl⟩

/-- `IsToldBy` does not depend on the mark of the event. -/
theorem Milestone.IsToldBy.forRequest {s : Milestone} {e : Log.Event} (h : s.IsToldBy e)
    (request : Option String) : s.IsToldBy (e.forRequest request) := by
  cases request with
  | none => exact h
  | some r => exact ⟨h.level, h.code, h.message⟩

/-- Events that tell the milestones `reached` have their codes, in order. -/
theorem Milestone.map_code_eq {reached : List Milestone} {events : List Log.Event}
    (h : List.Forall₂ Milestone.IsToldBy reached events) : events.map Log.Event.code = reached.map Milestone.code := by
  induction h with
  | nil => rfl
  | cons he _ ih => rw [List.map_cons, List.map_cons, he.code, ih]

/-- `e` is an event at the level `.error` with the `code`. -/
structure IsFailure (code : Log.Code) (e : Log.Event) : Prop where
  level : e.level = .error
  code : e.code = code

theorem isFailure_failure (code : Log.Code) (message : String) (span : Option Span)
    (pairs : List (String × String)) : IsFailure code (.failure code message span pairs) := by
  rw [Log.Event.failure_eq]
  exact ⟨rfl, rfl⟩

theorem IsFailure.forRequest {code : Log.Code} {e : Log.Event} (h : IsFailure code e) (request : Option String) :
    IsFailure code (e.forRequest request) := by
  cases request with
  | none => exact h
  | some r => exact ⟨h.level, h.code⟩

/-! ### Chronicles -/

/-- The events of a piece of work with some `milestones`. If it has a result, they tell the milestones, in order. If
it fails with `err`, they tell the milestones `reached`, before the one that it has `missed`, and then there is one
error, with `err.code`. -/
inductive Chronicle {α : Type} (milestones : List Milestone) : Except PipelineError α → List Log.Event → Prop where
  | completed {a : α} {events : List Log.Event} (h : List.Forall₂ Milestone.IsToldBy milestones events) :
      Chronicle milestones (.ok a) events
  | stopped {err : PipelineError} {reached missed : List Milestone} {events : List Log.Event} {last : Log.Event}
      (hmilestones : milestones = reached ++ missed) (hmissed : missed ≠ [])
      (hreached : List.Forall₂ Milestone.IsToldBy reached events) (hlast : IsFailure err.code last) :
      Chronicle milestones (.error err) (events ++ [last])

namespace Chronicle

variable {α β : Type} {milestones later : List Milestone}

theorem stage_ok {s : Milestone} {e : Log.Event} (h : s.IsToldBy e) (a : α) : Chronicle [s] (.ok a) [e] :=
  completed (.cons h .nil)

theorem stage_error (s : Milestone) {err : PipelineError} {e : Log.Event} (h : IsFailure err.code e) :
    Chronicle (α := α) [s] (.error err) [e] :=
  stopped rfl (List.cons_ne_nil _ _) (List.Forall₂.nil : List.Forall₂ Milestone.IsToldBy [] []) h

/-- One more milestone `s` before the others. -/
theorem cons {s : Milestone} {e : Log.Event} {x : Except PipelineError α} {events : List Log.Event}
    (he : s.IsToldBy e) (h : Chronicle milestones x events) : Chronicle (s :: milestones) x (e :: events) := by
  cases h with
  | completed h => exact completed (.cons he h)
  | stopped hmilestones hmissed hreached hlast =>
    exact stopped (congrArg (s :: ·) hmilestones) hmissed (.cons he hreached) hlast

/-- Of a result `.ok a`, the value does not matter. -/
theorem of_map {x : Except PipelineError α} {f : α → β} {events : List Log.Event}
    (h : Chronicle milestones (x.map f) events) : Chronicle milestones x events := by
  cases x with
  | ok a =>
    cases h with
    | completed h => exact completed h
  | error e =>
    cases h with
    | stopped hmilestones hmissed hreached hlast => exact stopped hmilestones hmissed hreached hlast

/-- `Chronicle` does not depend on the marks of the events. -/
theorem forRequest {x : Except PipelineError α} {events : List Log.Event} (h : Chronicle milestones x events)
    (request : Option String) : Chronicle milestones x (events.map (·.forRequest request)) := by
  have hmarked {reached : List Milestone} {events : List Log.Event}
      (h : List.Forall₂ Milestone.IsToldBy reached events) :
      List.Forall₂ Milestone.IsToldBy reached (events.map (·.forRequest request)) :=
    List.forall₂_map_right_iff.2 (h.imp fun _ _ h => h.forRequest request)
  cases h with
  | completed h => exact completed (hmarked h)
  | stopped hmilestones hmissed hreached hlast =>
    rw [List.map_append]
    exact stopped hmilestones hmissed (hmarked hreached) (hlast.forRequest request)

/-- There are at most as many events as `milestones`: the error stands for one that is missed. -/
theorem length_le {x : Except PipelineError α} {events : List Log.Event} (h : Chronicle milestones x events) :
    events.length ≤ milestones.length := by
  cases h with
  | completed h => exact Nat.le_of_eq h.length_eq.symm
  | stopped hmilestones hmissed hreached hlast =>
    have hlength := hreached.length_eq
    have hpos := List.length_pos_of_ne_nil hmissed
    rw [hmilestones, List.length_append, List.length_append, List.length_singleton]
    omega

/-- The milestones of `x.andThen f` are those of `x`, then those of `f a`. -/
theorem andThen {x : Log.Logged (Except PipelineError α)} {f : α → Log.Logged (Except PipelineError β)}
    (h : Chronicle milestones x.value x.events) (hf : ∀ a, Chronicle later (f a).value (f a).events) :
    Chronicle (milestones ++ later) (x.andThen f).value (x.andThen f).events := by
  obtain ⟨value, events⟩ := x
  cases h with
  | completed h =>
    rename_i a
    rw [Log.Logged.andThen_of_ok rfl]
    dsimp only
    have hrest := hf a
    generalize (f a).value = y, (f a).events = after at hrest
    cases hrest with
    | completed h' => exact completed (List.rel_append h h')
    | stopped hmilestones hmissed hreached hlast =>
      -- All milestones of the first piece are reached.
      rw [hmilestones, ← List.append_assoc, ← List.append_assoc]
      exact stopped rfl hmissed (List.rel_append h hreached) hlast
  | stopped hmilestones hmissed hreached hlast =>
    -- None of the milestones of the second piece is reached.
    rw [Log.Logged.andThen_of_error rfl, hmilestones, List.append_assoc]
    exact stopped rfl (fun hnil => hmissed (List.append_eq_nil_iff.1 hnil).1) hreached hlast

end Chronicle

/-! ### The calls -/

namespace Pipeline

/-- The milestones of `compile`: the keywords are normalized, and either the tree is in the cache, or the tokens are
read and then the tree. -/
def treeMilestones (inCache : Bool) : List Milestone :=
  ⟨.normalizationComplete, "Expression normalized"⟩ ::
    if inCache then [⟨.cacheHit, "Parsed expression served from cache"⟩]
    else [⟨.tokenizationComplete, "Tokenization completed"⟩, ⟨.parseComplete, "Parsing completed"⟩]

/-- The milestones of `evaluate`: those of `compile`, then the bindings, the value and the answer. -/
def milestones (inCache : Bool) : List Milestone :=
  treeMilestones inCache ++
    [⟨.bindingComplete, "Binding completed"⟩, ⟨.evaluationComplete, "Evaluation completed"⟩,
     ⟨.evaluationComplete, "Pipeline completed"⟩]

theorem chronicle_tokenize (p : Preferences.Lexical) (text : String) :
    Chronicle [⟨.tokenizationComplete, "Tokenization completed"⟩]
      ((tokenize p text).mapError PipelineError.lex).value ((tokenize p text).mapError PipelineError.lex).events := by
  unfold tokenize Lexer.tokenize
  dsimp only
  split
  · exact .stage_error _ (isFailure_failure _ _ _ _)
  · split
    · exact .stage_ok (Milestone.isToldBy_stage _ _) _
    · next f _ =>
      refine .stage_error _ ?_
      unfold Lexer.failureEvent
      split <;> exact isFailure_failure _ _ _ _

theorem chronicle_parse (tokens : TokenStream) :
    Chronicle [⟨.parseComplete, "Parsing completed"⟩]
      ((parse tokens).mapError PipelineError.parse).value ((parse tokens).mapError PipelineError.parse).events := by
  show Chronicle _ ((Syntax.parseTokens tokens.final tokens.body).result.mapError _)
    [(Syntax.parseTokens tokens.final tokens.body).event]
  unfold Syntax.Parse.event
  cases (Syntax.parseTokens tokens.final tokens.body).result with
  | ok tree => exact .stage_ok (Milestone.isToldBy_stage _ _) tree
  | error e => exact .stage_error _ (isFailure_failure _ _ _ _)

theorem chronicle_bind (p : Preferences.Binding) (values : String) :
    Chronicle [⟨.bindingComplete, "Binding completed"⟩]
      ((bind p values).mapError PipelineError.binding).value
      ((bind p values).mapError PipelineError.binding).events := by
  unfold bind
  dsimp only
  cases Parameters.read p values with
  | ok b => exact .stage_ok (Milestone.isToldBy_stage _ _) b
  | error e => exact .stage_error _ (isFailure_failure _ _ _ _)

theorem chronicle_value (p : Preferences.Evaluation) (tree : Expr) (b : Bindings) :
    Chronicle [⟨.evaluationComplete, "Evaluation completed"⟩]
      ((BoolCalc.evaluate p tree b).mapError PipelineError.evaluation).value
      ((BoolCalc.evaluate p tree b).mapError PipelineError.evaluation).events := by
  unfold BoolCalc.evaluate
  dsimp only
  cases Evaluation.run p.shortCircuit tree b with
  | ok value => exact .stage_ok (Milestone.isToldBy_stage _ _) value
  | error e => exact .stage_error _ (isFailure_failure _ _ _ _)

/-- **The chronicle of a compilation** by `toldTree` has `treeMilestones`. -/
theorem chronicle_toldTree (p : Preferences) (expression : String) (found : Option Expr) :
    Chronicle (treeMilestones found.isSome) (toldTree p expression found).value
      (toldTree p expression found).events := by
  have hnormal : (⟨.normalizationComplete, "Expression normalized"⟩ : Milestone).IsToldBy
      (.stage .normalizationComplete "Expression normalized"
        [("length", toString expression.utf8ByteSize),
         ("rewrites", toString (normalize expression).value.changes)]) := Milestone.isToldBy_stage _ _
  rw [toldTree_eq rfl]
  cases found with
  | some tree => exact .cons hnormal (.stage_ok (Milestone.isToldBy_stage _ _) tree)
  | none => exact .cons hnormal ((chronicle_tokenize p.lexical _).andThen chronicle_parse)

/-- The same for `compile` in a memory `m`, which tells some `x`. -/
theorem exists_chronicle_compile (request : Option String) (m : Memory) (p : Preferences) (expression : String) :
    ∃ x : Log.Logged (Except PipelineError TreeObject), Work.Tells request m (compile p expression) x ∧
      Chronicle (treeMilestones (m.find? (keyOf p expression)).isSome) x.value x.events := by
  obtain ⟨x, htells, hx⟩ := tells_compile request m p expression
  have hchronicle := chronicle_toldTree p expression (found? m p expression)
  rw [← hx, found?, Option.isSome_map] at hchronicle
  exact ⟨_, htells, hchronicle.of_map⟩

/-- **The chronicle of an evaluation** by `told` has `milestones`. -/
theorem chronicle_told (p : Preferences) (elapsed : Nat) (expression values : String) (found : Option Expr) :
    Chronicle (milestones found.isSome) (told p elapsed expression values found).value
      (told p elapsed expression values found).events :=
  (chronicle_toldTree p expression found).andThen fun tree =>
    (chronicle_bind p.binding values).andThen fun b =>
      (chronicle_value p.evaluation tree b).andThen fun _ =>
        .stage_ok (Milestone.isToldBy_stage _ _) _

/-- If the expression has a `tree`, the codes of the events are those of `treeMilestones` and then those of
`toldAnswer`. -/
theorem map_code_told {p : Preferences} {expression : String} {found : Option Expr} {tree : Expr}
    (htree : (toldTree p expression found).value = .ok tree) (elapsed : Nat) (values : String) :
    (told p elapsed expression values found).events.map Log.Event.code =
      (treeMilestones found.isSome).map Milestone.code ++
        (toldAnswer p elapsed expression values tree).events.map Log.Event.code := by
  have hchronicle := chronicle_toldTree p expression found
  rw [htree] at hchronicle
  cases hchronicle with
  | completed h => rw [told, Log.Logged.andThen_of_ok htree, List.map_append, Milestone.map_code_eq h]

end Pipeline

end BoolCalc
