import BoolCalc.Proofs.Pipeline.Contract
import Mathlib.Data.List.Count

namespace BoolCalc.Pipeline

/-!
# Calls that share a cache

* `Call`, `Answer`, `Call.work` : a compile or evaluate call of some evaluator, and its steps;
* `Call.alone` : the answer of an evaluator with the same preferences and no cache;
* `Session`, `Session.run` : calls under way at the same time, and their steps in any order;
* `Session.Upholds` : the invariant, a sound cache and calls under their contracts;
* `Session.upholds_run` : the invariant after any steps;
* `answer?_run` : **transparency**, the cache changes no answer.
-/

/-! ### Calls -/

inductive Call where
  | compile (preferences : Preferences) (expression : String)
  | evaluate (preferences : Preferences) (elapsed : Nat) (expression values : String)
  deriving DecidableEq, Repr, Inhabited

/-- The answer to a `Call`. -/
inductive Answer where
  | tree (result : Except PipelineError Expr)
  | response (result : Except PipelineError Response)
  deriving DecidableEq, Repr, Inhabited

namespace Call

def preferences : Call → Preferences
  | .compile p _ | .evaluate p _ _ _ => p

def expression : Call → String
  | .compile _ expression | .evaluate _ _ expression _ => expression

/-- The steps of the call, as `Work`. -/
def work : Call → Work Answer
  | .compile p expression =>
    (Pipeline.compile p expression).bind fun r => .done (.tree (r.map TreeObject.tree))
  | .evaluate p elapsed expression values =>
    (Pipeline.evaluate p elapsed expression values).bind fun r => .done (.response r)

/-- The answer to the call when it is run without a cache. -/
def alone (call : Call) : Answer := (call.work.run none {}).1

/-- The `CacheKey` that the call is about. -/
def key (call : Call) : CacheKey := Pipeline.keyOf call.preferences call.expression

/-- The answer without any steps: `treeOf` or `answerOf`. -/
def answer : Call → Answer
  | .compile p expression => .tree (Pipeline.treeOf p expression)
  | .evaluate p _ expression values => .response (Pipeline.answerOf p expression values)

/-- The contract of a call: about its `key`, it comes to `answer` in eight steps. -/
theorem meets_work (call : Call) : call.work.Meets call.key (· = call.answer) 8 := by
  cases call with
  | compile p expression =>
    have h := (Pipeline.meets_compile p expression).mono (n := 8) (by decide)
    exact h.bind (n := 0) fun r hr => .done (congrArg Answer.tree hr)
  | evaluate p elapsed expression values =>
    have h := Pipeline.meets_evaluate p elapsed expression values
    exact h.bind (n := 0) fun r hr => .done (congrArg Answer.response hr)

/-- Without a cache the call comes to `answer`. -/
theorem alone_eq_answer (call : Call) : call.alone = call.answer :=
  (Work.meets_run call.meets_work (m := {}) nofun none).1

/-- An expression that cannot be compiled without a cache has no `reading`. -/
theorem reading_key_of_error {call : Call} {err : PipelineError}
    (h : ((Pipeline.compile call.preferences call.expression).run none {}).1 = .error err) :
    call.key.reading = .error err := by
  have hrun := Work.meets_run (Pipeline.meets_compile call.preferences call.expression) (m := {})
    nofun none
  rw [h] at hrun
  exact hrun.1.symm

end Call

/-! ### Sessions -/

/-- Calls under way, each with its `Worker`, and the memory they share. -/
structure Session where
  workers : List (Worker Answer)
  memory : Memory

namespace Session

/-- Calls at their beginnings that share an empty cache of the `capacity`, or have none. -/
def start (capacity : Option Nat) (calls : List Call) : Session where
  workers := calls.map fun call => { work := call.work }
  memory := { cache := capacity.map TreeCache.ofCapacity }

/-- The next step of the call `k`. If there is no such call, nothing happens. -/
def step (s : Session) (k : Nat) : Session :=
  match s.workers[k]? with
  | none => s
  | some w =>
    let (w, memory) := w.step s.memory
    { workers := s.workers.set k w, memory }

/-- The steps of the calls in the order of the `schedule`. -/
def run (s : Session) (schedule : List Nat) : Session := schedule.foldl step s

/-- The answer to the call `k`, if it has come to its end. -/
def answer? (s : Session) (k : Nat) : Option Answer := s.workers[k]?.bind Worker.result?

/-- The invariant of a session: the cache is sound, and each of the `calls` is under its contract, with `left k`
steps to its end at most. -/
structure Upholds (calls : List Call) (left : Nat → Nat) (s : Session) : Prop where
  sound : s.memory.Sound
  present : s.workers.length = calls.length
  meets : ∀ (k : Nat) (w : Worker Answer) (call : Call), s.workers[k]? = some w →
    calls[k]? = some call → w.work.Meets call.key (· = call.answer) (left k)

variable {calls : List Call} {left : Nat → Nat} {s : Session}

/-- `start` has the invariant, with eight steps left to each call. -/
theorem upholds_start (capacity : Option Nat) (calls : List Call) :
    (start capacity calls).Upholds calls fun _ => 8 where
  sound := by
    intro key o ho
    cases capacity <;> cases ho
  present := List.length_map _
  meets := by
    intro k w call hw hcall
    rw [start, List.getElem?_map, hcall] at hw
    cases hw
    exact call.meets_work

/-- **One step** keeps the invariant, and leaves one step less to the call `j` that took it. -/
theorem Upholds.step (h : s.Upholds calls left) (j : Nat) :
    (s.step j).Upholds calls fun k => if k = j then left k - 1 else left k := by
  unfold Session.step
  split
  · -- There is no such call.
    rename_i hnone
    refine ⟨h.sound, h.present, ?_⟩
    intro k w call hw hcall
    have hne : k ≠ j := by
      rintro rfl
      cases hnone.symm.trans hw
    rw [if_neg hne]
    exact h.meets k w call hw hcall
  · rename_i v hv
    have hlt : j < calls.length := h.present ▸ (List.getElem?_eq_some_iff.1 hv).1
    have hj := List.getElem?_eq_getElem hlt
    obtain ⟨hmeets, hsound⟩ := Worker.meets_step (h.meets j v calls[j] hv hj) h.sound
    refine ⟨hsound, by rw [List.length_set, h.present], ?_⟩
    intro k w call hw hcall
    by_cases hk : k = j
    · -- The call that took the step.
      subst hk
      rw [List.getElem?_set_self (h.present ▸ hlt)] at hw
      cases hw
      obtain rfl : calls[k] = call := Option.some.inj (hj.symm.trans hcall)
      rwa [if_pos rfl]
    · -- The others are as they were, under the same contract on a cache that is still sound.
      rw [List.getElem?_set_ne (Ne.symm hk)] at hw
      rw [if_neg hk]
      exact h.meets k w call hw hcall

/-- **Any steps** keep the invariant: the call `k` has `schedule.count k` steps less. -/
theorem Upholds.run (h : s.Upholds calls left) (schedule : List Nat) :
    (s.run schedule).Upholds calls fun k => left k - schedule.count k := by
  induction schedule generalizing s left with
  | nil => exact h
  | cons j schedule ih =>
    have hrun := ih (h.step j)
    rw [left_sub_count] at hrun
    exact hrun

/-- The invariant after `schedule`, for a session from its start. -/
theorem upholds_run (capacity : Option Nat) (calls : List Call) (schedule : List Nat) :
    ((start capacity calls).run schedule).Upholds calls fun k => 8 - schedule.count k :=
  (upholds_start capacity calls).run schedule

/-- Under the invariant, an answer to `call` is `call.answer`. -/
theorem Upholds.eq_answer (h : s.Upholds calls left) {k : Nat} {call : Call}
    (hk : calls[k]? = some call) {a : Answer} (ha : s.answer? k = some a) : a = call.answer := by
  obtain ⟨w, hw, hresult⟩ := Option.bind_eq_some_iff.1 ha
  exact Worker.meets_result (P := (· = call.answer)) (h.meets k w call hw hk) hresult

/-- A call with `left k = 0` has its answer. -/
theorem Upholds.answer?_eq (h : s.Upholds calls left) {k : Nat} {call : Call}
    (hk : calls[k]? = some call) (hleft : left k = 0) : s.answer? k = some call.answer := by
  have hlt : k < s.workers.length := h.present ▸ (List.getElem?_eq_some_iff.1 hk).1
  have hw := List.getElem?_eq_getElem hlt
  have hmeets := h.meets k _ call hw hk
  rw [hleft] at hmeets
  obtain ⟨a, ha⟩ := Worker.exists_result hmeets
  have hanswer : s.answer? k = some a := by rw [answer?, hw, Option.bind_some, ha]
  rw [hanswer, h.eq_answer hk hanswer]

/-- A step of a call whose `key` has no `reading` leaves the cache as it is. -/
theorem Upholds.cache_step (h : s.Upholds calls left) {k : Nat} {call : Call}
    (hk : calls[k]? = some call) {err : PipelineError} (herr : call.key.reading = .error err) :
    (s.step k).memory.cache = s.memory.cache := by
  unfold Session.step
  split
  · rfl
  · rename_i w hw
    exact Worker.cache_step (h.meets k w call hw hk) herr

end Session

/-- **Transparency.** Let calls share a cache of any `capacity`, empty at first, and take their steps in the order
of any `schedule`.
* An answer to `call` is `call.alone`, that of an evaluator with the same preferences and no cache.
* After eight steps of its own the call has its answer.
* If its expression cannot be compiled, none of its steps changes the cache. -/
theorem answer?_run (capacity : Nat) (calls : List Call) (schedule : List Nat) (k : Nat) (call : Call)
    (hk : calls[k]? = some call) :
    let s := (Session.start (some capacity) calls).run schedule
    (∀ a, s.answer? k = some a → a = call.alone) ∧
    (8 ≤ schedule.count k → s.answer? k = some call.alone) ∧
    (∀ err, ((Pipeline.compile call.preferences call.expression).run none {}).1 = .error err →
      (s.step k).memory.cache = s.memory.cache) := by
  have h := Session.upholds_run (some capacity) calls schedule
  refine ⟨?_, ?_, ?_⟩
  · intro a ha
    rw [call.alone_eq_answer]
    exact h.eq_answer hk ha
  · intro hcount
    rw [call.alone_eq_answer]
    exact h.answer?_eq hk (Nat.sub_eq_zero_of_le hcount)
  · intro err herr
    exact h.cache_step hk (Call.reading_key_of_error herr)

/-- `!a` in both dialects, of which only the first has `!`. -/
def dialects : List Call :=
  [.compile { lexical := { acceptBang := true } } "!a",
    .compile { lexical := { acceptBang := false } } "!a"]

/-- The two `dialects` in turns, on a cache for one tree. -/
theorem answer?_run_dialects :
    let s := (Session.start (some 1) dialects).run (List.replicate 8 [0, 1]).flatten
    dialects[1]? = some (.compile { lexical := { acceptBang := false } } "!a") ∧
    8 ≤ ((List.replicate 8 [0, 1]).flatten).count 1 ∧
    s.answer? 1 = some (Call.compile { lexical := { acceptBang := false } } "!a").alone ∧
    ((Pipeline.compile { lexical := { acceptBang := false } } "!a").run none {}).1 =
      .error (.lex (.invalidCharacter '!' 0 1 1)) ∧
    (s.step 1).memory.cache = s.memory.cache := by
  have h := answer?_run 1 dialects (List.replicate 8 [0, 1]).flatten 1 _ rfl
  have herr : ((Pipeline.compile { lexical := { acceptBang := false } } "!a").run none {}).1 =
      .error (.lex (.invalidCharacter '!' 0 1 1)) := by decide +kernel
  exact ⟨rfl, by decide, h.2.1 (by decide), herr, h.2.2 _ herr⟩

end BoolCalc.Pipeline
