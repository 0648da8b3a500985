import BoolCalc.Batch.Pool
import BoolCalc.Proofs.Pipeline.Contract

namespace BoolCalc

/-!
# Workers that share a memory

* `Batch.Request.alone`, `Batch.outcomeOf` : the answer to a request on its own, and its outcome in a batch;
* `Batch.Crew.owed` : the outcomes that a worker has still to hand in;
* `Batch.Crew.Within` : the worker does what it should, and how many steps are left to it;
* `Batch.Pool.Upholds` : the invariant of a pool: a sound memory, such workers, and no outcome lost or handed in
  twice;
* `Batch.Pool.Upholds.step`, `Batch.Pool.Upholds.run` : the invariant after one step and after any steps;
* `Batch.Pool.Upholds.perm_handedIn` : what finished workers have handed in.
-/

theorem Pipeline.sound_ownMemory (p : Preferences) : (Pipeline.ownMemory p).Sound := by
  intro key o ho
  unfold Memory.find? ownMemory at ho
  split at ho <;> cases ho

namespace Batch

variable {p : Preferences} {elapsed index j n : Nat} {c : Crew} {pool : Pool} {r : Request}

/-! ### Requests on their own -/

/-- The answer to `r` when it is evaluated on its own, in `Pipeline.ownMemory`. -/
def Request.alone (p : Preferences) (r : Request) : Except PipelineError Response :=
  ((Pipeline.evaluate p 0 r.expression r.values).run none (Pipeline.ownMemory p)).1

/-- The outcome of the request in the place `index`, if it is evaluated on its own. -/
def outcomeOf (p : Preferences) : Nat × Request → Outcome
  | (index, r) => ⟨index, r.name index, r.alone p⟩

/-- On its own, a request has the answer of `Pipeline.answerOf`. -/
theorem Request.alone_eq (p : Preferences) (r : Request) :
    r.alone p = Pipeline.answerOf p r.expression r.values :=
  (Work.meets_run (Pipeline.meets_evaluate p 0 r.expression r.values) (Pipeline.sound_ownMemory p) none).1

/-- The contract of `evaluateOne`: in at most `10` steps it comes to `outcomeOf p (index, r)`, in any sound memory.
The mark of its events is set before and put back behind it. -/
theorem meets_evaluateOne (p : Preferences) (elapsed index : Nat) (r : Request) :
    (evaluateOne p elapsed index r).Meets (Pipeline.keyOf p r.expression) (· = outcomeOf p (index, r)) 10 := by
  have hevaluate := Pipeline.meets_evaluate p elapsed r.expression r.values
  have hmarked : ((Pipeline.evaluate p elapsed r.expression r.values).forRequest (r.name index)).Meets
      (Pipeline.keyOf p r.expression) (· = r.alone p) 10 := by
    rw [r.alone_eq]
    refine .exchange fun old => hevaluate.bind (n := 1) ?_
    rintro _ rfl
    exact .exchange fun _ => .done rfl
  refine hmarked.bind (n := 0) ?_
  rintro _ rfl
  exact .done rfl

/-! ### One worker -/

/-- The outcomes that the worker `c` has still to hand in: that of `current`, and those of `queue`. -/
def Crew.owed (p : Preferences) (c : Crew) : List Outcome :=
  (c.current.map fun w => (w.work.run none {}).1).toList ++ c.queue.map (outcomeOf p)

/-- The request under way comes to one outcome, whatever the others do, and the worker has seen to all its
requests after `n` steps at most. A request takes twelve steps: one to begin it, ten for its evaluation, and one to
hand in the outcome. -/
inductive Crew.Within : Nat → Crew → Prop where
  | idle {n : Nat} {queue : List (Nat × Request)} {request : Option String} :
      12 * queue.length ≤ n → Within n { queue, request }
  | busy {n m : Nat} {w : Worker Outcome} {queue : List (Nat × Request)} {request : Option String}
      {key : CacheKey} {o : Outcome} :
      w.work.Meets key (· = o) m → m + 1 + 12 * queue.length ≤ n →
      Within n { current := some w, queue, request }

/-- A worker with a request under way owes its outcome `o` first. -/
theorem Crew.owed_busy {w : Worker Outcome} {queue : List (Nat × Request)} {request : Option String}
    {key : CacheKey} {o : Outcome} (h : w.work.Meets key (· = o) n) :
    Crew.owed p { current := some w, queue, request } = o :: queue.map (outcomeOf p) := by
  -- Under its contract the request comes to the same outcome in every sound memory, so also in an empty one.
  have hrun := (Work.meets_run h (m := {}) nofun none).1
  rw [← hrun]
  rfl

/-- A crew with no steps left `isFinished`. -/
theorem Crew.Within.isFinished (h : c.Within 0) : c.isFinished = true := by
  cases h with
  | @idle queue _ hle =>
    cases queue with
    | nil => rfl
    | cons x rest =>
      rw [List.length_cons] at hle
      omega
  | busy _ hle => omega

theorem Crew.owed_of_isFinished (h : c.isFinished = true) : c.owed p = [] := by
  obtain ⟨current, queue, request⟩ := c
  simp only [isFinished, Bool.and_eq_true, Option.isNone_iff_eq_none, List.isEmpty_iff] at h
  obtain ⟨rfl, rfl⟩ := h
  rfl

/-- A worker whose computation has come to `o` hands it in. -/
theorem Pool.advance_of_result {w : Worker Outcome} {o : Outcome} {queue : List (Nat × Request)}
    {request : Option String} (h : w.result? = some o) :
    pool.advance { current := some w, queue, request } =
      ({ queue, request := w.request }, { pool with handedIn := o :: pool.handedIn }) := by
  simp only [advance, h]

/-- A crew whose worker has no result yet goes on with this worker. -/
theorem Pool.advance_of_none {w : Worker Outcome} {queue : List (Nat × Request)} {request : Option String}
    (h : w.result? = none) :
    pool.advance { current := some w, queue, request } =
      ({ current := some (w.step pool.memory).1, queue, request },
        { pool with memory := (w.step pool.memory).2 }) := by
  simp only [advance, h]

/-- The step of one worker leaves `crews` alone. -/
theorem Pool.crews_advance : (pool.advance c).2.crews = pool.crews := by
  unfold advance
  repeat' split
  all_goals rfl

theorem Pool.preferences_advance : (pool.advance c).2.preferences = pool.preferences := by
  unfold advance
  repeat' split
  all_goals rfl

/-- **One step of a worker.** If the crew is `Within n`, `advance` leaves it within `n - 1`, and the memory `Sound`.
An outcome that is no longer owed has been handed in. -/
theorem Crew.Within.advance (h : c.Within n) (hm : pool.memory.Sound) :
    (pool.advance c).1.Within (n - 1) ∧ (pool.advance c).2.memory.Sound ∧
      ((pool.advance c).2.handedIn ++ (pool.advance c).1.owed pool.preferences).Perm
        (pool.handedIn ++ c.owed pool.preferences) := by
  cases h with
  | @idle queue request hle =>
    cases queue with
    | nil => exact ⟨.idle (Nat.zero_le _), hm, .refl _⟩
    | cons x rest =>
      -- The worker begins its next request.
      obtain ⟨index, r⟩ := x
      rw [List.length_cons] at hle
      have hmeets := meets_evaluateOne pool.preferences pool.elapsed index r
      refine ⟨.busy hmeets (by omega), hm, ?_⟩
      show (pool.handedIn ++ owed pool.preferences { current := some _, queue := rest, request }).Perm _
      rw [owed_busy (w := { work := evaluateOne pool.preferences pool.elapsed index r, request }) hmeets]
      exact .refl _
  | @busy m w queue _ key o hmeets hle =>
    rw [owed_busy hmeets]
    cases hresult : w.result? with
    | some o' =>
      -- What it hands in is what it owed.
      obtain rfl : o' = o := Worker.meets_result (P := (· = o)) hmeets hresult
      rw [Pool.advance_of_result hresult]
      exact ⟨.idle (by omega), hm, List.perm_middle.symm⟩
    | none =>
      -- The request goes on under its contract, to the same outcome.
      obtain ⟨hnext, hsound⟩ := Worker.meets_step hmeets hm
      have hpos : m ≠ 0 := by
        rintro rfl
        obtain ⟨o', ho'⟩ := Worker.exists_result hmeets
        cases hresult.symm.trans ho'
      rw [Pool.advance_of_none hresult]
      refine ⟨.busy hnext (by omega), hsound, ?_⟩
      rw [owed_busy hnext]

/-! ### A pool -/

/-- The item `x` is replaced by `y`, and what `f` gives for `x` is divided between `f y` and the output. -/
theorem perm_flatMap_set {α β : Type} {f : α → List β} {xs : List α} {x y : α} {out out' : List β}
    (hx : xs[j]? = some x) (h : (out' ++ f y).Perm (out ++ f x)) :
    (out' ++ (xs.set j y).flatMap f).Perm (out ++ xs.flatMap f) := by
  obtain ⟨hlt, rfl⟩ := List.getElem?_eq_some_iff.1 hx
  obtain ⟨front, back, hxs, -, hset⟩ : ∃ front back, xs = front ++ xs[j] :: back ∧ front.length = j ∧
    xs.set j y = front ++ y :: back := List.exists_of_set hlt
  have hmove : ∀ out z, (out ++ (front ++ z :: back).flatMap f).Perm (out ++ f z ++ (front ++ back).flatMap f) := by
    intro out z
    rw [List.flatMap_append, List.flatMap_cons, List.flatMap_append, List.append_assoc out]
    exact (List.perm_append_comm_assoc _ _ _).append_left out
  have hparts : xs.flatMap f = (front ++ xs[j] :: back).flatMap f := congrArg (List.flatMap f) hxs
  rw [hset, hparts]
  exact ((hmove out' y).trans (h.append_right _)).trans (hmove out xs[j]).symm

namespace Pool

variable {total : List Outcome} {left : Nat → Nat}

/-- The invariant of a pool: the memory is sound, each worker does what it should with `left k` steps to its end
at most, and the outcomes handed in and those still owed are those of all requests. -/
structure Upholds (p : Preferences) (total : List Outcome) (left : Nat → Nat) (pool : Pool) : Prop where
  preferences : pool.preferences = p
  sound : pool.memory.Sound
  /-- Each worker has at most `left k` steps to its end. -/
  within : ∀ (k : Nat) (c : Crew), pool.crews[k]? = some c → c.Within (left k)
  all : (pool.handedIn ++ pool.crews.flatMap (Crew.owed p)).Perm total

/-- Workers begin with the invariant, each with a slice of the requests and `12` steps for each request. -/
theorem upholds_start (p : Preferences) (elapsed : Nat) {memory : Memory} (hm : memory.Sound)
    {slices : List (List (Nat × Request))} (hlength : ∀ slice ∈ slices, 12 * slice.length ≤ n) :
    Upholds p (slices.flatten.map (outcomeOf p)) (fun _ => n)
      { preferences := p, elapsed, crews := slices.map fun slice => { queue := slice }, memory } where
  preferences := rfl
  sound := hm
  within := by
    intro k c hc
    rw [List.getElem?_map] at hc
    obtain ⟨slice, hslice, rfl⟩ := Option.map_eq_some_iff.1 hc
    exact .idle (hlength slice (List.mem_of_getElem? hslice))
  all := by
    have howed : (slices.map fun slice => ({ queue := slice } : Crew)).flatMap (Crew.owed p) =
        slices.flatten.map (outcomeOf p) := by
      rw [List.flatMap_map, List.map_flatten, List.flatMap_def]
      rfl
    rw [howed]
    exact .refl _

theorem step_of_none (h : pool.crews[j]? = none) : pool.step j = pool := by
  rw [step, h]

theorem step_of_some (h : pool.crews[j]? = some c) : pool.step j =
    { (pool.advance c).2 with crews := (pool.advance c).2.crews.set j (pool.advance c).1 } := by
  rw [step, h]

/-- **One step** keeps the invariant, and leaves one step less to the worker `j` that took it. -/
theorem Upholds.step (h : pool.Upholds p total left) (j : Nat) :
    (pool.step j).Upholds p total fun k => if k = j then left k - 1 else left k := by
  cases hc : pool.crews[j]? with
  | none =>
    -- There is no such worker.
    rw [step_of_none hc]
    refine ⟨h.preferences, h.sound, ?_, h.all⟩
    intro k d hd
    have hne : k ≠ j := by
      rintro rfl
      cases hc.symm.trans hd
    rw [if_neg hne]
    exact h.within k d hd
  | some c =>
    obtain ⟨hwithin, hsound, hperm⟩ := (h.within j c hc).advance h.sound
    -- What the worker no longer owes was handed in, so that all outcomes together are the same.
    rw [h.preferences] at hperm
    rw [step_of_some hc, crews_advance]
    refine ⟨preferences_advance.trans h.preferences, hsound, ?_, (perm_flatMap_set hc hperm).trans h.all⟩
    intro k d hd
    by_cases hk : k = j
    · subst hk
      rw [if_pos rfl]
      have hlt := (List.getElem?_eq_some_iff.1 hc).1
      rw [List.getElem?_set_self hlt] at hd
      obtain rfl := Option.some.inj hd
      exact hwithin
    · -- The other workers are as they were.
      rw [List.getElem?_set_ne (Ne.symm hk)] at hd
      rw [if_neg hk]
      exact h.within k d hd

/-- **Any steps** keep the invariant, and leave `left k - schedule.count k` steps to each worker. -/
theorem Upholds.run (h : pool.Upholds p total left) (schedule : List Nat) :
    (pool.run schedule).Upholds p total fun k => left k - schedule.count k := by
  induction schedule generalizing pool left with
  | nil => exact h
  | cons j schedule ih =>
    have hrun := ih (h.step j)
    rw [left_sub_count] at hrun
    exact hrun

/-- A pool with no steps left `isFinished`. -/
theorem Upholds.isFinished (h : pool.Upholds p total left) (hleft : ∀ k < pool.crews.length, left k = 0) :
    pool.isFinished = true := by
  rw [Pool.isFinished, List.all_eq_true]
  intro c hc
  obtain ⟨k, hk⟩ := List.mem_iff_getElem?.1 hc
  have hlt : k < pool.crews.length := (List.getElem?_eq_some_iff.1 hk).1
  have hwithin := h.within k c hk
  rw [hleft k hlt] at hwithin
  exact hwithin.isFinished

/-- **Finished workers** have handed in all outcomes in `total`, in whatever order. -/
theorem Upholds.perm_handedIn (h : pool.Upholds p total left) (hfinished : pool.isFinished = true) :
    pool.handedIn.Perm total := by
  have hnothing : pool.crews.flatMap (Crew.owed p) = [] := by
    rw [List.flatMap_eq_nil_iff]
    intro c hc
    exact Crew.owed_of_isFinished (List.all_eq_true.1 hfinished c hc)
  have hall := h.all
  rwa [hnothing, List.append_nil] at hall

theorem length_crews_run (schedule : List Nat) : (pool.run schedule).crews.length = pool.crews.length := by
  have hstep : ∀ (pool : Pool) j, (pool.step j).crews.length = pool.crews.length := by
    intro pool j
    cases hc : pool.crews[j]? with
    | none => rw [step_of_none hc]
    | some c => rw [step_of_some hc, List.length_set, crews_advance]
  induction schedule generalizing pool with
  | nil => rfl
  | cons j schedule ih => exact ih.trans (hstep pool j)

end Pool

end Batch

end BoolCalc
