import BoolCalc.Proofs.Batch.Workers

namespace BoolCalc.Batch

/-!
# Orders of the steps of workers

* `Pool.Reaches` : some steps of the workers lead from one pool to another;
* `Interleaving` : what finishes a pool does so by steps of its workers, in some order;
* `Pool.reaches_complete`, `Pool.reaches_completeCrew` : a worker by itself sees to a request, and to all its
  requests;
* `interleaving_inTurn` : the workers one after another are such an order.
-/

namespace Pool

/-- Some steps of the workers lead from `pool` to `pool'`. -/
def Reaches (pool pool' : Pool) : Prop := ∃ schedule, pool.run schedule = pool'

variable {pool pool' : Pool} {c : Crew} {j : Nat} {queue : List (Nat × Request)} {w : Worker Outcome}
  {request : Option String}

theorem Reaches.refl (pool : Pool) : pool.Reaches pool := ⟨[], rfl⟩

theorem Reaches.trans {pool'' : Pool} (h : pool.Reaches pool') (h' : pool'.Reaches pool'') :
    pool.Reaches pool'' := by
  obtain ⟨schedule, rfl⟩ := h
  obtain ⟨schedule', rfl⟩ := h'
  exact ⟨schedule ++ schedule', List.foldl_append⟩

theorem reaches_step (pool : Pool) (j : Nat) : pool.Reaches (pool.step j) := ⟨[j], rfl⟩

/-! ### A request -/

/-- One step of the worker with the number `j`, and then its request from there to the end, `hrest`, are the whole
request. -/
theorem reaches_complete_of_step (h : pool.crews[j]? = some { current := some w, queue, request })
    (hnone : w.result? = none)
    (hsame : ({ pool with memory := (w.step pool.memory).2 } : Pool).complete (w.step pool.memory).1 =
      pool.complete w)
    (hrest : ∀ pool' : Pool,
      pool'.crews[j]? = some { current := some (w.step pool.memory).1, queue, request } →
      pool'.Reaches { (pool'.complete (w.step pool.memory).1).2 with
        crews := pool'.crews.set j { queue, request := (pool'.complete (w.step pool.memory).1).1 } }) :
    pool.Reaches { (pool.complete w).2 with
      crews := pool.crews.set j { queue, request := (pool.complete w).1 } } := by
  have hlt := (List.getElem?_eq_some_iff.1 h).1
  have hstep := pool.reaches_step j
  rw [step_of_some h, advance_of_none hnone] at hstep
  have hend := hrest { pool with
    crews := pool.crews.set j { current := some (w.step pool.memory).1, queue, request }
    memory := (w.step pool.memory).2 } (List.getElem?_set_self hlt)
  rw [List.set_set] at hend
  rw [← hsame]
  exact hstep.trans hend

/-- The worker with the number `j` by itself sees to the request under way from beginning to end. -/
theorem reaches_complete (pool : Pool) (work : Work Outcome) (mark : Option String)
    (h : pool.crews[j]? = some { current := some ⟨work, mark⟩, queue, request }) :
    pool.Reaches { (pool.complete ⟨work, mark⟩).2 with
      crews := pool.crews.set j { queue, request := (pool.complete ⟨work, mark⟩).1 } } := by
  -- By induction on what is left of the request; a step of it changes no more than the memory.
  induction work generalizing pool mark with
  | done o =>
    -- The last step hands in the outcome.
    have hstep := pool.reaches_step j
    rw [step_of_some h, advance_of_result rfl] at hstep
    exact hstep
  | log e next ih => exact reaches_complete_of_step h rfl rfl fun _ h => ih _ mark h
  | exchange r next ih => exact reaches_complete_of_step h rfl rfl fun _ h => ih mark _ r h
  | find key next ih => exact reaches_complete_of_step h rfl rfl fun _ h => ih _ _ mark h
  | keep key tree next ih => exact reaches_complete_of_step h rfl rfl fun _ h => ih _ _ mark h

/-! ### All requests of a worker -/

/-- `completeCrew` sees to the first of the requests to come, and then to the others. -/
theorem completeCrew_cons {index : Nat} {r : Request} :
    pool.completeCrew { queue := (index, r) :: queue, request } =
      let begun := pool.complete { work := evaluateOne pool.preferences pool.elapsed index r, request }
      begun.2.completeCrew { queue, request := begun.1 } :=
  rfl

/-- What `completeCrew` does for one worker does not depend on the others. -/
theorem completeCrew_withCrews (pool : Pool) (c : Crew) (crews : List Crew) :
    ({ pool with crews } : Pool).completeCrew c =
      ((pool.completeCrew c).1, { (pool.completeCrew c).2 with crews }) := by
  have hqueue : ∀ (queue : List (Nat × Request)) (request : Option String) (pool : Pool),
      ({ pool with crews } : Pool).completeCrew { queue, request } =
        ((pool.completeCrew { queue, request }).1,
          { (pool.completeCrew { queue, request }).2 with crews }) := by
    intro queue
    induction queue with
    | nil => exact fun _ _ => rfl
    | cons x queue ih =>
      obtain ⟨index, r⟩ := x
      intro request pool
      exact ih _ (pool.complete { work := evaluateOne pool.preferences pool.elapsed index r, request }).2
  obtain ⟨current, queue, request⟩ := c
  cases current with
  | none => exact hqueue queue request pool
  | some w => exact hqueue queue _ (pool.complete w).2

/-- The worker with the number `j` by itself sees to the requests still to come. -/
theorem reaches_completeQueue (pool : Pool) (h : pool.crews[j]? = some { queue, request }) :
    pool.Reaches { (pool.completeCrew { queue, request }).2 with
      crews := pool.crews.set j (pool.completeCrew { queue, request }).1 } := by
  induction queue generalizing pool request with
  | nil =>
    obtain ⟨hlt, hj⟩ := List.getElem?_eq_some_iff.1 h
    have hsame : pool.crews.set j { queue := [], request } = pool.crews := by
      rw [← hj, List.set_getElem_self]
    show pool.Reaches { pool with crews := pool.crews.set j { queue := [], request } }
    rw [hsame]
    exact .refl pool
  | cons x rest ih =>
    -- The first request is begun and seen to; then the others.
    obtain ⟨index, r⟩ := x
    have hlt := (List.getElem?_eq_some_iff.1 h).1
    have hbegin := pool.reaches_step j
    rw [step_of_some h] at hbegin
    have hcomplete := reaches_complete { pool with
      crews := pool.crews.set j
        { current := some { work := evaluateOne pool.preferences pool.elapsed index r, request },
          queue := rest, request } }
      _ request (List.getElem?_set_self hlt)
    rw [List.set_set] at hcomplete
    have hrest := ih { (pool.complete
        { work := evaluateOne pool.preferences pool.elapsed index r, request }).2 with
      crews := pool.crews.set j { queue := rest, request := (pool.complete
        { work := evaluateOne pool.preferences pool.elapsed index r, request }).1 } }
      (List.getElem?_set_self hlt)
    rw [List.set_set, completeCrew_withCrews] at hrest
    rw [completeCrew_cons]
    exact (hbegin.trans hcomplete).trans hrest

/-- The worker with the number `j` by itself sees to all its requests. -/
theorem reaches_completeCrew (h : pool.crews[j]? = some c) :
    pool.Reaches { (pool.completeCrew c).2 with
      crews := pool.crews.set j (pool.completeCrew c).1 } := by
  obtain ⟨current, queue, request⟩ := c
  cases current with
  | none => exact reaches_completeQueue pool h
  | some w =>
    have hlt := (List.getElem?_eq_some_iff.1 h).1
    have hcomplete := reaches_complete pool w.work w.request h
    have hqueue := reaches_completeQueue { (pool.complete w).2 with
        crews := pool.crews.set j { queue, request := (pool.complete w).1 } }
      (List.getElem?_set_self hlt)
    rw [List.set_set, completeCrew_withCrews] at hqueue
    exact hcomplete.trans hqueue

/-! ### All workers -/

theorem completeCrews_cons (pool : Pool) (c : Crew) (todo : List Crew) :
    pool.completeCrews (c :: todo) =
      ((pool.completeCrew c).1 :: ((pool.completeCrew c).2.completeCrews todo).1,
        ((pool.completeCrew c).2.completeCrews todo).2) :=
  rfl

theorem completeCrews_withCrews (pool : Pool) (todo crews : List Crew) :
    ({ pool with crews } : Pool).completeCrews todo =
      ((pool.completeCrews todo).1, { (pool.completeCrews todo).2 with crews }) := by
  induction todo generalizing pool with
  | nil => rfl
  | cons c todo ih => rw [completeCrews_cons, completeCrews_cons, completeCrew_withCrews, ih]

theorem isFinished_completeCrew (pool : Pool) (c : Crew) : (pool.completeCrew c).1.isFinished = true := rfl

theorem all_isFinished_completeCrews (pool : Pool) (todo : List Crew) :
    (pool.completeCrews todo).1.all Crew.isFinished = true := by
  induction todo generalizing pool with
  | nil => rfl
  | cons c todo ih =>
    rw [completeCrews_cons, List.all_cons, isFinished_completeCrew, Bool.true_and]
    exact ih (pool.completeCrew c).2

/-- The workers `todo` one after another see to all their requests, when those in `done` have done so. -/
theorem reaches_completeCrews (pool : Pool) (done todo : List Crew) (h : pool.crews = done ++ todo) :
    pool.Reaches { (pool.completeCrews todo).2 with
      crews := done ++ (pool.completeCrews todo).1 } := by
  induction todo generalizing pool done with
  | nil =>
    show pool.Reaches { pool with crews := done ++ [] }
    rw [← h]
    exact .refl pool
  | cons c todo ih =>
    have hc : pool.crews[done.length]? = some c := by
      rw [h, List.getElem?_append_right (Nat.le_refl _), Nat.sub_self, List.getElem?_cons_zero]
    -- The crew at the place `done.length` is the first of `todo`.
    have hset : pool.crews.set done.length (pool.completeCrew c).1 =
        done ++ [(pool.completeCrew c).1] ++ todo := by
      rw [h, List.set_append_right _ _ (Nat.le_refl _), Nat.sub_self, List.set_cons_zero, List.append_cons]
    have hfirst := reaches_completeCrew hc
    rw [hset] at hfirst
    rw [completeCrews_cons, List.append_cons]
    refine hfirst.trans ?_
    have hrest := ih { (pool.completeCrew c).2 with
      crews := done ++ [(pool.completeCrew c).1] ++ todo } _ rfl
    rw [completeCrews_withCrews] at hrest
    exact hrest

end Pool

/-- What finishes a pool of at most `limit` workers by steps of these workers, in whatever order. -/
def Interleaving (limit : Nat) (finish : Pool → Pool) : Prop :=
  ∀ pool : Pool, pool.crews.length ≤ limit → pool.Reaches (finish pool) ∧ (finish pool).isFinished = true

/-- Finishing the workers in turn, as `Pool.inTurn` does, is one of the orders. -/
theorem interleaving_inTurn (limit : Nat) : Interleaving limit Pool.inTurn := by
  intro pool _
  constructor
  · exact Pool.reaches_completeCrews pool [] pool.crews rfl
  · exact Pool.all_isFinished_completeCrews pool pool.crews

end BoolCalc.Batch
