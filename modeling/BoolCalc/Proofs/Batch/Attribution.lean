import Mathlib.Data.List.Nodup
import BoolCalc.Proofs.Batch.Outcomes
import BoolCalc.Proofs.Pipeline.Always

namespace BoolCalc.Batch

/-!
# Whose events they are

* `Reports` : the events that a request in a place of the batch reports;
* `share`, `Attributed` : events with the places of their requests; in the share of each place there are the events that
  its request reports;
* `Crew.Accounts` : what a worker has reported of its slice of a chunk, and what it still will report;
* `Pool.Accounts` : the invariant of a pool, each event belongs to a request of one of the slices;
* `Pool.Accounts.step`, `Pool.Accounts.run` : the invariant after one step and after any steps;
* `attributed_runChunk`, `events_runChunks`, `events_sequential` : the events of a chunk, of chunks, and of requests one
  after another;
* `events_evaluateWith` : the events of a batch.
-/

variable {p : Preferences} {elapsed index : Nat} {cached : Bool} {request : Option String}

/-! ### The events of a request -/

/-- The events that the request in the place `y.1` reports: those of its evaluation, for some tree that the cache
may hold, marked with its name. -/
def Reports (p : Preferences) (elapsed : Nat) (cached : Bool) (y : Nat × Request) (events : List Log.Event) : Prop :=
  ∃ found, (Pipeline.keyOf p y.2.expression).MayHold cached found ∧
    events = (Pipeline.told p elapsed y.2.expression y.2.values found).events.map
      (·.forRequest (some (y.2.name y.1)))

/-- The evaluation of the request `r` reports its events, and puts back the mark `request`. -/
theorem always_evaluateOne (request : Option String) (p : Preferences) (elapsed index : Nat) (r : Request) :
    (evaluateOne p elapsed index r).Always cached request fun events mark _ =>
      mark = request ∧ Reports p elapsed cached (index, r) events := by
  refine Work.always_bind ?_
  -- The first step sets the mark, and the last one puts it back.
  refine Work.always_bind ((Pipeline.always_evaluate p elapsed r.expression r.values).mono ?_)
  rintro events mark result ⟨-, found, hfound, hevents⟩
  refine ⟨rfl, found, hfound, ?_⟩
  rw [List.append_nil, List.append_nil]
  exact hevents

/-! ### Events with places -/

/-- The events of the place `i`, in order. -/
def share (labelled : List (Nat × Log.Event)) (i : Nat) : List Log.Event :=
  (labelled.filter (·.1 = i)).map Prod.snd

variable {labelled new : List (Nat × Log.Event)} {i : Nat}

theorem share_append (labelled new : List (Nat × Log.Event)) (i : Nat) :
    share (labelled ++ new) i = share labelled i ++ share new i := by
  rw [share, List.filter_append, List.map_append]
  rfl

/-- If no label is `i`, the share of `i` is empty. -/
theorem share_of_forall_ne (h : ∀ x ∈ labelled, x.1 ≠ i) : share labelled i = [] := by
  rw [share, List.filter_eq_nil_iff.2 fun x hx => by simp [h x hx]]
  rfl

/-- The share of the place `i` in events that are all of this place. -/
theorem share_label (i : Nat) (events : List Log.Event) : share (events.map (i, ·)) i = events := by
  rw [share, List.filter_eq_self.2 (by simp), List.map_map]
  exact List.map_id events

/-- More events of other places than `i`. -/
theorem share_append_of_forall_ne (labelled : List (Nat × Log.Event)) (h : ∀ x ∈ new, x.1 ≠ i) :
    share (labelled ++ new) i = share labelled i := by
  rw [share_append, share_of_forall_ne h, List.append_nil]

/-- The `events` belong to the requests, and each request reports its share. This is stated with labels, the places,
since two requests may have one name. -/
def Attributed (p : Preferences) (elapsed : Nat) (cached : Bool) (requests : List (Nat × Request))
    (events : List Log.Event) : Prop :=
  ∃ labelled : List (Nat × Log.Event), labelled.map Prod.snd = events ∧
    (∀ x ∈ labelled, x.1 ∈ requests.map Prod.fst) ∧ ∀ y ∈ requests, Reports p elapsed cached y (share labelled y.1)

theorem attributed_nil : Attributed p elapsed cached [] [] := ⟨[], rfl, List.forall_mem_nil _, List.forall_mem_nil _⟩

/-- The events of the request `y` alone. -/
theorem attributed_singleton {y : Nat × Request} {events : List Log.Event} (h : Reports p elapsed cached y events) :
    Attributed p elapsed cached [y] events := by
  refine ⟨events.map (y.1, ·), ?_, ?_, ?_⟩
  · rw [List.map_map]
    exact List.map_id events
  · simp
  · intro z hz
    rw [List.mem_singleton.1 hz, share_label]
    exact h

/-- `Attributed` for more requests, in other places. -/
theorem Attributed.append {requests requests' : List (Nat × Request)} {events events' : List Log.Event}
    (h : Attributed p elapsed cached requests events) (h' : Attributed p elapsed cached requests' events')
    (hne : ∀ y ∈ requests, ∀ z ∈ requests', y.1 ≠ z.1) :
    Attributed p elapsed cached (requests ++ requests') (events ++ events') := by
  obtain ⟨labelled, rfl, hplaces, hreports⟩ := h
  obtain ⟨labelled', rfl, hplaces', hreports'⟩ := h'
  refine ⟨labelled ++ labelled', List.map_append, fun x hx => ?_, fun y hy => ?_⟩
  · rw [List.map_append, List.mem_append]
    exact (List.mem_append.1 hx).imp (hplaces x) (hplaces' x)
  · rw [share_append]
    rcases List.mem_append.1 hy with hy | hy
    · have hnone : share labelled' y.1 = [] := share_of_forall_ne fun x hx heq => by
        obtain ⟨z, hz, hzx⟩ := List.mem_map.1 (hplaces' x hx)
        exact hne y hy z hz (heq.symm.trans hzx.symm)
      rw [hnone, List.append_nil]
      exact hreports y hy
    · have hnone : share labelled y.1 = [] := share_of_forall_ne fun x hx heq => by
        obtain ⟨z, hz, hzx⟩ := List.mem_map.1 (hplaces x hx)
        exact hne z hz y hy (hzx.trans heq)
      rw [hnone, List.nil_append]
      exact hreports' y hy

/-! ### One worker -/

/-- The worker `c` has reported the events of the requests of its slice that it has seen to, a part of the events of
the one under way, and nothing of those still to come. In `busy`, whatever the evaluation under way goes on to
report completes the share of `y`. -/
inductive Crew.Accounts (p : Preferences) (elapsed : Nat) (cached : Bool) (labelled : List (Nat × Log.Event)) :
    List (Nat × Request) → Crew → Prop where
  | idle {past queue : List (Nat × Request)}
      (hpast : ∀ y ∈ past, Reports p elapsed cached y (share labelled y.1))
      (hqueue : ∀ y ∈ queue, share labelled y.1 = []) :
      Accounts p elapsed cached labelled (past ++ queue) { queue }
  | busy {past queue : List (Nat × Request)} {y : Nat × Request} {w : Worker Outcome}
      (hpast : ∀ y ∈ past, Reports p elapsed cached y (share labelled y.1))
      (hnow : w.work.Always cached w.request fun events mark _ =>
        mark = none ∧ Reports p elapsed cached y (share labelled y.1 ++ events))
      (hqueue : ∀ y ∈ queue, share labelled y.1 = []) :
      Accounts p elapsed cached labelled (past ++ y :: queue) { current := some w, queue }

namespace Crew.Accounts

variable {slice : List (Nat × Request)} {c : Crew} {pool : Pool}

/-- `Accounts` depends on the shares of the slice only. -/
theorem congr {labelled' : List (Nat × Log.Event)} (h : c.Accounts p elapsed cached labelled slice)
    (hsame : ∀ y ∈ slice, share labelled' y.1 = share labelled y.1) : c.Accounts p elapsed cached labelled' slice := by
  cases h with
  | idle hpast hqueue =>
    refine .idle (fun y hy => ?_) fun y hy => ?_
    · rw [hsame y (List.mem_append_left _ hy)]
      exact hpast y hy
    · rw [hsame y (List.mem_append_right _ hy)]
      exact hqueue y hy
  | busy hpast hnow hqueue =>
    refine .busy (fun y hy => ?_) ?_ fun y hy => ?_
    · rw [hsame y (List.mem_append_left _ hy)]
      exact hpast y hy
    · rw [hsame _ (List.mem_append_right _ List.mem_cons_self)]
      exact hnow
    · rw [hsame y (List.mem_append_right _ (List.mem_cons_of_mem _ hy))]
      exact hqueue y hy

theorem congr_nil (h : c.Accounts p elapsed cached labelled slice) :
    c.Accounts p elapsed cached (labelled ++ []) slice := by
  rwa [List.append_nil]

/-- **One step of a worker.** The `new` events that it logs belong to a request of its slice. -/
theorem advance (h : c.Accounts p elapsed cached labelled slice) (hslice : (slice.map Prod.fst).Nodup)
    (hp : pool.preferences = p) (helapsed : pool.elapsed = elapsed) (hm : pool.memory.Serves cached) :
    ∃ new : List (Nat × Log.Event), (∀ x ∈ new, x.1 ∈ slice.map Prod.fst) ∧
      (pool.advance c).2.memory.events = pool.memory.events ++ new.map Prod.snd ∧
      (pool.advance c).2.memory.Serves cached ∧
      (pool.advance c).1.Accounts p elapsed cached (labelled ++ new) slice := by
  cases h with
  | @idle past queue hpast hqueue =>
    cases queue with
    | nil => exact ⟨[], List.forall_mem_nil _, (List.append_nil _).symm, hm, (idle hpast hqueue).congr_nil⟩
    | cons y rest =>
      -- The worker begins its next request, of which nothing has been reported.
      obtain ⟨index, r⟩ := y
      obtain ⟨hfirst, hrest⟩ := List.forall_mem_cons.1 hqueue
      have hnow : (evaluateOne pool.preferences pool.elapsed index r).Always cached none fun events mark _ =>
          mark = none ∧ Reports p elapsed cached (index, r) (share labelled index ++ events) := by
        rw [hfirst, hp, helapsed]
        exact always_evaluateOne none p elapsed index r
      have hbusy := busy hpast (w := { work := evaluateOne pool.preferences pool.elapsed index r, request := none })
        hnow hrest
      exact ⟨[], List.forall_mem_nil _, (List.append_nil _).symm, hm, hbusy.congr_nil⟩
  | @busy past queue y w hpast hnow hqueue =>
    cases hresult : w.result? with
    | some o =>
      -- The request has reported all its events, and its mark is gone.
      obtain ⟨hmark, hreports⟩ := Worker.always_result hnow hresult
      rw [List.append_nil] at hreports
      rw [Pool.advance_of_result hresult, hmark, List.append_cons]
      have hidle := idle (List.forall_mem_append.2 ⟨hpast, List.forall_mem_singleton.2 hreports⟩) hqueue
      exact ⟨[], List.forall_mem_nil _, (List.append_nil _).symm, hm, hidle.congr_nil⟩
    | none =>
      -- The events of the step go to the request under way, and the shares of the others stay.
      obtain ⟨events, hevents, hserves, hnext⟩ := Worker.always_step hm hnow
      have hother : ∀ z, z ∈ past ∨ z ∈ queue → ∀ x ∈ events.map (y.1, ·), x.1 ≠ z.1 := by
        rw [List.map_append, List.map_cons, List.nodup_middle, List.nodup_cons, ← List.map_append] at hslice
        intro z hz x hx heq
        obtain ⟨e, -, rfl⟩ := List.mem_map.1 hx
        exact hslice.1 (List.mem_map.2 ⟨z, List.mem_append.2 hz, heq.symm⟩)
      rw [Pool.advance_of_none hresult]
      refine ⟨events.map (y.1, ·), ?_, ?_, hserves, busy (fun z hz => ?_) ?_ fun z hz => ?_⟩
      · simp
      · rw [List.map_map]
        exact hevents.trans (congrArg _ (List.map_id events).symm)
      · rw [share_append_of_forall_ne labelled (hother z (.inl hz))]
        exact hpast z hz
      · rw [share_append, share_label]
        simp only [List.append_assoc]
        exact hnext
      · rw [share_append_of_forall_ne labelled (hother z (.inr hz))]
        exact hqueue z hz

/-- A crew that `isFinished` has reported the events of its `slice`, and its mark is gone. -/
theorem of_isFinished (h : c.Accounts p elapsed cached labelled slice) (hfinished : c.isFinished = true) :
    c.request = none ∧ ∀ y ∈ slice, Reports p elapsed cached y (share labelled y.1) := by
  cases h with
  | @idle past queue hpast hqueue =>
    simp only [isFinished, Bool.and_eq_true, List.isEmpty_iff] at hfinished
    rw [hfinished.2, List.append_nil]
    exact ⟨rfl, hpast⟩
  | busy => cases hfinished

end Crew.Accounts

/-! ### A pool -/

namespace Pool

variable {slices : List (List (Nat × Request))} {before : List Log.Event} {pool : Pool}

theorem elapsed_advance (pool : Pool) (c : Crew) : (pool.advance c).2.elapsed = pool.elapsed := by
  unfold advance
  repeat' split
  all_goals rfl

/-- The invariant of a pool of workers, each with one of the `slices`: behind the events `before`, each event is
labelled with the place of a request, and each worker accounts for its slice. -/
structure Accounts (p : Preferences) (elapsed : Nat) (cached : Bool) (before : List Log.Event)
    (slices : List (List (Nat × Request))) (labelled : List (Nat × Log.Event)) (pool : Pool) : Prop where
  preferences : pool.preferences = p
  time : pool.elapsed = elapsed
  serves : pool.memory.Serves cached
  /-- The events are those `before` and the labelled ones. -/
  events : pool.memory.events = before ++ labelled.map Prod.snd
  places : ∀ x ∈ labelled, x.1 ∈ slices.flatten.map Prod.fst
  length : pool.crews.length = slices.length
  /-- The worker with the number `k` accounts for the slice with this number. -/
  crews : ∀ (k : Nat) (slice : List (Nat × Request)) (c : Crew), slices[k]? = some slice → pool.crews[k]? = some c →
    c.Accounts p elapsed cached labelled slice

/-- A pool begins with `Accounts` for no label. -/
theorem accounts_start (p : Preferences) (elapsed : Nat) {memory : Memory} (hm : memory.Serves cached)
    (slices : List (List (Nat × Request))) :
    Accounts p elapsed cached memory.events slices []
      { preferences := p, elapsed, crews := slices.map fun slice => { queue := slice }, memory } where
  preferences := rfl
  time := rfl
  serves := hm
  events := (List.append_nil _).symm
  places := List.forall_mem_nil _
  length := List.length_map _
  crews := by
    intro k slice c hslice hc
    rw [List.getElem?_map, hslice] at hc
    cases hc
    exact .idle (List.forall_mem_nil _ : ∀ y ∈ [], _) fun _ _ => rfl

/-- If all places of `slices` are distinct, those of two slices differ. -/
theorem ne_of_slices (hnodup : (slices.flatten.map Prod.fst).Nodup) {j k : Nat} {slice slice' : List (Nat × Request)}
    (hj : slices[j]? = some slice) (hk : slices[k]? = some slice') (hne : j ≠ k) {i : Nat}
    (hi : i ∈ slice.map Prod.fst) : ∀ y ∈ slice', i ≠ y.1 := by
  rw [List.map_flatten, List.nodup_flatten, List.pairwise_map, List.pairwise_iff_getElem] at hnodup
  obtain ⟨hjlt, rfl⟩ := List.getElem?_eq_some_iff.1 hj
  obtain ⟨hklt, rfl⟩ := List.getElem?_eq_some_iff.1 hk
  rintro y hy rfl
  have hiy := List.mem_map_of_mem (f := Prod.fst) hy
  rcases Nat.lt_or_gt_of_ne hne with hlt | hlt
  · exact hnodup.2 j k hjlt hklt hlt hi hiy
  · exact hnodup.2 k j hklt hjlt hlt hiy hi

/-- **One step** keeps the invariant; the events of `pool.step j` are labelled with a place of the slice with the
number `j`. -/
theorem Accounts.step (h : pool.Accounts p elapsed cached before slices labelled)
    (hnodup : (slices.flatten.map Prod.fst).Nodup) (j : Nat) :
    ∃ labelled', (pool.step j).Accounts p elapsed cached before slices labelled' := by
  cases hc : pool.crews[j]? with
  | none =>
    rw [step_of_none hc]
    exact ⟨labelled, h⟩
  | some c =>
    have hlt := (List.getElem?_eq_some_iff.1 hc).1
    obtain ⟨slice, hslice⟩ : ∃ slice, slices[j]? = some slice :=
      ⟨_, List.getElem?_eq_getElem (h.length ▸ hlt)⟩
    have hmem := List.mem_of_getElem? hslice
    -- Distinct places in all slices are so in this one, which is all that the worker needs.
    have hplaces : (slice.map Prod.fst).Nodup := by
      rw [List.map_flatten, List.nodup_flatten] at hnodup
      exact hnodup.1 _ (List.mem_map_of_mem hmem)
    obtain ⟨new, hnew, hevents, hserves, hcrew⟩ :=
      (h.crews j slice c hslice hc).advance hplaces h.preferences h.time h.serves
    rw [step_of_some hc, crews_advance]
    refine ⟨labelled ++ new, preferences_advance.trans h.preferences, (elapsed_advance pool c).trans h.time, hserves,
      ?_, ?_, ?_, ?_⟩
    · rw [List.map_append, ← List.append_assoc, ← h.events]
      exact hevents
    · have hslices : ∀ i ∈ slice.map Prod.fst, i ∈ slices.flatten.map Prod.fst := by
        rw [List.map_flatten]
        exact fun i hi => List.mem_flatten_of_mem (List.mem_map_of_mem hmem) hi
      exact List.forall_mem_append.2 ⟨h.places, fun x hx => hslices x.1 (hnew x hx)⟩
    · rw [List.length_set]
      exact h.length
    · intro k slice' d hslice' hd
      by_cases hk : k = j
      · subst hk
        rw [List.getElem?_set_self hlt] at hd
        obtain rfl := Option.some.inj hd
        obtain rfl := Option.some.inj (hslice.symm.trans hslice')
        exact hcrew
      · -- The other workers are as they were, and none of the new events is theirs.
        rw [List.getElem?_set_ne (Ne.symm hk)] at hd
        refine (h.crews k slice' d hslice' hd).congr fun y hy => ?_
        exact share_append_of_forall_ne labelled fun x hx =>
          ne_of_slices hnodup hslice hslice' (Ne.symm hk) (hnew x hx) y hy

/-- **Any steps** keep `Accounts`. -/
theorem Accounts.run (h : pool.Accounts p elapsed cached before slices labelled)
    (hnodup : (slices.flatten.map Prod.fst).Nodup) (schedule : List Nat) :
    ∃ labelled', (pool.run schedule).Accounts p elapsed cached before slices labelled' := by
  induction schedule generalizing pool labelled with
  | nil => exact ⟨labelled, h⟩
  | cons j schedule ih =>
    obtain ⟨labelled', hstep⟩ := h.step hnodup j
    exact ih hstep

/-- **Finished workers** have reported the events of all requests in `slices`, and their marks are gone. -/
theorem Accounts.of_isFinished (h : pool.Accounts p elapsed cached before slices labelled)
    (hfinished : pool.isFinished = true) :
    (∃ events, pool.memory.events = before ++ events ∧ Attributed p elapsed cached slices.flatten events) ∧
      ∀ c ∈ pool.crews, c.request = none := by
  have hcrew {k : Nat} {slice : List (Nat × Request)} {c : Crew} (hslice : slices[k]? = some slice)
      (hc : pool.crews[k]? = some c) := (h.crews k slice c hslice hc).of_isFinished
    (List.all_eq_true.1 hfinished c (List.mem_of_getElem? hc))
  refine ⟨⟨labelled.map Prod.snd, h.events, labelled, rfl, h.places, fun y hy => ?_⟩, fun c hc => ?_⟩
  · obtain ⟨slice, hslice, hy⟩ := List.mem_flatten.1 hy
    obtain ⟨k, hk⟩ := List.mem_iff_getElem?.1 hslice
    have hlt : k < pool.crews.length := h.length ▸ (List.getElem?_eq_some_iff.1 hk).1
    exact (hcrew hk (List.getElem?_eq_getElem hlt)).2 y hy
  · obtain ⟨k, hk⟩ := List.mem_iff_getElem?.1 hc
    have hlt : k < slices.length := h.length ▸ (List.getElem?_eq_some_iff.1 hk).1
    exact (hcrew (List.getElem?_eq_getElem hlt) hk).1

end Pool

/-! ### Chunks -/

variable {c : Config} {finish : Pool → Pool} {memory : Memory}

/-- The pool that `runChunk` finishes. -/
def chunkPool (c : Config) (elapsed : Nat) (chunk : List (Nat × Request)) (memory : Memory) : Pool :=
  { preferences := c.preferences, elapsed, crews := shareOut c.threads chunk, memory }

/-- **A chunk.** If `finish` is an `Interleaving`, `runChunk` reports events that are `Attributed` to the requests
of the chunk, and leaves no mark. -/
theorem attributed_runChunk (elapsed : Nat) (hfinish : Interleaving c.threads finish) (hm : memory.Serves cached)
    {chunk : List (Nat × Request)} (hnodup : (chunk.map Prod.fst).Nodup) :
    (∃ events, (runChunk finish c elapsed chunk memory).2.events = memory.events ++ events ∧
      Attributed c.preferences elapsed cached chunk events) ∧
    (runChunk finish c elapsed chunk memory).2.Serves cached ∧
    ∀ crew ∈ (finish (chunkPool c elapsed chunk memory)).crews, crew.request = none := by
  obtain ⟨⟨schedule, hrun⟩, hfinished⟩ := hfinish (chunkPool c elapsed chunk memory)
    (length_shareOut_le c.threads_pos chunk)
  have hslices := flatten_slices c.threads_pos chunk
  have hstart : (chunkPool c elapsed chunk memory).Accounts c.preferences elapsed cached memory.events
      (chunksOf (ceilDiv chunk.length c.threads) chunk) [] := Pool.accounts_start c.preferences elapsed hm _
  obtain ⟨labelled, haccounts⟩ := hstart.run (by rwa [hslices]) schedule
  rw [hrun] at haccounts
  obtain ⟨hattributed, hmarks⟩ := haccounts.of_isFinished hfinished
  rw [hslices] at hattributed
  exact ⟨hattributed, haccounts.serves, hmarks⟩

/-- The event of a batch that stops with the `outcomes`, if it does. -/
def stopped (c : Config) (key : String) (outcomes : List Outcome) : List Log.Event :=
  if c.failFast && outcomes.any (!·.isOk) then [stopEvent key outcomes.length] else []

theorem stopped_of_true {key : String} {outcomes : List Outcome}
    (h : (c.failFast && outcomes.any (!·.isOk)) = true) : stopped c key outcomes = [stopEvent key outcomes.length] := by
  rw [stopped, if_pos h]

theorem stopped_of_none {key : String} {outcomes : List Outcome}
    (h : c.failFast = true → outcomes.any (!·.isOk) = false) : stopped c key outcomes = [] := by
  rw [stopped, if_neg]
  rw [Bool.and_eq_true]
  rintro ⟨hfast, hany⟩
  cases hany.symm.trans (h hfast)

/-- **Chunks**, up to the first with a failure if `c.failFast`. The events are those of the requests, and behind
them the one that the batch stops. -/
theorem events_runChunks (elapsed : Nat) (request : Option String) (hfinish : Interleaving c.threads finish)
    (hm : memory.Serves cached) (chunks : List (List (Nat × Request))) (hnodup : (chunks.flatten.map Prod.fst).Nodup)
    (acc : List Outcome) (hacc : c.failFast = true → acc.any (!·.isOk) = false) :
    ∃ body, Attributed c.preferences elapsed cached
        (upTo c.failFast (fun chunk => chunk.any (fails c.preferences)) chunks).flatten body ∧
      (runChunks finish c elapsed request chunks acc memory).2.events = memory.events ++ body ++
        (stopped c "processed" (runChunks finish c elapsed request chunks acc memory).1).map
          (·.forRequest request) := by
  induction chunks generalizing acc memory with
  | nil =>
    refine ⟨[], ?_, ?_⟩
    · rw [upTo_nil]
      exact attributed_nil
    · rw [runChunks, stopped_of_none hacc, List.map_nil, List.append_nil, List.append_nil]
  | cons chunk rest ih =>
    rw [List.flatten_cons, List.map_append, List.nodup_append] at hnodup
    -- Distinct places are so in this chunk, and differ from those of the chunks behind it.
    obtain ⟨hchunk, hrest, hdisjoint⟩ := hnodup
    obtain ⟨⟨events, hevents, hattributed⟩, hserves, -⟩ := attributed_runChunk elapsed hfinish hm hchunk
    have hend := failFast_and_any hacc (perm_runChunk elapsed hfinish hm.sound chunk).1
    rw [runChunks, upTo_cons, List.flatten_cons]
    dsimp only
    rw [hend]
    by_cases hstop : (chunk.any (fails c.preferences) && c.failFast) = true
    · -- The batch stops behind this chunk, with one event of its own.
      rw [if_pos hstop, if_pos hstop, stopped_of_true (hend.trans hstop), List.flatten_nil, List.append_nil]
      refine ⟨events, hattributed, ?_⟩
      rw [Memory.events_log, hevents]
      rfl
    · rw [if_neg hstop, if_neg hstop]
      obtain ⟨body, hbody, hlog⟩ := ih hserves hrest _ (any_of_not_stop hend hstop)
      refine ⟨events ++ body, hattributed.append hbody ?_, ?_⟩
      · intro y hy z hz
        obtain ⟨chunk', hchunk', hz⟩ := List.mem_flatten.1 hz
        exact hdisjoint y.1 (List.mem_map_of_mem hy) z.1
          (List.mem_map_of_mem (List.mem_flatten_of_mem (mem_of_mem_upTo hchunk') hz))
      · rw [hlog, hevents, List.append_assoc memory.events]

/-! ### One after another -/

/-- The order of the outcomes in `acc` does not matter for a failure among them. -/
theorem any_reverse_of_none {acc : List Outcome} (hacc : c.failFast = true → acc.any (!·.isOk) = false) :
    c.failFast = true → acc.reverse.any (!·.isOk) = false := by
  rw [List.any_reverse]
  exact hacc

/-- **Requests one after another**, up to the first that fails if `c.failFast`. The events are those of the
requests, and behind them the one that the batch stops. -/
theorem events_sequential (elapsed : Nat) (request : Option String) (hm : memory.Serves cached) (acc : List Outcome)
    (hacc : c.failFast = true → acc.any (!·.isOk) = false) (rs : List Request) :
    ∃ body, Attributed c.preferences elapsed cached
        (upTo c.failFast (fails c.preferences) ((rs.zipIdx acc.length).map fun (r, i) => (i, r))) body ∧
      ((sequential c elapsed acc acc.length rs).run request memory).2.2.events = memory.events ++ body ++
        (stopped c "request" ((sequential c elapsed acc acc.length rs).run request memory).1).map
          (·.forRequest request) ∧
      ((sequential c elapsed acc acc.length rs).run request memory).2.1 = request := by
  -- `acc` are the outcomes so far, so that `acc.length` is the place of the next request. No failure is among them
  -- if the batch stops at one.
  induction rs generalizing acc memory with
  | nil =>
    refine ⟨[], ?_, ?_, rfl⟩
    · rw [List.zipIdx_nil, List.map_nil, upTo_nil]
      exact attributed_nil
    · show memory.events = memory.events ++ [] ++ (stopped c "request" acc.reverse).map (·.forRequest request)
      rw [stopped_of_none (any_reverse_of_none hacc), List.map_nil, List.append_nil, List.append_nil]
  | cons r rest ih =>
    obtain ⟨events, hevents, hserves, hmark, hreports⟩ :=
      Work.always_run hm (always_evaluateOne request c.preferences elapsed acc.length r)
    obtain ⟨hresult, -⟩ := Work.meets_run (meets_evaluateOne c.preferences elapsed acc.length r) hm.sound request
    have hfails : (!(outcomeOf c.preferences (acc.length, r)).isOk && c.failFast) =
        (fails c.preferences (acc.length, r) && c.failFast) := rfl
    rw [sequential, Work.run_bind, hresult, hmark, hfails, List.zipIdx_cons, List.map_cons, upTo_cons]
    by_cases hstop : (fails c.preferences (acc.length, r) && c.failFast) = true
    · -- The batch stops behind this request, with one event of its own.
      rw [if_pos hstop, if_pos hstop]
      have hfast := (Bool.and_eq_true_iff.1 hstop).2
      have hany : (c.failFast && (outcomeOf c.preferences (acc.length, r) :: acc).reverse.any (!·.isOk)) = true := by
        rw [List.any_reverse, List.any_cons, hfast, Bool.true_and, Bool.or_eq_true]
        exact .inl (Bool.and_eq_true_iff.1 hstop).1
      refine ⟨events, attributed_singleton hreports, ?_, rfl⟩
      rw [Work.run, Work.run, Memory.events_log, hevents, stopped_of_true hany, List.length_reverse]
      rfl
    · rw [if_neg hstop, if_neg hstop]
      -- acc).any (!·.isOk) = false := by :: The batch goes on, so this outcome is no failure, or failures do not
      -- matter.
      have hacc' : c.failFast = true → (outcomeOf c.preferences (acc.length, r) :: acc).any (!·.isOk) = false := by
        intro hfast
        rw [hfast, Bool.and_true] at hstop
        rw [List.any_cons, hacc hfast, Bool.or_false]
        exact Bool.eq_false_iff.2 hstop
      obtain ⟨body, hbody, hlog, hmark'⟩ := ih hserves (outcomeOf c.preferences (acc.length, r) :: acc) hacc'
      refine ⟨events ++ body, ?_, ?_, hmark'⟩
      · refine (attributed_singleton hreports).append hbody fun y hy z hz heq => ?_
        -- The places of the other requests come behind.
        obtain ⟨⟨r', i⟩, hi, rfl⟩ := List.mem_map.1 (mem_of_mem_upTo hz)
        have hle : acc.length + 1 ≤ i := (List.mem_zipIdx hi).1
        rw [List.mem_singleton.1 hy] at heq
        have hplace : acc.length = i := heq
        omega
      · rw [List.append_assoc memory.events, ← List.append_assoc, ← List.append_assoc, ← hevents]
        exact hlog

/-! ### A whole batch -/

/-- The events of a batch itself: that it stops, if it does, and that it is completed. A batch that is evaluated one
request after another counts its outcomes under `"request"`, which is the key of the marks. -/
def ownEvents (c : Config) (requests : List Request) (results : Results) : List Log.Event :=
  stopped c (if c.threads = 1 ∨ requests.length < 2 then "request" else "processed") results.outcomes ++
    [completedEvent c results]

theorem stopped_perm {key : String} {outcomes outcomes' : List Outcome} (h : outcomes.Perm outcomes') :
    stopped c key outcomes = stopped c key outcomes' := by
  rw [stopped, stopped, h.any_eq, h.length_eq]

theorem nodup_indexed (requests : List Request) : ((indexed requests).map Prod.fst).Nodup := by
  rw [List.nodup_iff_pairwise_ne, List.pairwise_map]
  exact (pairwise_indexed requests).imp fun hlt => Nat.ne_of_lt hlt

/-- What `evaluateWith` does with the requests: the outcomes, the mark behind them, and the memory. -/
def runRequests (finish : Pool → Pool) (c : Config) (elapsed : Nat) (requests : List Request)
    (request : Option String) (memory : Memory) : List Outcome × Option String × Memory :=
  if c.threads = 1 ∨ requests.length < 2 then (sequential c elapsed [] 0 requests).run request memory
  else ((parallel finish c elapsed request requests memory).1, request,
    (parallel finish c elapsed request requests memory).2)

/-- A batch within `Limits.requests` is its requests and the event of its completion. -/
theorem evaluateWith_eq {requests : List Request} (hsize : requests.length ≤ Limits.requests) :
    evaluateWith finish c elapsed requests request memory =
      let done := runRequests finish c elapsed requests request memory
      let results : Results := { outcomes := done.1, elapsed }
      (.ok results, done.2.1,
        { done.2.2 with logged := (completedEvent c results).forRequest done.2.1 :: done.2.2.logged }) := by
  rw [evaluateWith, if_neg (Nat.not_lt.2 hsize)]
  rfl

/-- The events of the requests in `seen`, and behind them the one that the batch stops. -/
theorem events_runRequests (elapsed : Nat) (request : Option String) (hfinish : Interleaving c.threads finish)
    (hm : memory.Serves cached) (requests : List Request) :
    ∃ body, Attributed c.preferences elapsed cached (seen c requests) body ∧
      (runRequests finish c elapsed requests request memory).2.1 = request ∧
      (runRequests finish c elapsed requests request memory).2.2.events = memory.events ++ body ++
        (stopped c (if c.threads = 1 ∨ requests.length < 2 then "request" else "processed")
          (runRequests finish c elapsed requests request memory).1).map (·.forRequest request) := by
  unfold runRequests seen
  by_cases hone : c.threads = 1 ∨ requests.length < 2
  · rw [if_pos hone, if_pos hone, if_pos hone]
    obtain ⟨body, hbody, hlog, hmark⟩ := events_sequential elapsed request hm [] (fun _ => rfl) requests
    exact ⟨body, hbody, hmark, hlog⟩
  · rw [if_neg hone, if_neg hone, if_neg hone]
    have hchunks := flatten_chunksOf (chunkSize_pos requests.length c.threads) (indexed requests)
    obtain ⟨body, hbody, hlog⟩ := events_runChunks elapsed request hfinish hm
      (chunksOf (chunkSize requests.length c.threads) (indexed requests))
      (by rw [hchunks]; exact nodup_indexed requests) [] (fun _ => rfl)
    refine ⟨body, hbody, rfl, ?_⟩
    -- Sorting the outcomes does not change how many there are, nor whether one of them is a failure.
    dsimp only [parallel]
    rw [stopped_perm (List.mergeSort_perm _ _)]
    exact hlog

/-- **The events of a batch** are those of the requests in `seen`, and behind them `ownEvents` with the mark of the
caller. -/
theorem events_evaluateWith {requests : List Request} (elapsed : Nat) (request : Option String)
    (hfinish : Interleaving c.threads finish) (hm : memory.Serves cached) (hsize : requests.length ≤ Limits.requests) :
    ∃ results body, (evaluateWith finish c elapsed requests request memory).1 = .ok results ∧
      results.outcomes = (seen c requests).map (outcomeOf c.preferences) ∧
      (evaluateWith finish c elapsed requests request memory).2.1 = request ∧
      Attributed c.preferences elapsed cached (seen c requests) body ∧
      (evaluateWith finish c elapsed requests request memory).2.2.events =
        memory.events ++ body ++ (ownEvents c requests results).map (·.forRequest request) := by
  obtain ⟨results, hresults, houtcomes⟩ := outcomes_evaluateWith elapsed request hfinish hm.sound hsize
  obtain ⟨body, hbody, hmark, hlog⟩ := events_runRequests elapsed request hfinish hm requests
  rw [evaluateWith_eq hsize] at hresults ⊢
  obtain rfl := Except.ok.inj hresults
  refine ⟨_, body, rfl, houtcomes, hmark, hbody, ?_⟩
  rw [Memory.events_log, hlog, hmark, ownEvents, List.map_append, List.append_assoc]
  rfl

end BoolCalc.Batch
