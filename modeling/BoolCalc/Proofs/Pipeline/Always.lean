import BoolCalc.Proofs.Pipeline.Told

namespace BoolCalc

/-!
# What a computation reports among others

* `Memory.Serves` : the cache is sound, and there is one only if there may be one;
* `Work.Always` : the weakest precondition of a computation whose steps alternate with those of others on the cache;
* `Work.always_bind`, `Work.always_ofLogged` : its rules;
* `Worker.always_step`, `Work.always_run` : one step, and all steps;
* `Pipeline.always_compile`, `Pipeline.always_evaluate` : the two calls report what is told of them.

The events of others come between those of the computation. A property of the events is about its own events only, in
their order and with their marks.
-/

/-! ### Caches -/

/-- The cache holds nothing but trees that are read from their keys, and there is none unless `cached`. -/
structure Memory.Serves (cached : Bool) (m : Memory) : Prop where
  sound : m.Sound
  absent : cached = false → m.cache = none

variable {cached : Bool} {m : Memory} {request : Option String}

/-- Without a cache the memory serves for either `cached`. -/
theorem Memory.serves_of_none (h : m.cache = none) : m.Serves cached where
  sound := by
    intro key o ho
    rw [find?, h] at ho
    cases ho
  absent := fun _ => h

/-- `events` has the newest event, at the front of `logged`, at the end. -/
theorem Memory.events_log (m : Memory) (e : Log.Event) :
    ({ m with logged := e :: m.logged } : Memory).events = m.events ++ [e] := List.reverse_cons

/-- `Serves` does not depend on `logged`. -/
theorem Memory.Serves.log (h : m.Serves cached) (logged : List Log.Event) :
    ({ m with logged } : Memory).Serves cached :=
  ⟨h.sound, h.absent⟩

theorem Memory.Serves.keep (h : m.Serves cached) {key : CacheKey} {tree : Expr} (htree : key.reading = .ok tree) :
    (m.keep key tree).1.tree = tree ∧ (m.keep key tree).2.Serves cached ∧
      (m.keep key tree).2.events = m.events := by
  obtain ⟨hused, hsound⟩ := h.sound.keep htree
  refine ⟨hused, ⟨hsound, fun hcached => ?_⟩, ?_⟩
  · rw [Memory.keep, h.absent hcached]
  · unfold Memory.keep
    split <;> rfl

/-- What a cache may answer for `key`: nothing, or a tree that is `key.reading`, if there is a cache. -/
def CacheKey.MayHold (key : CacheKey) (cached : Bool) (found : Option Expr) : Prop :=
  ∀ tree ∈ found, cached = true ∧ key.reading = .ok tree

theorem Memory.Serves.mayHold (h : m.Serves cached) (key : CacheKey) :
    key.MayHold cached ((m.find? key).map TreeObject.tree) := by
  intro tree htree
  obtain ⟨object, hobject, rfl⟩ := Option.map_eq_some_iff.1 htree
  refine ⟨?_, h.sound key object hobject⟩
  cases cached with
  | true => rfl
  | false =>
    rw [Memory.find?, h.absent rfl] at hobject
    cases hobject

/-! ### The weakest precondition -/

namespace Work

/-- `w.Always cached request P`: whatever a cache answers (`MayHold`), `w` hands it only trees that are read from
their keys, and comes to events, a mark and a result for which `P` holds. -/
def Always (cached : Bool) :
    Option String → Work α → (List Log.Event → Option String → α → Prop) → Prop
  | request, .done a, P => P [] request a
  | request, .log e next, P => Always cached request next fun events => P (e.forRequest request :: events)
  | request, .exchange r next, P => Always cached r (next request) P
  | request, .find key next, P =>
    ∀ found, key.MayHold cached (found.map TreeObject.tree) → Always cached request (next found) P
  | request, .keep key tree next, P =>
    key.reading = .ok tree ∧ ∀ object : TreeObject, object.tree = tree → Always cached request (next object) P

variable {P Q : List Log.Event → Option String → α → Prop} {R : List Log.Event → Option String → β → Prop}

/-- `Always` for a weaker `Q`. -/
theorem Always.mono {w : Work α} (h : w.Always cached request P) (hPQ : ∀ events r a, P events r a → Q events r a) :
    w.Always cached request Q := by
  induction w generalizing request P Q with
  | done a => exact hPQ _ _ _ h
  | log e next ih => exact ih h fun events => hPQ _
  | exchange r next ih => exact ih request h hPQ
  | find key next ih => exact fun found hfound => ih found (h found hfound) hPQ
  | keep key tree next ih => exact ⟨h.1, fun object hobject => ih object (h.2 object hobject) hPQ⟩

/-- `w.bind f`: if `R` holds of the events of `w` followed by those of `f a`, it holds of the whole. -/
theorem always_bind {w : Work α} {f : α → Work β}
    (h : w.Always cached request fun events r a => (f a).Always cached r fun after => R (events ++ after)) :
    (w.bind f).Always cached request R := by
  induction w generalizing request R with
  | done a => exact h
  | log e next ih => exact ih h
  | exchange r next ih => exact ih request h
  | find key next ih => exact fun found hfound => ih found (h found hfound)
  | keep key tree next ih => exact ⟨h.1, fun object hobject => ih object (h.2 object hobject)⟩

/-- The `Work` of a logged result `x`. -/
theorem always_ofLogged {x : Log.Logged α} (h : P (x.events.map (·.forRequest request)) request x.value) :
    (ofLogged x).Always cached request P := by
  obtain ⟨value, events⟩ := x
  unfold ofLogged
  induction events generalizing P with
  | nil => exact h
  | cons e events ih => exact ih (P := fun events => P (e.forRequest request :: events)) h

end Work

/-! ### Steps and runs -/

variable {P : List Log.Event → Option String → α → Prop}

/-- **One step** of a worker logs some `events`, possibly none, and leaves `Always` for the steps that are left,
with these events put before theirs. -/
theorem Worker.always_step {w : Worker α} (hm : m.Serves cached) (h : w.work.Always cached w.request P) :
    ∃ events, (w.step m).2.events = m.events ++ events ∧ (w.step m).2.Serves cached ∧
      (w.step m).1.work.Always cached (w.step m).1.request fun after => P (events ++ after) := by
  obtain ⟨work, request⟩ := w
  cases work with
  | done a => exact ⟨[], (List.append_nil _).symm, hm, h⟩
  | log e next => exact ⟨[e.forRequest request], m.events_log _, hm.log _, h⟩
  | exchange r next => exact ⟨[], (List.append_nil _).symm, hm, h⟩
  | find key next => exact ⟨[], (List.append_nil _).symm, hm, h _ (hm.mayHold key)⟩
  | keep key tree next =>
    obtain ⟨htree, hnext⟩ := h
    obtain ⟨hused, hserves, hevents⟩ := hm.keep htree
    exact ⟨[], by rw [List.append_nil]; exact hevents, hserves, hnext _ hused⟩

/-- A finished worker has `P` of its mark and its result, and no more events. -/
theorem Worker.always_result {w : Worker α} {a : α} (h : w.work.Always cached w.request P)
    (ha : w.result? = some a) : P [] w.request a := by
  obtain ⟨work, request⟩ := w
  cases work with
  | done result =>
    cases ha
    exact h
  | log | exchange | find | keep => cases ha

/-- **All steps** without others in between: `w.run` logs some `events` behind those of `m`, and `P` holds of them,
the mark and the result. -/
theorem Work.always_run {w : Work α} (hm : m.Serves cached) (h : w.Always cached request P) :
    ∃ events, (w.run request m).2.2.events = m.events ++ events ∧ (w.run request m).2.2.Serves cached ∧
      P events (w.run request m).2.1 (w.run request m).1 := by
  induction w generalizing request m P with
  | done a => exact ⟨[], (List.append_nil _).symm, hm, h⟩
  | log e next ih =>
    obtain ⟨events, hevents, hserves, hP⟩ := ih (hm.log (e.forRequest request :: m.logged)) h
    refine ⟨e.forRequest request :: events, ?_, hserves, hP⟩
    rw [List.append_cons, ← m.events_log]
    exact hevents
  | exchange r next ih => exact ih request hm h
  | find key next ih => exact ih _ hm (h _ (hm.mayHold key))
  | keep key tree next ih =>
    obtain ⟨htree, hnext⟩ := h
    obtain ⟨hused, hserves, hkeep⟩ := hm.keep htree
    obtain ⟨events, hevents, hend⟩ := ih _ hserves (hnext _ hused)
    exact ⟨events, hevents.trans (congrArg (· ++ events) hkeep), hend⟩

/-! ### The calls -/

namespace Pipeline

/-- **Compiling an expression** reports `toldTree`, for some tree `found` that the cache may hold. -/
theorem always_compile (p : Preferences) (expression : String) :
    (compile p expression).Always cached request fun events r x =>
      r = request ∧ ∃ found, (keyOf p expression).MayHold cached found ∧
        events = (toldTree p expression found).events.map (·.forRequest request) ∧
        x.map TreeObject.tree = (toldTree p expression found).value := by
  obtain ⟨e, hevents, hcompile⟩ := compile_eq p expression
  rw [hcompile]
  -- Whatever the cache answers, what is told is `toldTree` of this answer.
  intro found hfound
  cases found with
  | some object =>
    refine ⟨rfl, some object.tree, hfound, ?_, rfl⟩
    rw [toldTree_eq hevents]
    rfl
  | none =>
    have hread := toldTree_eq (p := p) hevents none
    refine Work.always_bind (Work.always_ofLogged ?_)
    cases hvalue : (toldReading p (normalize expression).value.text).value with
    | error err =>
      refine ⟨rfl, none, hfound, ?_, ?_⟩
      · rw [hread, List.append_nil]
        rfl
      · rw [hread]
        exact hvalue.symm
    | ok tree =>
      -- The tree handed to the cache is the one that is read from the key.
      have htree : (keyOf p expression).reading = .ok tree := (toldReading_value p _).symm.trans hvalue
      refine ⟨htree, fun object hobject => ⟨rfl, none, hfound, ?_, ?_⟩⟩
      · rw [hread, List.append_nil]
        rfl
      · rw [hread]
        exact (congrArg Except.ok hobject).trans hvalue.symm

/-- **Evaluating an expression** reports `told`, for some tree `found` that the cache may hold. -/
theorem always_evaluate (p : Preferences) (elapsed : Nat) (expression values : String) :
    (evaluate p elapsed expression values).Always cached request fun events r _ =>
      r = request ∧ ∃ found, (keyOf p expression).MayHold cached found ∧
        events = (told p elapsed expression values found).events.map (·.forRequest request) := by
  rw [evaluate_eq]
  refine Work.always_bind ((always_compile p expression).mono ?_)
  rintro events r x ⟨rfl, found, hfound, rfl, hx⟩
  cases x with
  | error err =>
    refine ⟨rfl, found, hfound, ?_⟩
    rw [← andThen_toldAnswer hx, Log.Logged.andThen_of_error rfl, List.append_nil]
  | ok object =>
    refine Work.always_ofLogged ⟨rfl, found, hfound, ?_⟩
    rw [← andThen_toldAnswer hx, Log.Logged.andThen_of_ok rfl, List.map_append]

end Pipeline

end BoolCalc
