import BoolCalc.Proofs.Pipeline.Effects

namespace BoolCalc

/-!
# What an evaluation reports

* `Log.Logged.mapError`, `Log.Logged.andThen` : pieces of work that may fail, with their events;
* `Work.ofLogged_andThen` : computations that only log, one after another;
* `Pipeline.toldReading`, `Pipeline.toldTree`, `Pipeline.toldAnswer`, `Pipeline.told` : the results of reading,
  compiling and evaluating with the events reported on the way, without any steps;
* `Pipeline.compile_eq`, `Pipeline.evaluate_eq` : the two calls in steps, as far as they concern the cache;
* `Work.Tells` : a computation that runs to a result and adds some events to the log, each with the mark of the caller;
* `Pipeline.tells_compile`, `Pipeline.tells_evaluate` : the two calls, whatever is in the cache.

The events depend on the cache in one thing only, which is the tree that it holds for the key of the expression. The
tree is an argument of `toldTree` and `told`.
-/

/-! ### Results with events -/

namespace Log.Logged

/-- The same work with `f` of its errors. -/
def mapError (x : Logged (Except ε α)) (f : ε → δ) : Logged (Except δ α) := ⟨x.value.mapError f, x.events⟩

/-- Work `x` that may fail, and more work `f a` on its result. The events of `x` come first. -/
def andThen (x : Logged (Except ε α)) (f : α → Logged (Except ε β)) : Logged (Except ε β) :=
  match x.value with
  | .ok a => ⟨(f a).value, x.events ++ (f a).events⟩
  | .error e => ⟨.error e, x.events⟩

variable {x : Logged (Except ε α)} {f : α → Logged (Except ε β)}

theorem andThen_of_ok {a : α} (h : x.value = .ok a) :
    x.andThen f = ⟨(f a).value, x.events ++ (f a).events⟩ := by
  rw [andThen, h]

theorem andThen_of_error {e : ε} (h : x.value = .error e) : x.andThen f = ⟨.error e, x.events⟩ := by
  rw [andThen, h]

theorem andThen_value (x : Logged (Except ε α)) (f : α → Logged (Except ε β)) :
    (x.andThen f).value = x.value.bind fun a => (f a).value := by
  cases h : x.value with
  | error e => rw [andThen_of_error h]; rfl
  | ok a => rw [andThen_of_ok h]; rfl

end Log.Logged

/-- `andThen` of `Work` that only logs is that of the logged results. -/
theorem Work.ofLogged_andThen (x : Log.Logged (Except ε α)) (f : α → Log.Logged (Except ε β)) :
    (ofLogged x).andThen (fun a => ofLogged (f a)) = ofLogged (x.andThen f) := by
  obtain ⟨value, events⟩ := x
  have hevents : ∀ events : List Log.Event, (logAll (.done value) events).andThen (fun a => ofLogged (f a)) =
      logAll ((Work.done value).andThen fun a => ofLogged (f a)) events := by
    intro events
    induction events with
    | nil => rfl
    | cons e events ih => exact congrArg (Work.log e) ih
  have happend : ∀ (events : List Log.Event) (next : Work (Except ε β)) (after : List Log.Event),
      logAll (logAll next after) events = logAll next (events ++ after) := by
    intro events next after
    induction events with
    | nil => rfl
    | cons e events ih => exact congrArg (Work.log e) ih
  rw [ofLogged, hevents]
  cases value with
  | error e => rfl
  | ok a => exact happend events (.done (f a).value) (f a).events

namespace Pipeline

/-- The tree of a normalized text, with the events of `tokenize` and `parse`. -/
def toldReading (p : Preferences) (normalized : String) : Log.Logged (Except PipelineError Expr) :=
  ((tokenize p.lexical normalized).mapError .lex).andThen fun tokens => (parse tokens).mapError .parse

/-- The tree of an expression, with the events of `compile`, if the cache holds the tree `found`. -/
def toldTree (p : Preferences) (expression : String) (found : Option Expr) :
    Log.Logged (Except PipelineError Expr) :=
  (normalize expression).bind fun normalized =>
    match found with
    | some tree => .noting (.ok tree) (foundEvent expression)
    | none => toldReading p normalized.text

/-- The answer for the tree of an expression, with the events of the stages behind `compile`. -/
def toldAnswer (p : Preferences) (elapsed : Nat) (expression values : String) (tree : Expr) :
    Log.Logged (Except PipelineError Response) :=
  ((bind p.binding values).mapError .binding).andThen fun b =>
    ((BoolCalc.evaluate p.evaluation tree b).mapError .evaluation).andThen fun result =>
      .noting (.ok ⟨expression, values, result⟩) (completedEvent elapsed result)

/-- The answer for an expression, with the events of `evaluate`, if the cache holds the tree `found`. -/
def told (p : Preferences) (elapsed : Nat) (expression values : String) (found : Option Expr) :
    Log.Logged (Except PipelineError Response) :=
  (toldTree p expression found).andThen (toldAnswer p elapsed expression values)

/-- `toldTree` with the one event of `normalize` written first. -/
theorem toldTree_eq {p : Preferences} {expression : String} {e : Log.Event}
    (h : (normalize expression).events = [e]) (found : Option Expr) :
    toldTree p expression found =
      let rest : Log.Logged (Except PipelineError Expr) := match found with
        | some tree => .noting (.ok tree) (foundEvent expression)
        | none => toldReading p (normalize expression).value.text
      ⟨rest.value, e :: rest.events⟩ := by
  rw [toldTree, Log.Logged.bind, h]
  rfl

/-- `toldAnswer` looks at the tree only, so the object `x` can be read off from `toldTree`. -/
theorem andThen_toldAnswer {p : Preferences} {elapsed : Nat} {expression values : String} {found : Option Expr}
    {x : Except PipelineError TreeObject}
    (hx : x.map TreeObject.tree = (toldTree p expression found).value) :
    (⟨x, (toldTree p expression found).events⟩ : Log.Logged (Except PipelineError TreeObject)).andThen
      (fun object => toldAnswer p elapsed expression values object.tree) =
      told p elapsed expression values found := by
  unfold told
  cases x with
  | error e => rw [Log.Logged.andThen_of_error hx.symm, Log.Logged.andThen_of_error rfl]
  | ok object => rw [Log.Logged.andThen_of_ok hx.symm, Log.Logged.andThen_of_ok rfl]

theorem toldReading_value (p : Preferences) (normalized : String) :
    (toldReading p normalized).value = (cacheKey p normalized).reading := by
  rw [toldReading, Log.Logged.andThen_value, CacheKey.reading]
  show ((tokenize p.lexical normalized).value.mapError PipelineError.lex).bind _ = _
  rw [tokenize_value]
  rfl

/-- `read` only logs. -/
theorem read_eq (p : Preferences) (normalized : String) :
    read p normalized = .ofLogged (toldReading p normalized) :=
  Work.ofLogged_andThen _ _

/-- Behind the event of `normalize`, `compile` asks the cache. If it has to read the text, it hands the tree to the
cache. -/
theorem compile_eq (p : Preferences) (expression : String) :
    ∃ e, (normalize expression).events = [e] ∧ compile p expression = .log e (.find (keyOf p expression) fun
      | some object => .log (foundEvent expression) (.done (.ok object))
      | none => (Work.ofLogged (toldReading p (normalize expression).value.text)).andThen fun tree =>
          .keep (keyOf p expression) tree (.done <| .ok ·)) := by
  refine ⟨_, rfl, ?_⟩
  rw [← read_eq]
  rfl

/-- Behind `compile`, `evaluate` only logs. -/
theorem evaluate_eq (p : Preferences) (elapsed : Nat) (expression values : String) :
    evaluate p elapsed expression values = (compile p expression).andThen fun object =>
      .ofLogged (toldAnswer p elapsed expression values object.tree) := by
  unfold evaluate
  refine congrArg (Work.andThen (compile p expression)) (funext fun object => ?_)
  rw [toldAnswer, ← Work.ofLogged_andThen]
  refine congrArg (Work.andThen (bindValues p values)) (funext fun b => ?_)
  rw [← Work.ofLogged_andThen]
  rfl

end Pipeline

/-! ### Runs -/

variable {m : Memory} {request : Option String}

namespace Work

/-- Run in the memory `m` with the mark `request`, `w` comes to `x.value`, adds `x.events` to the log with this
mark, and leaves the mark in place. -/
def Tells (request : Option String) (m : Memory) (w : Work α) (x : Log.Logged α) : Prop :=
  ∃ m', w.run request m = (x.value, request, m') ∧
    m'.logged = (x.events.map (·.forRequest request)).reverse ++ m.logged

/-- `w` that logs `e` first. -/
theorem Tells.log {e : Log.Event} {next : Work α} {a : α} {events : List Log.Event}
    (h : Tells request { m with logged := e.forRequest request :: m.logged } next ⟨a, events⟩) :
    Tells request m (.log e next) ⟨a, e :: events⟩ := by
  obtain ⟨m', hrun, hlogged⟩ := h
  refine ⟨m', hrun, ?_⟩
  rw [hlogged, List.map_cons, List.reverse_cons, List.append_assoc]
  rfl

/-- `w` that first asks the cache, which answers `m.find? key`. -/
theorem Tells.find {key : CacheKey} {next : Option TreeObject → Work α} {x : Log.Logged α}
    (h : Tells request m (next (m.find? key)) x) : Tells request m (.find key next) x := h

/-- `ofLogged x` tells `x`. -/
theorem tells_ofLogged (request : Option String) (m : Memory) (x : Log.Logged α) : Tells request m (ofLogged x) x := by
  unfold ofLogged Tells
  induction x.events generalizing m with
  | nil => exact ⟨m, rfl, rfl⟩
  | cons e events ih => exact Tells.log (ih _)

/-- If `w` tells `x`, and `f a` tells `g a`, then `w.andThen f` tells `x.andThen g`. -/
theorem Tells.andThen {w : Work (Except ε α)} {x : Log.Logged (Except ε α)} {f : α → Work (Except ε β)}
    {g : α → Log.Logged (Except ε β)} (h : Tells request m w x)
    (hf : ∀ (m' : Memory) (a : α), Tells request m' (f a) (g a)) :
    Tells request m (w.andThen f) (x.andThen g) := by
  obtain ⟨m', hrun, hlogged⟩ := h
  rw [Tells, Work.andThen, run_bind, hrun]
  cases hx : x.value with
  | error e =>
    rw [Log.Logged.andThen_of_error hx]
    exact ⟨m', rfl, hlogged⟩
  | ok a =>
    obtain ⟨m'', hrun', hlogged'⟩ := hf m' a
    rw [Log.Logged.andThen_of_ok hx]
    refine ⟨m'', hrun', ?_⟩
    rw [hlogged', hlogged, List.map_append, List.reverse_append, List.append_assoc]

end Work

/-- `keep` for a key that the cache does not hold uses `tree` as it is, and logs nothing. -/
theorem Memory.keep_of_find?_none {key : CacheKey} (h : m.find? key = none) (tree : Expr) :
    (m.keep key tree).1.tree = tree ∧ (m.keep key tree).2.logged = m.logged := by
  unfold Memory.keep
  split
  · exact ⟨rfl, rfl⟩
  · next c hcache =>
    rw [Memory.find?, hcache, Option.bind_some] at h
    refine ⟨?_, rfl⟩
    rcases c.insert_fst key ⟨m.births, tree⟩ with hmade | hkept
    · exact congrArg TreeObject.tree hmade
    · cases h.symm.trans hkept

namespace Pipeline

/-- `compile` if the cache has an `object` for the expression. -/
theorem tells_compile_of_some {p : Preferences} {expression : String} {object : TreeObject}
    (h : m.find? (keyOf p expression) = some object) : Work.Tells request m (compile p expression)
      ⟨.ok object, (toldTree p expression (some object.tree)).events⟩ := by
  obtain ⟨e, hevents, hcompile⟩ := compile_eq p expression
  have hfind : ({ m with logged := e.forRequest request :: m.logged } : Memory).find? (keyOf p expression) =
      some object := h
  rw [hcompile, toldTree_eq hevents]
  have hrest := Work.tells_ofLogged request { m with logged := e.forRequest request :: m.logged }
    (.noting (.ok object : Except PipelineError TreeObject) (foundEvent expression))
  refine .log (.find ?_)
  rw [hfind]
  exact hrest

/-- `compile` if the cache has none. -/
theorem tells_compile_of_none {p : Preferences} {expression : String}
    (h : m.find? (keyOf p expression) = none) : ∃ x : Except PipelineError TreeObject,
      Work.Tells request m (compile p expression) ⟨x, (toldTree p expression none).events⟩ ∧
      x.map TreeObject.tree = (toldTree p expression none).value := by
  obtain ⟨e, hevents, hcompile⟩ := compile_eq p expression
  have hfind : ({ m with logged := e.forRequest request :: m.logged } : Memory).find? (keyOf p expression) =
      none := h
  rw [hcompile, toldTree_eq hevents]
  -- Reading changes nothing but the log, so the cache has still no tree when it is handed one.
  obtain ⟨m', hrun, hlogged⟩ := Work.tells_ofLogged request
    { m with logged := e.forRequest request :: m.logged } (toldReading p (normalize expression).value.text)
  obtain ⟨logged, hgives⟩ := Work.gives_ofLogged (toldReading p (normalize expression).value.text) request
    { m with logged := e.forRequest request :: m.logged }
  obtain rfl : m' = { m with logged } := (congrArg (·.2.2) hrun).symm.trans (congrArg (·.2.2) hgives)
  dsimp only
  cases htree : (toldReading p (normalize expression).value.text).value with
  | error err =>
    refine ⟨.error err, .log (.find ?_), rfl⟩
    rw [hfind]
    refine ⟨{ m with logged }, ?_, hlogged⟩
    rw [Work.andThen, Work.run_bind, hrun, htree]
    rfl
  | ok tree =>
    obtain ⟨hused, hkeep⟩ := Memory.keep_of_find?_none (m := { m with logged }) h tree
    refine ⟨.ok (({ m with logged } : Memory).keep (keyOf p expression) tree).1, .log (.find ?_),
      congrArg Except.ok hused⟩
    rw [hfind]
    refine ⟨(({ m with logged } : Memory).keep (keyOf p expression) tree).2, ?_, hkeep.trans hlogged⟩
    rw [Work.andThen, Work.run_bind, hrun, htree]
    rfl

/-- The tree that the cache holds for `expression`. -/
def found? (m : Memory) (p : Preferences) (expression : String) : Option Expr :=
  (m.find? (keyOf p expression)).map TreeObject.tree

/-- **Compiling an expression** tells `toldTree`, with what the cache holds for it. -/
theorem tells_compile (request : Option String) (m : Memory) (p : Preferences) (expression : String) :
    ∃ x : Except PipelineError TreeObject,
      Work.Tells request m (compile p expression) ⟨x, (toldTree p expression (found? m p expression)).events⟩ ∧
      x.map TreeObject.tree = (toldTree p expression (found? m p expression)).value := by
  rw [found?]
  cases h : m.find? (keyOf p expression) with
  | some object => exact ⟨.ok object, tells_compile_of_some h, rfl⟩
  | none => exact tells_compile_of_none h

/-- **Evaluating an expression** tells `told`, with what the cache holds for it. -/
theorem tells_evaluate (request : Option String) (m : Memory) (p : Preferences) (elapsed : Nat)
    (expression values : String) : Work.Tells request m (evaluate p elapsed expression values)
      (told p elapsed expression values (found? m p expression)) := by
  obtain ⟨x, hcompile, hx⟩ := tells_compile request m p expression
  rw [evaluate_eq, ← andThen_toldAnswer hx]
  exact hcompile.andThen fun _ object => Work.tells_ofLogged _ _ (toldAnswer p elapsed expression values object.tree)

end Pipeline

end BoolCalc
