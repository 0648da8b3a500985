import BoolCalc.Proofs.Pipeline.Contract

namespace BoolCalc

/-!
# What a compilation does

* `Work.Gives` : a computation that comes to a result and changes nothing but the log;
* `Pipeline.gives_read` : reading a normalized text is one;
* `Pipeline.exists_run_compile` : the result of a compilation, and what it does to what it shares;
* `Pipeline.treeOf_of_compile_eq_error` : whatever the cache holds, an error is that of the expression.
-/

/-! ### Computations that only log -/

namespace Work

/-- `w` comes to `x` and changes nothing but the log, in every memory and for every mark. -/
def Gives (w : Work α) (x : α) : Prop :=
  ∀ request m, ∃ logged, w.run request m = (x, request, { m with logged })

/-- `ofLogged` only logs. -/
theorem gives_ofLogged (x : Log.Logged α) : (ofLogged x).Gives x.value := by
  intro request m
  unfold ofLogged
  induction x.events generalizing m with
  | nil => exact ⟨m.logged, rfl⟩
  | cons e events ih => exact ih { m with logged := e.forRequest request :: m.logged }

/-- `ofStage` only logs. -/
theorem gives_ofStage (x : Log.Logged (Except ε α)) (f : ε → δ) : (ofStage x f).Gives (x.value.mapError f) :=
  gives_ofLogged ⟨x.value.mapError f, x.events⟩

/-- If `w` gives `x`, and `f a` gives `y a`, then `w.andThen f` gives `x.bind y`. -/
theorem Gives.andThen {x : Except ε α} {y : α → Except ε β} {w : Work (Except ε α)} {f : α → Work (Except ε β)}
    (h : w.Gives x) (hf : ∀ a, (f a).Gives (y a)) : (w.andThen f).Gives (x.bind y) := by
  intro request m
  obtain ⟨logged, hrun⟩ := h request m
  rw [Work.andThen, run_bind, hrun]
  cases x with
  | error e => exact ⟨logged, rfl⟩
  | ok a => exact hf a request { m with logged }

end Work

/-! ### One compilation -/

/-- `keep` does not look at `logged`. -/
theorem Memory.keep_logged {m : Memory} {key : CacheKey} (logged : List Log.Event) (tree : Expr) :
    { m with logged }.keep key tree = ((m.keep key tree).1, { (m.keep key tree).2 with logged }) := by
  unfold keep
  dsimp only
  split <;> rfl

namespace Pipeline

/-- `read` only logs. -/
theorem gives_read (p : Preferences) (normalized : String) :
    (read p normalized).Gives (cacheKey p normalized).reading := by
  have htokens := Work.gives_ofStage (tokenize p.lexical normalized) PipelineError.lex
  rw [tokenize_value] at htokens
  exact htokens.andThen fun tokens => Work.gives_ofStage (parse tokens) PipelineError.parse

/-- **One compilation.** If the memory `m` has an object for `keyOf p expression`, `compile` comes to it. Otherwise
the text is read, and the tree is handed to the cache (`keep`). -/
theorem exists_run_compile (p : Preferences) (expression : String) (request : Option String) (m : Memory) :
    ∃ logged, (compile p expression).run request m =
      match m.find? (keyOf p expression) with
      | some object => (.ok object, request, { m with logged })
      | none =>
        match treeOf p expression with
        | .error e => (.error e, request, { m with logged })
        | .ok tree =>
          (.ok (m.keep (keyOf p expression) tree).1, request,
            { (m.keep (keyOf p expression) tree).2 with logged }) := by
  obtain ⟨logged, hnormal⟩ := Work.gives_ofLogged (normalize expression) request m
  rw [compile, Work.run_bind, hnormal]
  dsimp only
  rw [Work.run]
  -- What has been logged does not matter to the cache.
  have hfind : { m with logged }.find? (cacheKey p (normalize expression).value.text) =
      m.find? (keyOf p expression) := rfl
  rw [hfind]
  cases m.find? (keyOf p expression) with
  | some object => exact ⟨_, rfl⟩
  | none =>
    dsimp only
    obtain ⟨logged', hread⟩ := gives_read p (normalize expression).value.text request { m with logged }
    have htree : (cacheKey p (normalize expression).value.text).reading = treeOf p expression := rfl
    rw [Work.andThen, Work.run_bind, hread, htree]
    cases treeOf p expression with
    | error e => exact ⟨logged', rfl⟩
    | ok tree =>
      refine ⟨logged', ?_⟩
      dsimp only
      rw [Work.run, Memory.keep_logged]
      rfl

/-- If `compile` fails, `treeOf p expression` is the same error, whatever the cache holds. -/
theorem treeOf_of_compile_eq_error {p : Preferences} {expression : String} {request : Option String} {m : Memory}
    {err : PipelineError} (h : ((compile p expression).run request m).1 = .error err) :
    treeOf p expression = .error err := by
  obtain ⟨logged, hrun⟩ := exists_run_compile p expression request m
  rw [hrun] at h
  cases hfind : m.find? (keyOf p expression) with
  | some object =>
    rw [hfind] at h
    cases h
  | none =>
    rw [hfind] at h
    cases htree : treeOf p expression with
    | error e =>
      rw [htree] at h
      cases h
      rfl
    | ok tree =>
      rw [htree] at h
      cases h

end Pipeline

end BoolCalc
