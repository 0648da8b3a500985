import BoolCalc.Pipeline.Evaluator

namespace BoolCalc

/-!
# What calls rely on and what they guarantee

* `CacheKey.reading`, `Pipeline.treeOf`, `Pipeline.answerOf` : the results of reading, compiling and
  evaluating, without any steps;
* `Memory.Sound` : the cache holds for each key nothing but the tree that is read from it;
* `Work.Meets` : the contract of a computation about one key. It relies on a sound cache, guarantees not
  to spoil it, and comes to a certain result after a certain number of steps at most;
* `Worker.meets_step`, `Work.meets_run` : a computation under its contract, by one step and as a whole;
* `Work.run_bind` : one computation after another, as a whole;
* `left_sub_count` : the steps left to each of several computations;
* `Pipeline.meets_compile`, `Pipeline.meets_evaluate` : the contracts of the two calls;
* `Pipeline.treeOf_of_compile`, `Pipeline.exists_compile_eq_ok_iff`, `Pipeline.run_evaluate_fst` : what the calls come
  to with a sound cache.
-/

/-! ### Results without steps -/

/-- The tree of `key.text`, in the dialect of the key: `tokenize`, then `parse`. -/
def CacheKey.reading (key : CacheKey) : Except PipelineError Expr :=
  ((tokenize { acceptBang := key.bang } key.text).value.mapError .lex).bind fun tokens =>
    (parse tokens).value.mapError .parse

/-- A tree that is the `reading` of `key` is parsed from some tokens. -/
theorem CacheKey.exists_tokens_of_reading {key : CacheKey} {tree : Expr}
    (h : key.reading = .ok tree) : ∃ tokens : TokenStream, (parse tokens).value = .ok tree := by
  unfold reading at h
  cases htokens : (tokenize { acceptBang := key.bang } key.text).value with
  | error e => rw [htokens] at h; cases h
  | ok tokens =>
    rw [htokens] at h
    change (parse tokens).value.mapError PipelineError.parse = .ok tree at h
    cases hparse : (parse tokens).value with
    | error e => rw [hparse] at h; cases h
    | ok e =>
      rw [hparse] at h
      cases h
      exact ⟨tokens, hparse⟩

/-- `reading` fails with a lexical or a syntax error only. -/
theorem CacheKey.reading_ne_evaluation {key : CacheKey} (e : EvaluationError) :
    key.reading ≠ .error (.evaluation e) := by
  unfold reading
  cases (tokenize { acceptBang := key.bang } key.text).value with
  | error => nofun
  | ok tokens =>
    show (parse tokens).value.mapError PipelineError.parse ≠ _
    cases (parse tokens).value <;> nofun

namespace Pipeline

/-- The `CacheKey` of an expression, which has the normalized text. -/
def keyOf (p : Preferences) (expression : String) : CacheKey :=
  cacheKey p (normalize expression).value.text

/-- The `reading` of the expression, which no cache changes. -/
def treeOf (p : Preferences) (expression : String) : Except PipelineError Expr :=
  (keyOf p expression).reading

/-- The answer for an expression and a parameter string, without steps, events and a cache: `treeOf`, `bind` and
`evaluate`. -/
def answerOf (p : Preferences) (expression values : String) : Except PipelineError Response :=
  (treeOf p expression).bind fun tree =>
    ((bind p.binding values).value.mapError .binding).bind fun b =>
      ((BoolCalc.evaluate p.evaluation tree b).value.mapError .evaluation).bind fun result =>
        .ok ⟨expression, values, result⟩

/-- If `answerOf` fails, `treeOf` does with the same error, or the error is one of `bind` or `evaluate`. -/
theorem answerOf_eq_error {p : Preferences} {expression values : String} {err : PipelineError}
    (h : answerOf p expression values = .error err) :
    treeOf p expression = .error err ∨ (∃ e, err = .binding e) ∨ ∃ e, err = .evaluation e := by
  -- The stages in their order; the first that fails gives the error.
  unfold answerOf at h
  cases htree : treeOf p expression with
  | error e =>
    rw [htree] at h
    cases h
    exact .inl rfl
  | ok tree =>
    rw [htree] at h
    change ((bind p.binding values).value.mapError PipelineError.binding).bind _ = _ at h
    cases hbind : (bind p.binding values).value with
    | error e =>
      rw [hbind] at h
      cases h
      exact .inr (.inl ⟨e, rfl⟩)
    | ok b =>
      rw [hbind] at h
      change ((BoolCalc.evaluate p.evaluation tree b).value.mapError PipelineError.evaluation).bind _ = _ at h
      cases hvalue : (BoolCalc.evaluate p.evaluation tree b).value with
      | error e =>
        rw [hvalue] at h
        cases h
        exact .inr (.inr ⟨e, rfl⟩)
      | ok result =>
        rw [hvalue] at h
        cases h

end Pipeline

/-- The tokens of `text` depend on `p.acceptBang` only. -/
theorem tokenize_value (p : Preferences.Lexical) (text : String) :
    (tokenize p text).value = (tokenize { acceptBang := p.acceptBang } text).value := by
  unfold tokenize Lexer.tokenize
  dsimp only
  split
  · rfl
  · split <;> rfl

/-! ### One event for each stage -/

theorem events_tokenize (p : Preferences.Lexical) (text : String) :
    (tokenize p text).events.length = 1 := by
  unfold tokenize Lexer.tokenize
  dsimp only
  split
  · rfl
  · split <;> rfl

theorem events_bind (p : Preferences.Binding) (values : String) :
    (bind p values).events.length = 1 := by
  unfold bind
  dsimp only
  split <;> rfl

theorem events_evaluate (p : Preferences.Evaluation) (e : Expr) (b : Bindings) :
    (evaluate p e b).events.length = 1 := by
  unfold evaluate
  dsimp only
  split <;> rfl

/-! ### Sound caches -/

namespace TreeCache

/-- What `c.insert key made` holds was there before, or is `made` under `key`. -/
theorem get?_insert {c : TreeCache} {key key' : CacheKey} {made o : TreeObject}
    (h : (c.insert key made).2.get? key' = some o) :
    c.get? key' = some o ∨ key' = key ∧ o = made := by
  unfold insert at h
  split at h
  · exact .inl h
  · split at h
    · by_cases hkey : key' = key
      · refine .inr ⟨hkey, ?_⟩
        simpa [get?, hkey] using h.symm
      · refine .inl ?_
        rwa [get?, List.lookup_cons, beq_false_of_ne hkey] at h
    · -- A full cache takes no more.
      exact .inl h

/-- `c.insert key made` gives out `made`, or what was there before. -/
theorem insert_fst (c : TreeCache) (key : CacheKey) (made : TreeObject) :
    (c.insert key made).1 = made ∨ c.get? key = some (c.insert key made).1 := by
  unfold insert
  split
  · rename_i kept hkept
    exact .inr hkept
  · split <;> exact .inl rfl

end TreeCache

namespace Memory

/-- The cache holds for each `key` nothing but the tree `key.reading`. -/
def Sound (m : Memory) : Prop := ∀ key o, m.find? key = some o → key.reading = .ok o.tree

/-- `keep` of `key.reading` gives out an object with this tree, and the memory stays `Sound`. -/
theorem Sound.keep {m : Memory} (h : m.Sound) {key : CacheKey} {tree : Expr}
    (htree : key.reading = .ok tree) :
    (m.keep key tree).1.tree = tree ∧ (m.keep key tree).2.Sound := by
  obtain ⟨cache, births, logged⟩ := m
  cases cache with
  | none => exact ⟨rfl, nofun⟩
  | some c =>
    constructor
    · rcases c.insert_fst key ⟨births, tree⟩ with hmade | hkept
      · exact congrArg TreeObject.tree hmade
      · exact Except.ok.inj ((h key _ hkept).symm.trans htree)
    · intro key' o ho
      rcases TreeCache.get?_insert ho with hold | ⟨rfl, rfl⟩
      · exact h key' o hold
      · exact htree

end Memory

/-! ### Contracts -/

/-- The contract of a computation: it asks the cache for `key` only, hands it only `key.reading`, and comes after
`n` steps at most to a result with the property `P`, if the cache answers with that tree. -/
inductive Work.Meets (key : CacheKey) (P : α → Prop) : Nat → Work α → Prop where
  | done {n : Nat} {a : α} : P a → Meets key P n (.done a)
  | log {n : Nat} {e : Log.Event} {next : Work α} :
      Meets key P n next → Meets key P (n + 1) (.log e next)
  | exchange {n : Nat} {request : Option String} {next : Option String → Work α} :
      (∀ old, Meets key P n (next old)) → Meets key P (n + 1) (.exchange request next)
  | find {n : Nat} {next : Option TreeObject → Work α} :
      (∀ found, (∀ o ∈ found, key.reading = .ok o.tree) → Meets key P n (next found)) →
      Meets key P (n + 1) (.find key next)
  | keep {n : Nat} {tree : Expr} {next : TreeObject → Work α} :
      key.reading = .ok tree → (∀ o, o.tree = tree → Meets key P n (next o)) →
      Meets key P (n + 1) (.keep key tree next)

namespace Work

variable {key : CacheKey} {P : α → Prop} {Q : β → Prop} {m n : Nat}

theorem Meets.mono {w : Work α} (h : Meets key P m w) (hle : m ≤ n) : Meets key P n w := by
  induction h generalizing n with
  | done ha => exact .done ha
  | log _ ih =>
    obtain ⟨n, rfl⟩ := Nat.exists_eq_add_of_lt hle
    exact .log (ih (by omega))
  | exchange _ ih =>
    obtain ⟨n, rfl⟩ := Nat.exists_eq_add_of_lt hle
    exact .exchange fun old => ih old (by omega)
  | find _ ih =>
    obtain ⟨n, rfl⟩ := Nat.exists_eq_add_of_lt hle
    exact .find fun found hfound => ih found hfound (by omega)
  | keep htree _ ih =>
    obtain ⟨n, rfl⟩ := Nat.exists_eq_add_of_lt hle
    exact .keep htree fun o ho => ih o ho (by omega)

/-- If `w` has `m` steps and `f` of its result has `n`, then `w.bind f` has `m + n`. -/
theorem Meets.bind {w : Work α} {f : α → Work β} (h : Meets key P m w)
    (hf : ∀ a, P a → Meets key Q n (f a)) : Meets key Q (m + n) (w.bind f) := by
  induction h with
  | done ha => exact (hf _ ha).mono (Nat.le_add_left _ _)
  | log _ ih =>
    rw [Nat.add_right_comm]
    exact .log ih
  | exchange _ ih =>
    rw [Nat.add_right_comm]
    exact .exchange ih
  | find _ ih =>
    rw [Nat.add_right_comm]
    exact .find ih
  | keep htree _ ih =>
    rw [Nat.add_right_comm]
    exact .keep htree ih

/-- The same for `andThen`: if `w` comes to `x`, and `f a` to `y a`, then `w.andThen f` comes to `x.bind y`. -/
theorem Meets.andThen {x : Except ε α} {y : α → Except ε β} {w : Work (Except ε α)}
    {f : α → Work (Except ε β)} (h : Meets key (· = x) m w)
    (hf : ∀ a, x = .ok a → Meets key (· = y a) n (f a)) :
    Meets key (· = x.bind y) (m + n) (w.andThen f) := by
  refine h.bind fun a ha => ?_
  cases x with
  | error e =>
    rw [ha]
    exact .done rfl
  | ok x =>
    rw [ha]
    exact hf x rfl

/-- Each of the `events` takes a step. -/
theorem meets_logAll {w : Work α} (h : Meets key P n w) (events : List Log.Event) :
    Meets key P (n + events.length) (logAll w events) := by
  induction events with
  | nil => exact h
  | cons e es ih => exact .log ih

/-- `ofLogged x` comes to `x.value`, with a step for each event. -/
theorem meets_ofLogged (x : Log.Logged α) :
    Meets key (· = x.value) x.events.length (ofLogged x) := by
  have h : Meets key (· = x.value) 0 (.done x.value) := .done rfl
  have hlogged := meets_logAll h x.events
  rw [Nat.zero_add] at hlogged
  exact hlogged

/-- The same for `ofStage x f`, which changes the errors by `f`. -/
theorem meets_ofStage (key : CacheKey) (x : Log.Logged (Except ε α)) (f : ε → δ) :
    Meets key (· = x.value.mapError f) x.events.length (ofStage x f) :=
  meets_ofLogged ⟨x.value.mapError f, x.events⟩

end Work

/-- **One step** of a worker under its contract keeps the cache `Sound`, and leaves one step less. -/
theorem Worker.meets_step {key : CacheKey} {P : α → Prop} {n : Nat} {w : Worker α} {m : Memory}
    (h : w.work.Meets key P n) (hm : m.Sound) :
    (w.step m).1.work.Meets key P (n - 1) ∧ (w.step m).2.Sound := by
  obtain ⟨work, request⟩ := w
  cases h with
  | done ha => exact ⟨.done ha, hm⟩
  | log hnext => exact ⟨hnext, hm⟩
  | exchange hnext => exact ⟨hnext request, hm⟩
  | find hnext => exact ⟨hnext _ fun o ho => hm key o ho, hm⟩
  | keep htree hnext =>
    obtain ⟨hused, hsound⟩ := hm.keep htree
    exact ⟨hnext _ hused, hsound⟩

/-- The result of a worker under its contract has the property `P`. -/
theorem Worker.meets_result {key : CacheKey} {P : α → Prop} {n : Nat} {w : Worker α} {a : α}
    (h : w.work.Meets key P n) (ha : w.result? = some a) : P a := by
  obtain ⟨work, request⟩ := w
  cases h with
  | done hresult =>
    cases ha
    exact hresult
  | log | exchange | find | keep => cases ha

/-- A worker that `Meets` its contract with no step left has a result. -/
theorem Worker.exists_result {key : CacheKey} {P : α → Prop} {w : Worker α}
    (h : w.work.Meets key P 0) : ∃ a, w.result? = some a := by
  obtain ⟨work, request⟩ := w
  cases h with
  | done => exact ⟨_, rfl⟩

/-- A worker under the contract of a `key` without a `reading` does not change the cache. -/
theorem Worker.cache_step {key : CacheKey} {P : α → Prop} {n : Nat} {w : Worker α} {m : Memory}
    (h : w.work.Meets key P n) {err : PipelineError} (herr : key.reading = .error err) :
    (w.step m).2.cache = m.cache := by
  obtain ⟨work, request⟩ := w
  cases h with
  | done | log | exchange | find => rfl
  | keep htree => cases herr.symm.trans htree

/-- **All steps**: a computation under its contract comes to a result with `P`, and leaves the cache `Sound`. -/
theorem Work.meets_run {key : CacheKey} {P : α → Prop} {n : Nat} {w : Work α}
    (h : w.Meets key P n) {m : Memory} (hm : m.Sound) (request : Option String) :
    P (w.run request m).1 ∧ (w.run request m).2.2.Sound := by
  induction h generalizing m request with
  | done ha => exact ⟨ha, hm⟩
  | @log _ e _ _ ih =>
    have hlogged : Memory.Sound { m with logged := e.forRequest request :: m.logged } := hm
    exact ih hlogged request
  | exchange _ ih => exact ih request hm _
  | find _ ih => exact ih _ (fun o ho => hm key o ho) hm request
  | keep htree _ ih =>
    obtain ⟨hused, hsound⟩ := hm.keep htree
    exact ih _ hused hsound request

/-- `run` of `w.bind f` is `run` of `w`, then of `f`. -/
theorem Work.run_bind (w : Work α) (f : α → Work β) (request : Option String) (m : Memory) :
    (w.bind f).run request m = (f (w.run request m).1).run (w.run request m).2.1 (w.run request m).2.2 := by
  induction w generalizing request m with
  | done a => rfl
  | log e next ih => exact ih request _
  | exchange r next ih => exact ih request r m
  | find key next ih => exact ih _ request m
  | keep key tree next ih => exact ih _ request _

/-! ### Steps left -/

/-- In a `schedule`, each step is one less of those `left` to the worker it belongs to. -/
theorem left_sub_count (left : Nat → Nat) (j : Nat) (schedule : List Nat) :
    (fun k => (if k = j then left k - 1 else left k) - schedule.count k) =
      fun k => left k - (j :: schedule).count k := by
  funext k
  rw [List.count_cons]
  by_cases hk : k = j
  · rw [if_pos hk, if_pos (beq_iff_eq.2 hk.symm)]
    omega
  · rw [if_neg hk, if_neg (fun heq => hk (beq_iff_eq.1 heq).symm)]
    omega

/-! ### The contracts of the calls -/

namespace Pipeline

/-- `read` comes to `reading` in two steps. -/
theorem meets_read (p : Preferences) (normalized : String) {key : CacheKey} :
    (read p normalized).Meets key (· = (cacheKey p normalized).reading) 2 := by
  have htokens := Work.meets_ofStage key (tokenize p.lexical normalized) PipelineError.lex
  rw [events_tokenize, tokenize_value] at htokens
  exact htokens.andThen fun tokens _ => Work.meets_ofStage key (parse tokens) PipelineError.parse

/-- `compile` comes to `treeOf` in five steps, and is about `keyOf`. -/
theorem meets_compile (p : Preferences) (expression : String) :
    (compile p expression).Meets (keyOf p expression)
      (fun r => r.map TreeObject.tree = treeOf p expression) 5 := by
  refine (Work.meets_ofLogged (normalize expression)).bind (m := 1) (n := 4) ?_
  rintro _ rfl
  refine .find fun found hfound => ?_
  cases found with
  | some object =>
    -- The contract relies on the cache: what it holds is what would be read.
    exact .log (.done (hfound object rfl).symm)
  | none =>
    refine (meets_read p _).bind (n := 1) fun read hread => ?_
    cases read with
    | error e => exact .done hread
    | ok tree =>
      -- Another call may have been faster; its tree is the same.
      refine .keep hread.symm fun object hobject => .done ?_
      rw [Except.map, hobject]
      exact hread

/-- `evaluate` comes to `answerOf` in eight steps, and is about `keyOf`. -/
theorem meets_evaluate (p : Preferences) (elapsed : Nat) (expression values : String) :
    (evaluate p elapsed expression values).Meets (keyOf p expression)
      (· = answerOf p expression values) 8 := by
  have hbind := Work.meets_ofStage (keyOf p expression) (bind p.binding values)
    PipelineError.binding
  rw [events_bind] at hbind
  refine (meets_compile p expression).bind (n := 3) fun compiled hcompiled => ?_
  rw [answerOf, ← hcompiled]
  cases compiled with
  | error e => exact .done rfl
  | ok object =>
    refine hbind.andThen (n := 2) fun b _ => ?_
    have hevaluate := Work.meets_ofStage (keyOf p expression)
      (BoolCalc.evaluate p.evaluation object.tree b) PipelineError.evaluation
    rw [events_evaluate] at hevaluate
    exact hevaluate.andThen (n := 1) fun result _ => .log (.done rfl)

variable {p : Preferences} {expression : String} {m : Memory} {request : Option String}

/-- If `compile` comes to an `object`, its tree is `treeOf p expression`. -/
theorem treeOf_of_compile (hm : m.Sound) {object : TreeObject}
    (h : ((compile p expression).run request m).1 = .ok object) : treeOf p expression = .ok object.tree := by
  rw [← (Work.meets_run (meets_compile p expression) hm request).1, h]
  rfl

/-- `compile` comes to some object exactly if `treeOf p expression` is a tree. -/
theorem exists_compile_eq_ok_iff (hm : m.Sound) :
    (∃ object, ((compile p expression).run request m).1 = .ok object) ↔ ∃ tree, treeOf p expression = .ok tree := by
  rw [← (Work.meets_run (meets_compile p expression) hm request).1]
  cases ((compile p expression).run request m).1 with
  | error e => simp [Except.map]
  | ok object => simp [Except.map]

/-- `evaluate` comes to `answerOf`, however long it takes (`elapsed`). -/
theorem run_evaluate_fst (hm : m.Sound) (elapsed : Nat) (values : String) :
    ((evaluate p elapsed expression values).run request m).1 = answerOf p expression values :=
  (Work.meets_run (meets_evaluate p elapsed expression values) hm request).1

end Pipeline

end BoolCalc
