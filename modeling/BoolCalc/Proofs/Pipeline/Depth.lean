import BoolCalc.Proofs.Evaluation.Calls
import BoolCalc.Proofs.Grammar.Recognition
import BoolCalc.Proofs.Pipeline.Session

namespace BoolCalc

open Evaluation Grammar Pipeline

/-!
# Reading and evaluating count depth alike

* `nesting_le_of_parse` : a tree that was read nests no deeper than the depth reached on the way;
* `isClientError_of_ne` : every failure but that of a tree that is too deep is the caller's;
* `answerOf_ne_tooDeep` : no expression is too deep to be evaluated;
* `depths_agree` : **depth**, the greatest one of a walk is the least nesting of tokens for the tree, and
  no call fails because of it.
-/

/-- `e.nesting` is at most the depth reached when `e` was read, which is within `Limits.parseDepth`. -/
theorem nesting_le_of_parse {s : TokenStream} {e : Expr} (h : (parse s).value = .ok e) :
    e.nesting ≤ (parseStream s).value.deepest ∧
      (parseStream s).value.deepest ≤ Limits.parseDepth := by
  obtain ⟨d, -, -, -, -, -, hvalue, hlimit, hdeepest⟩ := Syntax.exists_derivation_of_parse h
  rw [hdeepest]
  exact ⟨(isLeast_nesting e).2 ⟨d, hvalue, rfl⟩, hlimit⟩

/-- `e.nesting` is the least over all derivations of `e` of the greatest of their `levels`. -/
theorem isLeast_levels (e : Expr) :
    IsLeast {n | ∃ d : Derivation .disjunction, d.value = e ∧ IsGreatest {l | l ∈ d.levels} n}
      e.nesting := by
  have hset : {n | ∃ d : Derivation .disjunction, d.value = e ∧ IsGreatest {l | l ∈ d.levels} n} =
      {n | ∃ d : Derivation .disjunction, d.value = e ∧ d.nesting = n} := by
    ext n
    constructor
    · rintro ⟨d, he, hn⟩
      exact ⟨d, he, d.isGreatest_nesting.unique hn⟩
    · rintro ⟨d, he, rfl⟩
      exact ⟨d, he, d.isGreatest_nesting⟩
  rw [hset]
  exact isLeast_nesting e

/-- Every error but `.evaluation .tooDeep` is the client's. -/
theorem isClientError_of_ne {err : PipelineError} (h : err ≠ .evaluation .tooDeep) :
    err.isClientError = true := by
  cases err with
  | lex e => cases e <;> rfl
  | parse e => cases e <;> rfl
  | binding e => cases e <;> rfl
  | evaluation e =>
    cases e with
    | unboundVariable name => rfl
    | tooDeep => exact absurd rfl h

/-- A tree that was read nests within `Limits.evaluationDepth`. -/
theorem nesting_le_of_reading {key : CacheKey} {e : Expr} (h : key.reading = .ok e) :
    e.nesting ≤ Limits.evaluationDepth := by
  obtain ⟨tokens, htokens⟩ := CacheKey.exists_tokens_of_reading h
  obtain ⟨hdeepest, hlimit⟩ := nesting_le_of_parse htokens
  exact (hdeepest.trans hlimit).trans (by decide)

/-- No evaluation of an expression fails with `.tooDeep`. -/
theorem answerOf_ne_tooDeep (p : Preferences) (expression values : String) :
    Pipeline.answerOf p expression values ≠ .error (.evaluation .tooDeep) := by
  unfold Pipeline.answerOf Pipeline.treeOf
  cases htree : (Pipeline.keyOf p expression).reading with
  | error e =>
    intro h
    cases h
    exact CacheKey.reading_ne_evaluation .tooDeep htree
  | ok tree =>
    have hne := evaluate_ne_tooDeep (nesting_le_of_reading htree) p.evaluation
    simp only [Except.bind]
    cases (bind p.binding values).value with
    | error e => nofun
    | ok b =>
      simp only [Except.mapError]
      cases hvalue : (evaluate p.evaluation tree b).value with
      | error e =>
        intro h
        cases h
        exact hne b hvalue
      | ok result => nofun

/-- **Depth.** The depth of reading and that of evaluation:
* If `e` is read from `s` and has no unbound variable, the greatest depth `m` of its walk without skipped operands
  (`tracedWalk`) is at most the depth reached in reading. It is the least over all derivations of `e` of the
  greatest of their `levels`.
* In any session no call fails with `.tooDeep`, and every error is the client's. -/
theorem depths_agree :
    (∀ (s : TokenStream) (e : Expr) (b : Bindings), (parse s).value = .ok e →
      e.unbound? b = none →
      (tracedWalk false b 0 e).1 = (evaluate { shortCircuit := false } e b).value ∧
      ∃ m, IsGreatest {depth | depth ∈ (tracedWalk false b 0 e).2} m ∧
        m ≤ (parseStream s).value.deepest ∧
        IsLeast {n | ∃ d : Derivation .disjunction, d.value = e ∧ IsGreatest {l | l ∈ d.levels} n}
          m) ∧
    (∀ (capacity : Option Nat) (calls : List Call) (schedule : List Nat) (k : Nat)
      (p : Preferences) (elapsed : Nat) (expression values : String) (err : PipelineError),
      calls[k]? = some (.evaluate p elapsed expression values) →
      ((Session.start capacity calls).run schedule).answer? k = some (.response (.error err)) →
      err ≠ .evaluation .tooDeep ∧ err.isClientError = true) := by
  constructor
  · intro s e b hparse hbound
    obtain ⟨hdeepest, hlimit⟩ := nesting_le_of_parse hparse
    obtain ⟨v, hv⟩ := exists_agrees hbound
    have hwithin : e.nesting ≤ Limits.evaluationDepth := (hdeepest.trans hlimit).trans (by decide)
    refine ⟨?_, e.nesting, isGreatest_calls hv hwithin, hdeepest, isLeast_levels e⟩
    rw [fst_tracedWalk, evaluate_value_eq_run, run_of_bound hbound]
  · intro capacity calls schedule k p elapsed expression values err hk hanswer
    have h := (Session.upholds_run capacity calls schedule).eq_answer hk hanswer
    have hne : err ≠ .evaluation .tooDeep := by
      rintro rfl
      exact answerOf_ne_tooDeep p expression values (Answer.response.inj h).symm
    exact ⟨hne, isClientError_of_ne hne⟩

/-- The derivation of `((a OR b)) AND c`. -/
def redundantDerivation : Derivation .disjunction :=
  let aOrB : Derivation .disjunction :=
    .disjunction (.conjunction (.plain (.identifier "a")) .andNil)
      (.orCons (.conjunction (.plain (.identifier "b")) .andNil) .orNil)
  .disjunction (.conjunction (.plain (.group (.disjunction
    (.conjunction (.plain (.group aOrB)) .andNil) .orNil)))
    (.andCons (.plain (.identifier "c")) .andNil)) .orNil

/-- The tokens of `((a OR b)) AND c`. -/
def redundantStream : TokenStream where
  body := redundantDerivation.tokens.map fun t => ⟨t, .point .start⟩
  final := .point .start

/-- Redundant parentheses count in reading only: two levels of `redundantStream` are read, and one is needed. -/
theorem depths_agree_redundant :
    let b := Bindings.ofPairs [("a", true), ("b", true), ("c", true)]
    (parse redundantStream).value = .ok redundantDerivation.value ∧
    (parseStream redundantStream).value.deepest = 2 ∧
    Expr.unbound? b redundantDerivation.value = none ∧
    IsGreatest {depth | depth ∈ (tracedWalk false b 0 redundantDerivation.value).2} 1 ∧
    ((Session.start none [.evaluate .strict 0 "a OR $" ""]).run (List.replicate 8 0)).answer? 0 =
      some (.response (.error (.lex (.invalidCharacter '$' 5 1 6)))) ∧
    (PipelineError.lex (.invalidCharacter '$' 5 1 6)).isClientError = true := by
  intro b
  obtain ⟨hparse, hdeepest⟩ := Syntax.parse_of_derivation (s := redundantStream)
    (d := redundantDerivation) (by decide) (by decide) (by decide)
  have hbound : Expr.unbound? b redundantDerivation.value = none := by decide
  have hanswer : ((Session.start none [.evaluate .strict 0 "a OR $" ""]).run
      (List.replicate 8 0)).answer? 0 =
      some (.response (.error (.lex (.invalidCharacter '$' 5 1 6)))) := by decide +kernel
  obtain ⟨-, m, hgreatest, -, hleast⟩ := depths_agree.1 redundantStream _ b hparse hbound
  obtain rfl : m = 1 := hleast.unique (isLeast_levels redundantDerivation.value)
  exact ⟨hparse, hdeepest, hbound, hgreatest, hanswer,
    (depths_agree.2 none _ (List.replicate 8 0) 0 .strict 0 "a OR $" "" _ rfl hanswer).2⟩

end BoolCalc
