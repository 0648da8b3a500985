import Mathlib.Data.List.Find
import BoolCalc.Proofs.Evaluation.Operands

namespace BoolCalc

open Grammar

/-!
# What evaluating a tree comes to

* `walk_not`, `walk_join`, ... : the value of a tree in terms of its parts;
* `Outcome` : what a walk over a tree may come to, whether or not it skips operands;
* `outcome_walk` : every walk over a tree whose variables are bound comes to that;
* `Expr.unbound?`, `evaluate_eq_unbound_iff` : the first variable without a value, which is the one that fails;
* `evaluate_congr` : values of names that are not in the tree do not matter;
* `evaluate_value` : an unbound variable comes first, then the depth, and then there is the truth value.
-/

/-- The first of `e.names`, from left to right, without a value in `b`. -/
def Expr.unbound? (b : Bindings) (e : Expr) : Option String :=
  e.names.find? fun name => !b.contains name

namespace Evaluation

variable {short : Bool} {c : Connective} {v : String → Bool} {b : Bindings} {depth : Nat}

/-! ### The walk in terms of its parts -/

theorem walk_literal (value : Bool) : walk short b depth (.literal value) =
    if Limits.evaluationDepth < depth then .error .tooDeep else .ok value := by
  rw [walk]

theorem walk_variable {name : String} {value : Bool} (h : b.get? name = some value) :
    walk short b depth (.variable name) =
      if Limits.evaluationDepth < depth then .error .tooDeep else .ok value := by
  rw [walk, h]

theorem walk_not (e : Expr) : walk short b depth (.not e) =
    if Limits.evaluationDepth < depth then .error .tooDeep
    else (walk short b (depth + 1 + Rule.unary.parens e) e).map (!·) := by
  rw [walk, depthUnder_none]

theorem walk_join (l r : Expr) : walk short b depth (c.join l r) =
    if Limits.evaluationDepth < depth then .error .tooDeep
    else walkRun short b c depth false (operands c l r) := by
  cases c <;> rw [Connective.join, walk]

theorem walkRun_cons (decided : Bool) (e : Expr) (es : List Expr) :
    walkRun short b c depth decided (e :: es) =
      if decided && short then .ok c.absorbing
      else (walk short b (depth + c.operandRule.parens e) e).bind fun x =>
        walkRun short b c depth (decided || x == c.absorbing) es := by
  rw [walkRun, depthUnder_some]
  cases walk short b (depth + c.operandRule.parens e) e <;> rfl

/-! ### Outcomes -/

/-- The `result` of a walk over a tree with the truth value `x` that lies `within` the limit, or not: `.ok x`, or
`.error .tooDeep` if the tree is not within the limit, and always then unless operands may be skipped (`short`). -/
structure Outcome (short : Bool) (within : Prop) (x : Bool) (result : Except EvaluationError Bool) :
    Prop where
  value_or : result = .ok x ∨ result = .error .tooDeep ∧ ¬ within
  full : short = false → ¬ within → result = .error .tooDeep

namespace Outcome

variable {within within' : Prop} {x : Bool} {result : Except EvaluationError Bool}

theorem eq_ok (h : Outcome short within x result) (hwithin : within) : result = .ok x :=
  h.value_or.resolve_right fun hdeep => hdeep.2 hwithin

/-- For `short = false` the limit decides between `.ok x` and `.error .tooDeep`. -/
theorem eq_ite (h : Outcome false within x result) [Decidable within] :
    result = if within then .ok x else .error .tooDeep := by
  split
  · exact h.eq_ok ‹_›
  · exact h.full rfl ‹_›

theorem ok (hwithin : within) : Outcome short within x (.ok x) :=
  ⟨.inl rfl, fun _ h => absurd hwithin h⟩

theorem error (hwithin : ¬ within) : Outcome short within x (.error .tooDeep) :=
  ⟨.inr ⟨rfl, hwithin⟩, fun _ _ => rfl⟩

/-- `Outcome` for a condition `within'` that is equivalent to `within`. -/
theorem congr (h : Outcome short within x result) (hiff : within ↔ within') :
    Outcome short within' x result := by
  rwa [← propext hiff]

/-- The negation of a tree: `x` becomes `!x`, and `within` stays. -/
theorem not (h : Outcome short within x result) : Outcome short within (!x) (result.map (!·)) := by
  constructor
  · rcases h.value_or with hvalue | ⟨hdeep, hout⟩
    · rw [hvalue]
      exact .inl rfl
    · rw [hdeep]
      exact .inr ⟨rfl, hout⟩
  · intro hshort hout
    rw [h.full hshort hout]
    rfl

/-- A tree within `within`, and behind it others within `within'` that together have the value `y`:
`result.bind rest` is an `Outcome` for `within ∧ within'`. -/
theorem andThen {y : Bool} {rest : Bool → Except EvaluationError Bool}
    (h : Outcome short within x result) (hrest : Outcome short within' y (rest x)) :
    Outcome short (within ∧ within') y (result.bind rest) := by
  rcases h.value_or with hvalue | ⟨hdeep, hout⟩
  · rw [hvalue]
    show Outcome short (within ∧ within') y (rest x)
    constructor
    · rcases hrest.value_or with hvalue' | ⟨hdeep', hout'⟩
      · exact .inl hvalue'
      · exact .inr ⟨hdeep', fun hboth => hout' hboth.2⟩
    · intro hshort hout
      apply hrest.full hshort
      intro hwithin'
      apply hout
      refine ⟨?_, hwithin'⟩
      -- The tree in front has a value although nothing is skipped.
      by_contra hfront
      rw [h.full hshort hfront] at hvalue
      cases hvalue
  · rw [hdeep]
    exact .error fun hboth => hout hboth.1

/-- The test `Limits.evaluationDepth < depth`, with which a walk begins, changes nothing: a tree that is `depth + n`
deep is then not within the limit. -/
theorem guarded {n : Nat} (h : depth ≤ Limits.evaluationDepth →
    Outcome short (depth + n ≤ Limits.evaluationDepth) x result) :
    Outcome short (depth + n ≤ Limits.evaluationDepth) x
      (if Limits.evaluationDepth < depth then .error .tooDeep else result) := by
  split
  · exact .error (by omega)
  · exact h (Nat.le_of_not_lt ‹_›)

end Outcome

/-- `walkRun` over the operands `es` of a run of `c`, if `walk` over each is an `Outcome` for it. The value is
`c.absorbing` if the run is already `decided` or an operand has it, else `!c.absorbing`; every operand has to be
within the limit. -/
theorem outcome_walkRun (c : Connective) (depth : Nat) (decided : Bool) {es : List Expr}
    (h : ∀ o ∈ es, ∀ depth, Outcome short (depth + o.nesting ≤ Limits.evaluationDepth) (o.truth v)
      (walk short b depth o)) :
    Outcome short (∀ o ∈ es, depth + c.operandRule.need o ≤ Limits.evaluationDepth)
      (if decided || es.any (·.truth v == c.absorbing) then c.absorbing else !c.absorbing)
      (walkRun short b c depth decided es) := by
  induction es generalizing decided with
  | nil =>
    rw [walkRun, List.any_nil, Bool.or_false]
    exact .ok (List.forall_mem_nil _)
  | cons o es ih =>
    obtain ⟨ho, hes⟩ := List.forall_mem_cons.1 h
    have ho := ho (depth + c.operandRule.parens o)
    rw [Nat.add_assoc, ← Rule.need] at ho
    -- `ih` is taken at what is decided after `o`, whether or not the walk gets there.
    have ih := ih (decided || o.truth v == c.absorbing) hes
    rw [walkRun_cons, List.any_cons, ← Bool.or_assoc]
    by_cases hskip : (decided && short) = true
    · -- The run is decided, and the other operands are skipped.
      rw [if_pos hskip]
      obtain ⟨rfl, rfl⟩ := Bool.and_eq_true_iff.1 hskip
      exact ⟨.inl rfl, by simp⟩
    · -- The operand comes to what it may, and the others after it.
      rw [if_neg hskip]
      refine (ho.andThen ih).congr ?_
      rw [List.forall_mem_cons]

/-- **Walks.** If `b` has the values of `v` for the variables of `e`, `walk short b depth e` is an `Outcome` for
`e.truth v` and the condition `depth + e.nesting ≤ Limits.evaluationDepth`. -/
theorem outcome_walk {e : Expr} (hb : e.Agrees v b) (depth : Nat) :
    Outcome short (depth + e.nesting ≤ Limits.evaluationDepth) (e.truth v) (walk short b depth e) := by
  induction e using operandInduction generalizing depth with
  | literal value =>
    rw [walk_literal]
    exact .guarded .ok
  | name name =>
    rw [walk_variable (hb name List.mem_cons_self)]
    exact .guarded .ok
  | not e ih =>
    have he := ih hb (depth + 1 + Rule.unary.parens e)
    -- The walk counts the level of NOT and that of the parentheses its operand needs, as `nesting` does.
    have hlevels : depth + 1 + Rule.unary.parens e + e.nesting = depth + (Expr.not e).nesting := by
      rw [Expr.nesting]
      omega
    rw [hlevels] at he
    rw [walk_not]
    apply Outcome.guarded
    intro _
    exact he.not
  | run c l r ih =>
    have hoperands := agrees_operands_iff.2 hb
    have hrun := outcome_walkRun c depth false fun o ho => ih o ho (hoperands o ho)
    rw [walk_join, truth_join_eq]
    apply Outcome.guarded
    intro hdepth
    -- All operands are within the limit in their places exactly if the run is.
    exact hrun.congr (add_nesting_join_le_iff hdepth).symm

/-! ### Unbound variables -/

/-- `eraseDups` keeps the first element that has the property `p`. -/
theorem find?_eraseDups (p : String → Bool) (names : List String) :
    names.eraseDups.find? p = names.find? p := by
  induction h : names.length using Nat.strong_induction_on generalizing names with
  | h n ih =>
    subst h
    cases names with
    | nil => rfl
    | cons name names =>
      rw [List.eraseDups_cons, List.find?_cons, List.find?_cons]
      cases hname : p name with
      | true => rfl
      | false =>
        have hlt := Nat.lt_succ_of_le (List.length_filter_le (fun other => !other == name) names)
        rw [ih _ hlt _ rfl, List.find?_filter]
        -- What is dropped are copies of a name without the property.
        refine congrArg (List.find? · names) (funext fun other => ?_)
        by_cases hother : other = name
        · simp [hother, hname]
        · simp [hother]

/-- `firstUnbound?`, which searches `vars`, finds the first unbound name among the leaves. -/
theorem firstUnbound?_eq (b : Bindings) (e : Expr) : firstUnbound? b e = e.unbound? b :=
  find?_eraseDups _ _

/-- If `e.unbound? b = none`, there is an assignment `v` with `e.Agrees v b`. -/
theorem exists_agrees {e : Expr} (h : e.unbound? b = none) : ∃ v, e.Agrees v b := by
  refine ⟨fun name => (b.get? name).getD false, ?_⟩
  intro name hname
  have hbound : b.get? name ≠ none := by
    simpa [Bindings.contains] using List.find?_eq_none.1 h name hname
  obtain ⟨value, hvalue⟩ := Option.ne_none_iff_exists'.1 hbound
  simp only [hvalue, Option.getD_some]

/-- The value of `evaluate` is that of `run`, whatever is logged. -/
theorem evaluate_value_eq_run (p : Preferences.Evaluation) (e : Expr) (b : Bindings) :
    (evaluate p e b).value = run p.shortCircuit e b := by
  unfold evaluate
  cases run p.shortCircuit e b <;> rfl

/-- `run` over a tree without unbound variables is `walk` from depth 0. -/
theorem run_of_bound {e : Expr} (h : e.unbound? b = none) : run short e b = walk short b 0 e := by
  rw [run, firstUnbound?_eq, h]

/-! ### Bindings that agree -/

variable {b' : Bindings}

/-- `unbound?` depends on the values of `e.names` only. -/
theorem unbound?_congr {e : Expr} (h : ∀ name ∈ e.names, b.get? name = b'.get? name) :
    e.unbound? b = e.unbound? b' := by
  refine List.find?_congr fun name hname => ?_
  rw [Bindings.contains, Bindings.contains, h name hname]

/-- `walkRun` is the same under `b` and `b'`, if `walk` over each operand is. -/
theorem walkRun_congr (c : Connective) (decided : Bool) {es : List Expr}
    (h : ∀ o ∈ es, ∀ depth, walk short b depth o = walk short b' depth o) :
    walkRun short b c depth decided es = walkRun short b' c depth decided es := by
  induction es generalizing decided with
  | nil => rw [walkRun, walkRun]
  | cons o es ih =>
    obtain ⟨ho, hes⟩ := List.forall_mem_cons.1 h
    rw [walkRun_cons, walkRun_cons, ho]
    simp only [ih _ hes]

/-- `walk` depends on the values of `e.names` only. -/
theorem walk_congr {e : Expr} (h : ∀ name ∈ e.names, b.get? name = b'.get? name) (depth : Nat) :
    walk short b depth e = walk short b' depth e := by
  induction e using operandInduction generalizing depth with
  | literal => rw [walk_literal, walk_literal]
  | name name => rw [walk, walk, h name List.mem_cons_self]
  | not e ih => rw [walk_not, walk_not, ih h]
  | run c l r ih =>
    have hoperands := forall_names_operands_iff.2 h
    rw [walk_join, walk_join, walkRun_congr c false fun o ho => ih o ho (hoperands o ho)]

end Evaluation

open Evaluation

/-- The value of `evaluate` depends on the values of `e.names` only. -/
theorem evaluate_congr {e : Expr} {b b' : Bindings} (h : ∀ name ∈ e.names, b.get? name = b'.get? name)
    (p : Preferences.Evaluation) : (evaluate p e b).value = (evaluate p e b').value := by
  rw [evaluate_value_eq_run, evaluate_value_eq_run, run, run, firstUnbound?_eq, firstUnbound?_eq,
    unbound?_congr h, walk_congr h]

/-- Under bindings that agree with `v`, a tree with `e.nesting ≤ Limits.evaluationDepth` evaluates to `e.truth v`. -/
theorem evaluate_of_agrees {v : String → Bool} {e : Expr} {b : Bindings} (hb : e.Agrees v b)
    (he : e.nesting ≤ Limits.evaluationDepth) (p : Preferences.Evaluation) :
    (evaluate p e b).value = .ok (e.truth v) := by
  have hbound : e.unbound? b = none := by
    apply List.find?_eq_none.2
    intro name hname
    rw [Bindings.contains, hb name hname]
    exact Bool.false_ne_true
  rw [evaluate_value_eq_run, run_of_bound hbound]
  apply (outcome_walk hb 0).eq_ok
  rwa [Nat.zero_add]

/-- A tree with `e.nesting ≤ Limits.evaluationDepth` never fails with `.tooDeep`. -/
theorem evaluate_ne_tooDeep {e : Expr} (he : e.nesting ≤ Limits.evaluationDepth)
    (p : Preferences.Evaluation) (b : Bindings) : (evaluate p e b).value ≠ .error .tooDeep := by
  cases h : e.unbound? b with
  | some name =>
    rw [evaluate_value_eq_run, run, firstUnbound?_eq, h]
    nofun
  | none =>
    obtain ⟨v, hv⟩ := exists_agrees h
    rw [evaluate_of_agrees hv he]
    nofun

/-- `evaluate` fails with `.unboundVariable name` exactly if `name` is `e.unbound? b`. -/
theorem evaluate_eq_unbound_iff {p : Preferences.Evaluation} {e : Expr} {b : Bindings} {name : String} :
    (evaluate p e b).value = .error (.unboundVariable name) ↔ e.unbound? b = some name := by
  rw [evaluate_value_eq_run]
  cases h : e.unbound? b with
  | some first =>
    rw [run, firstUnbound?_eq, h]
    simp
  | none =>
    obtain ⟨v, hv⟩ := exists_agrees h
    have houtcome : Outcome p.shortCircuit _ _ (walk p.shortCircuit b 0 e) := outcome_walk hv 0
    rw [run_of_bound h]
    rcases houtcome.value_or with hvalue | ⟨hdeep, -⟩
    · simp [hvalue]
    · simp [hdeep]

/-- **Evaluation.** For a tree `e`, bindings `b` and preferences `p`:
* if `e.unbound? b` is a `name`, the result is `.unboundVariable name`, however deep `e` is and whatever `p` says;
* otherwise `b` has the values of some `v` for the variables of `e`. Without `shortCircuit` the result is
  `e.truth v` if `e.nesting` is within the limit, else `.tooDeep`. With `shortCircuit` it is `e.truth v`, or
  `.tooDeep` where the walk without it fails with `.tooDeep` as well. -/
theorem evaluate_value (p : Preferences.Evaluation) (e : Expr) (b : Bindings) :
    (∀ name, e.unbound? b = some name →
      (evaluate p e b).value = .error (.unboundVariable name)) ∧
    (e.unbound? b = none →
      ∃ v, e.Agrees v b ∧
        (evaluate { p with shortCircuit := false } e b).value =
          (if e.nesting ≤ Limits.evaluationDepth then .ok (e.truth v) else .error .tooDeep) ∧
        ((evaluate { p with shortCircuit := true } e b).value = .ok (e.truth v) ∨
          (evaluate { p with shortCircuit := true } e b).value = .error .tooDeep ∧
            (evaluate { p with shortCircuit := false } e b).value = .error .tooDeep)) := by
  simp only [evaluate_value_eq_run]
  constructor
  · intro name h
    rw [run, firstUnbound?_eq, h]
  · intro h
    obtain ⟨v, hv⟩ := exists_agrees h
    have houtcome (short : Bool) : Outcome short (e.nesting ≤ Limits.evaluationDepth) (e.truth v)
        (walk short b 0 e) := by
      rw [← Nat.zero_add e.nesting]
      exact outcome_walk hv 0
    refine ⟨v, hv, ?_, ?_⟩
    · rw [run_of_bound h]
      exact (houtcome false).eq_ite
    · rw [run_of_bound h, run_of_bound h]
      rcases (houtcome true).value_or with hvalue | ⟨hdeep, hout⟩
      · exact .inl hvalue
      · exact .inr ⟨hdeep, (houtcome false).full rfl hout⟩

/-- `a` or `b`, the latter under one negation more than `Limits.evaluationDepth`. -/
def deepTree : Expr :=
  .or (.variable "a") ((Expr.not)^[Limits.evaluationDepth + 1] (.variable "b"))

/-- The cases of the theorem for `deepTree`: without a value for `b` the unbound variable is reported and not the
depth; with one, the walk that skips nothing fails with `.tooDeep`. -/
theorem evaluate_deepTree :
    deepTree.unbound? (.ofPairs [("a", true)]) = some "b" ∧
    (evaluate {} deepTree (.ofPairs [("a", true)])).value = .error (.unboundVariable "b") ∧
    deepTree.unbound? (.ofPairs [("a", true), ("b", true)]) = none ∧
    (evaluate { shortCircuit := false } deepTree (.ofPairs [("a", true), ("b", true)])).value =
      .error .tooDeep := by
  have hunbound : deepTree.unbound? (.ofPairs [("a", true)]) = some "b" := by decide +kernel
  have hbound : deepTree.unbound? (.ofPairs [("a", true), ("b", true)]) = none := by
    decide +kernel
  refine ⟨hunbound, (evaluate_value {} deepTree _).1 "b" hunbound, hbound, ?_⟩
  obtain ⟨v, -, h, -⟩ := (evaluate_value {} deepTree _).2 hbound
  rw [h, if_neg (by decide +kernel)]

end BoolCalc
