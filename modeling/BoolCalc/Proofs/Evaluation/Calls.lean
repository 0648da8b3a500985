import BoolCalc.Proofs.Evaluation.Walk
import Mathlib.Order.Bounds.Basic

namespace BoolCalc

open Grammar

/-!
# The depths of a walk

* `tracedWalk`, `tracedRun` : the walk with the depths of all trees it is applied to on the way;
* `fst_tracedWalk` : the depths aside, it is the walk;
* `calls_le_iff` : a bound on the depths is a bound on the nesting of the tree;
* `isGreatest_calls` : the greatest of the depths is the nesting of the tree.
-/

namespace Evaluation

/-! ### The walk with its depths -/

/-- The depth `depth` of a call in front of those of the calls that it makes. -/
def visit (depth : Nat) (x : α × List Nat) : α × List Nat := (x.1, depth :: x.2)

mutual

/-- `Evaluation.walk` with a trace: the value of `e` at `depth`, with the depths of all trees whose values are asked
for on the way, from the first to the last. -/
def tracedWalk (short : Bool) (b : Bindings) (depth : Nat) (e : Expr) :
    Except EvaluationError Bool × List Nat :=
  visit depth <|
    if Limits.evaluationDepth < depth then (.error .tooDeep, [])
    else
      match e with
      | .literal value => (.ok value, [])
      | .variable name =>
        match b.get? name with
        | some value => (.ok value, [])
        | none => (.error (.unboundVariable name), [])
      | .not e =>
        let (result, calls) := tracedWalk short b (depthUnder none (depth + 1) e) e
        (result.map (!·), calls)
      | .and l r => tracedRun short b .and depth false (operands .and l r)
      | .or l r => tracedRun short b .or depth false (operands .or l r)
termination_by (e.nodeCount, 0)
decreasing_by
  · exact Prod.Lex.left _ _ (by simp only [Expr.nodeCount]; omega)
  · exact Prod.Lex.left _ _ (totalNodes_operands_lt _ _ _)
  · exact Prod.Lex.left _ _ (totalNodes_operands_lt _ _ _)

/-- `Evaluation.walkRun` with the same trace. -/
def tracedRun (short : Bool) (b : Bindings) (c : Connective) (depth : Nat) (decided : Bool)
    (es : List Expr) : Except EvaluationError Bool × List Nat :=
  match es with
  | [] => (.ok (if decided then c.absorbing else !c.absorbing), [])
  | e :: es =>
    if decided && short then (.ok c.absorbing, [])
    else
      match tracedWalk short b (depthUnder (some c) depth e) e with
      | (.error err, calls) => (.error err, calls)
      | (.ok x, calls) =>
        let (result, later) := tracedRun short b c depth (decided || x == c.absorbing) es
        (result, calls ++ later)
termination_by (totalNodes es, es.length + 1)
decreasing_by
  · refine Prod.Lex.right' _ ?_ ?_ <;> simp [totalNodes]
  · refine Prod.Lex.right' _ ?_ ?_ <;> simp [totalNodes]

end

variable {short : Bool} {c : Connective} {v : String → Bool} {b : Bindings} {depth : Nat}

theorem tracedWalk_not (e : Expr) : tracedWalk short b depth (.not e) =
    visit depth (if Limits.evaluationDepth < depth then (.error .tooDeep, [])
      else ((tracedWalk short b (depth + 1 + Rule.unary.parens e) e).1.map (!·),
        (tracedWalk short b (depth + 1 + Rule.unary.parens e) e).2)) := by
  rw [tracedWalk, depthUnder_none]

theorem tracedWalk_join (l r : Expr) : tracedWalk short b depth (c.join l r) =
    visit depth (if Limits.evaluationDepth < depth then (.error .tooDeep, [])
      else tracedRun short b c depth false (operands c l r)) := by
  cases c <;> rw [Connective.join, tracedWalk]

/-- The trace aside, `tracedRun` is `walkRun` if `tracedWalk` is `walk` for the operands. -/
theorem fst_tracedRun (decided : Bool) {es : List Expr}
    (h : ∀ o ∈ es, ∀ depth, (tracedWalk short b depth o).1 = walk short b depth o) :
    (tracedRun short b c depth decided es).1 = walkRun short b c depth decided es := by
  induction es generalizing decided with
  | nil => rw [tracedRun, walkRun]
  | cons o es ih =>
    obtain ⟨ho, hes⟩ := List.forall_mem_cons.1 h
    rw [tracedRun, walkRun, ← ho]
    split
    · rfl
    · obtain ⟨result, calls⟩ := tracedWalk short b (depthUnder (some c) depth o) o
      cases result with
      | error err => rfl
      | ok x => exact ih _ hes

/-- The trace aside, `tracedWalk` is `walk`. -/
theorem fst_tracedWalk (short : Bool) (b : Bindings) (depth : Nat) (e : Expr) :
    (tracedWalk short b depth e).1 = walk short b depth e := by
  induction e using operandInduction generalizing depth with
  | literal value =>
    rw [tracedWalk, walk, visit]
    split <;> rfl
  | name name =>
    rw [tracedWalk, walk, visit]
    split
    · rfl
    · cases b.get? name <;> rfl
  | not e ih =>
    rw [tracedWalk_not, walk_not, ← ih, visit]
    split <;> rfl
  | run c l r ih =>
    rw [tracedWalk_join, walk_join, ← fst_tracedRun false ih, visit]
    split <;> rfl

/-- A walk asks for the value of the tree itself first, at `depth`. -/
theorem depth_mem_calls (short : Bool) (b : Bindings) (depth : Nat) (e : Expr) :
    depth ∈ (tracedWalk short b depth e).2 := by
  rw [tracedWalk.eq_def, visit]
  exact List.mem_cons_self

/-! ### How deep a walk goes -/

/-- Behind an operand `o` that has a value come the others, if none are skipped. -/
theorem calls_tracedRun_cons {o : Expr} {x : Bool} (decided : Bool) (es : List Expr)
    (h : walk false b (depth + c.operandRule.parens o) o = .ok x) :
    (tracedRun false b c depth decided (o :: es)).2 =
      (tracedWalk false b (depth + c.operandRule.parens o) o).2 ++
        (tracedRun false b c depth (decided || x == c.absorbing) es).2 := by
  rw [← fst_tracedWalk] at h
  rw [tracedRun, depthUnder_some, Bool.and_false, if_neg Bool.false_ne_true]
  generalize tracedWalk false b (depth + c.operandRule.parens o) o = traced at h
  obtain ⟨result, calls⟩ := traced
  obtain rfl : result = .ok x := h
  rfl

/-- What bounds the depths of `tracedRun` bounds those of the walks over its operands, and the other way round. -/
theorem calls_tracedRun_le_iff {es : List Expr} {n : Nat} (decided : Bool)
    (hvalue : ∀ o ∈ es, walk false b (depth + c.operandRule.parens o) o = .ok (o.truth v))
    (h : ∀ o ∈ es, (∀ m ∈ (tracedWalk false b (depth + c.operandRule.parens o) o).2, m ≤ n) ↔
      depth + c.operandRule.need o ≤ n) :
    (∀ m ∈ (tracedRun false b c depth decided es).2, m ≤ n) ↔
      ∀ o ∈ es, depth + c.operandRule.need o ≤ n := by
  induction es generalizing decided with
  | nil =>
    rw [tracedRun]
    exact ⟨fun _ => nofun, fun _ => nofun⟩
  | cons o es ih =>
    obtain ⟨ho, hes⟩ := List.forall_mem_cons.1 h
    obtain ⟨hvalue, hvalues⟩ := List.forall_mem_cons.1 hvalue
    rw [calls_tracedRun_cons decided es hvalue, List.forall_mem_append, List.forall_mem_cons, ho,
      ih _ hvalues hes]

/-- The depths of a walk over `e`, within the limit and with all variables bound, are at most `n` exactly if
`depth + e.nesting` is. -/
theorem calls_le_iff {e : Expr} (hb : e.Agrees v b)
    (hlimit : depth + e.nesting ≤ Limits.evaluationDepth) {n : Nat} :
    (∀ m ∈ (tracedWalk false b depth e).2, m ≤ n) ↔ depth + e.nesting ≤ n := by
  have hdepth : ¬ Limits.evaluationDepth < depth := by omega
  induction e using operandInduction generalizing depth with
  | literal value =>
    rw [tracedWalk, if_neg hdepth, visit, List.forall_mem_singleton]
    rfl
  | name name =>
    rw [tracedWalk, if_neg hdepth, visit, hb name List.mem_cons_self, List.forall_mem_singleton]
    rfl
  | not e ih =>
    -- The operand of NOT is visited one level deeper, and one more if it needs parentheses.
    rw [Expr.nesting] at hlimit ⊢
    have he : (∀ m ∈ (tracedWalk false b (depth + 1 + Rule.unary.parens e) e).2, m ≤ n) ↔
        depth + 1 + Rule.unary.parens e + e.nesting ≤ n := ih hb (by omega) (by omega)
    rw [tracedWalk_not, if_neg hdepth, visit, List.forall_mem_cons, he]
    omega
  | run c l r ih =>
    have hagrees := agrees_operands_iff.2 hb
    have hwithin (o : Expr) (ho : o ∈ operands c l r) :
        depth + c.operandRule.parens o + o.nesting ≤ Limits.evaluationDepth := by
      rw [Nat.add_assoc]
      exact (add_nesting_join_le_iff (Nat.le_of_not_lt hdepth)).1 hlimit o ho
    -- All operands have values, so that the run goes through all of them.
    have hvalue (o : Expr) (ho : o ∈ operands c l r) :
        walk false b (depth + c.operandRule.parens o) o = .ok (o.truth v) :=
      (outcome_walk (hagrees o ho) _).eq_ok (hwithin o ho)
    have hoperand (o : Expr) (ho : o ∈ operands c l r) :
        (∀ m ∈ (tracedWalk false b (depth + c.operandRule.parens o) o).2, m ≤ n) ↔
          depth + c.operandRule.need o ≤ n := by
      have hlimit := hwithin o ho
      rw [Rule.need, ← Nat.add_assoc]
      exact ih o ho (hagrees o ho) hlimit (by omega)
    rw [tracedWalk_join, if_neg hdepth, visit, List.forall_mem_cons,
      calls_tracedRun_le_iff false hvalue hoperand]
    -- The run itself is visited at `depth`, which counts only if no operand is deeper.
    constructor
    · rintro ⟨hle, h⟩
      exact (add_nesting_join_le_iff hle).2 h
    · intro h
      have hle : depth ≤ n := by omega
      exact ⟨hle, (add_nesting_join_le_iff hle).1 h⟩

/-- **Depths.** The greatest depth of a walk over `e`, within the limit and with all variables bound, is
`e.nesting`. -/
theorem isGreatest_calls {e : Expr} (hb : e.Agrees v b) (hlimit : e.nesting ≤ Limits.evaluationDepth) :
    IsGreatest {m | m ∈ (tracedWalk false b 0 e).2} e.nesting := by
  have hle (n : Nat) : (∀ m ∈ (tracedWalk false b 0 e).2, m ≤ n) ↔ e.nesting ≤ n := by
    rw [← Nat.zero_add e.nesting] at hlimit ⊢
    exact calls_le_iff hb hlimit
  have hupper : ∀ m ∈ (tracedWalk false b 0 e).2, m ≤ e.nesting := (hle _).2 (Nat.le_refl _)
  refine ⟨?_, hupper⟩
  -- Otherwise all depths are less than the nesting, which therefore is less than itself.
  by_contra hmem
  have hlt : ∀ m ∈ (tracedWalk false b 0 e).2, m < e.nesting := fun m hm =>
    Nat.lt_of_le_of_ne (hupper m hm) (fun heq => hmem (heq ▸ hm))
  have hpos := hlt 0 (depth_mem_calls false b 0 e)
  have := (hle _).1 fun m hm => Nat.le_sub_one_of_lt (hlt m hm)
  omega

end Evaluation

end BoolCalc
