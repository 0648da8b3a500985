import BoolCalc.Evaluation
import BoolCalc.Proofs.Grammar.Nesting

namespace BoolCalc

open Grammar

/-!
# Trees and the operands of their runs

* `Expr.truth`, `Expr.Agrees` : the truth value of a tree, and bindings that give its variables their
  values;
* `Connective.join` : conjunctions and disjunctions under one name;
* `operandInduction` : induction over a tree by way of the operands of its runs;
* `depthUnder_some` : an operand is evaluated one level deeper if it needs parentheses;
* `forall_operands_iff` : what holds of a run holds of its operands.
-/

/-- The truth value of a tree for the values `v` of its variables. -/
def Expr.truth (v : String → Bool) : Expr → Bool
  | .variable name => v name
  | .literal value => value
  | .not e => !e.truth v
  | .and l r => l.truth v && r.truth v
  | .or l r => l.truth v || r.truth v

/-- The bindings `b` give the variables of `e` their values in `v`. -/
def Expr.Agrees (v : String → Bool) (b : Bindings) (e : Expr) : Prop :=
  ∀ name ∈ e.names, b.get? name = some (v name)

namespace Evaluation

variable {c : Connective} {v : String → Bool} {b : Bindings}

/-! ### Both connectives under one name -/

namespace Connective

/-- `Expr.and` or `Expr.or`. -/
def join : Connective → Expr → Expr → Expr
  | .and => Expr.and
  | .or => Expr.or

/-- The rule of the grammar for a whole run of the connective, and so for its left operand. -/
def runRule : Connective → Rule
  | .and => .conjunction
  | .or => .disjunction

/-- The rule of the grammar for the other operands of a run. -/
def operandRule : Connective → Rule
  | .and => .unary
  | .or => .conjunction

/-- `c.join l r` needs as many levels as its left operand, which may be a run itself, or its right operand. -/
theorem runRule_need_join (c : Connective) (l r : Expr) :
    c.runRule.need (c.join l r) = max (c.runRule.need l) (c.operandRule.need r) := by
  cases c <;> exact Nat.zero_add _

/-- A tree that is no run of `c` needs the same parentheses as the left operand and as the right one. -/
theorem runRule_need_of_ne {e : Expr} (h : ∀ l r, e ≠ c.join l r) :
    c.runRule.need e = c.operandRule.need e := by
  cases c with
  | and =>
    cases e with
    | and l r => exact absurd rfl (h l r)
    | «variable» | literal | not | or => rfl
  | or =>
    cases e with
    | or l r => exact absurd rfl (h l r)
    | «variable» | literal | not | and => rfl

/-- A run has the value `c.absorbing` if one of the operands has. -/
theorem truth_join (c : Connective) (l r : Expr) :
    (c.join l r).truth v = c.absorbing ↔ l.truth v = c.absorbing ∨ r.truth v = c.absorbing := by
  cases c with
  | and => rw [join, Expr.truth, absorbing, Bool.and_eq_false_iff]
  | or => rw [join, Expr.truth, absorbing, Bool.or_eq_true_iff]

/-- The names in `c.join l r` are those in `l` and in `r`. -/
theorem forall_names_join {P : String → Prop} (c : Connective) (l r : Expr) :
    (∀ name ∈ (c.join l r).names, P name) ↔ (∀ name ∈ l.names, P name) ∧ ∀ name ∈ r.names, P name := by
  cases c <;> exact List.forall_mem_append

end Connective

/-- The operands of `c.join l r` are those of `l`, and then `r`. -/
theorem operandsBefore_join (c : Connective) (later : List Expr) (l r : Expr) :
    operandsBefore c later (c.join l r) = operandsBefore c (r :: later) l := by
  cases c <;> simp [Connective.join, operandsBefore]

/-- A tree that is no run of `c` is a single operand. -/
theorem operandsBefore_of_ne (later : List Expr) {e : Expr} (h : ∀ l r, e ≠ c.join l r) :
    operandsBefore c later e = e :: later := by
  cases c with
  | and =>
    cases e with
    | and l r => exact absurd rfl (h l r)
    | «variable» | literal | not | or => rfl
  | or =>
    cases e with
    | or l r => exact absurd rfl (h l r)
    | «variable» | literal | not | and => rfl

/-- Induction along the left operands of a run of `c`. -/
theorem leftInduction {P : Expr → Prop} (c : Connective) (hjoin : ∀ l r, P l → P (c.join l r))
    (hother : ∀ e, (∀ l r, e ≠ c.join l r) → P e) (e : Expr) : P e := by
  induction e with
  | «variable» | literal | not => exact hother _ (by cases c <;> nofun)
  | and l r ih =>
    cases c with
    | and => exact hjoin l r ih
    | or => exact hother _ nofun
  | or l r ih =>
    cases c with
    | and => exact hother _ nofun
    | or => exact hjoin l r ih

/-- Let `P` for a run amount to `P` for its left operand and `Q` for its right one, and otherwise `P` to `Q`. Then
`P` amounts to `Q` for each operand. -/
theorem forall_operandsBefore_iff {P Q : Expr → Prop} (hjoin : ∀ l r, P (c.join l r) ↔ P l ∧ Q r)
    (hother : ∀ e, (∀ l r, e ≠ c.join l r) → (P e ↔ Q e)) (later : List Expr) (e : Expr) :
    (∀ o ∈ operandsBefore c later e, Q o) ↔ P e ∧ ∀ o ∈ later, Q o := by
  induction e using leftInduction c generalizing later with
  | hjoin l r ih => rw [operandsBefore_join, ih, List.forall_mem_cons, hjoin, and_assoc]
  | hother e he => rw [operandsBefore_of_ne later he, List.forall_mem_cons, hother e he]

/-- The same as `forall_operandsBefore_iff` for the operands of a whole run. -/
theorem forall_operands_iff {P Q : Expr → Prop} (hjoin : ∀ l r, P (c.join l r) ↔ P l ∧ Q r)
    (hother : ∀ e, (∀ l r, e ≠ c.join l r) → (P e ↔ Q e)) (l r : Expr) :
    (∀ o ∈ operands c l r, Q o) ↔ P (c.join l r) := by
  rw [operands, forall_operandsBefore_iff hjoin hother, List.forall_mem_singleton, hjoin]

/-- `c.join l r` nests within `n` if each of its operands does in its place. -/
theorem nesting_join_le_iff {l r : Expr} {n : Nat} :
    (c.join l r).nesting ≤ n ↔ ∀ o ∈ operands c l r, c.operandRule.need o ≤ n := by
  have hrun : (c.join l r).nesting = c.runRule.need (c.join l r) := by
    cases c <;> exact (Nat.zero_add _).symm
  rw [forall_operands_iff (P := fun e => c.runRule.need e ≤ n), hrun]
  · intro l r
    rw [c.runRule_need_join, Nat.max_le]
  · intro e he
    rw [Connective.runRule_need_of_ne he]

/-- The same as `nesting_join_le_iff` at a depth within the bound. -/
theorem add_nesting_join_le_iff {l r : Expr} {depth n : Nat} (hdepth : depth ≤ n) :
    depth + (c.join l r).nesting ≤ n ↔ ∀ o ∈ operands c l r, depth + c.operandRule.need o ≤ n := by
  have hle (m : Nat) : depth + m ≤ n ↔ m ≤ n - depth := by omega
  simp only [hle, nesting_join_le_iff]

/-- A property `P` of the names in all operands is one of the names in `c.join l r`. -/
theorem forall_names_operands_iff {P : String → Prop} {l r : Expr} :
    (∀ o ∈ operands c l r, ∀ name ∈ o.names, P name) ↔ ∀ name ∈ (c.join l r).names, P name :=
  forall_operands_iff c.forall_names_join (fun _ _ => Iff.rfl) l r

/-- `Agrees` for all operands is `Agrees` for `c.join l r`. -/
theorem agrees_operands_iff {l r : Expr} :
    (∀ o ∈ operands c l r, o.Agrees v b) ↔ (c.join l r).Agrees v b :=
  forall_names_operands_iff

/-- A run has the value `c.absorbing` if one of the operands has, and else the other one. -/
theorem truth_join_eq (c : Connective) (l r : Expr) :
    (c.join l r).truth v = if (operands c l r).any (·.truth v == c.absorbing) then c.absorbing
      else !c.absorbing := by
  have h : (∀ o ∈ operands c l r, o.truth v ≠ c.absorbing) ↔ (c.join l r).truth v ≠ c.absorbing :=
    forall_operands_iff (fun l r => by rw [Ne, c.truth_join, not_or]) (fun _ _ => Iff.rfl) l r
  split
  · -- An operand with the absorbing value contradicts a run without it.
    rename_i hany
    obtain ⟨o, ho, habsorbing⟩ := List.any_eq_true.1 hany
    by_contra hne
    exact h.2 hne o ho (beq_iff_eq.1 habsorbing)
  · rename_i hany
    apply Bool.eq_not_of_ne
    apply h.1
    intro o ho habsorbing
    exact hany (List.any_eq_true.2 ⟨o, ho, beq_iff_eq.2 habsorbing⟩)

/-! ### Induction over the operands -/

/-- A tree has no more nodes than the trees `es` of which it is one. -/
theorem nodeCount_le_totalNodes {e : Expr} {es : List Expr} (he : e ∈ es) :
    e.nodeCount ≤ totalNodes es := by
  induction he with
  | head => exact Nat.le_add_right _ _
  | tail _ _ ih => exact ih.trans (Nat.le_add_left _ _)

/-- An operand of `c.join l r` has fewer nodes than the tree. -/
theorem nodeCount_lt_of_mem_operands {l r o : Expr} (ho : o ∈ operands c l r) :
    o.nodeCount < (c.join l r).nodeCount := by
  have hle := nodeCount_le_totalNodes ho
  have hlt := totalNodes_operands_lt c l r
  cases c <;> exact hle.trans_lt hlt

/-- Induction over a tree where a run follows from its operands, as `walk` evaluates it. -/
theorem operandInduction {P : Expr → Prop} (literal : ∀ value, P (.literal value))
    (name : ∀ name, P (.variable name)) (not : ∀ e, P e → P (.not e))
    (run : ∀ c l r, (∀ o ∈ operands c l r, P o) → P (c.join l r)) (e : Expr) : P e := by
  -- The operands of a run are not its subtrees, so that the number of nodes has to decrease.
  induction h : e.nodeCount using Nat.strong_induction_on generalizing e with
  | h n ih =>
    subst h
    have hrun (c : Connective) (l r : Expr) (he : c.join l r = e) : P e := by
      subst he
      apply run
      intro o ho
      exact ih _ (nodeCount_lt_of_mem_operands ho) o rfl
    cases e with
    | literal value => exact literal value
    | «variable» n => exact name n
    | not e => exact not e (ih e.nodeCount (Nat.lt_add_of_pos_left Nat.one_pos) e rfl)
    | and l r => exact hrun .and l r rfl
    | or l r => exact hrun .or l r rfl

/-! ### The depth of operands -/

/-- An operand of a run is evaluated at `depth`, and one deeper if it needs parentheses. -/
theorem depthUnder_some (c : Connective) (depth : Nat) (e : Expr) :
    depthUnder (some c) depth e = depth + c.operandRule.parens e := by
  cases c <;> cases e <;> rfl

/-- The operand of a negation is evaluated at `depth`, and one deeper if it needs parentheses. -/
theorem depthUnder_none (depth : Nat) (e : Expr) :
    depthUnder none depth e = depth + Rule.unary.parens e := by
  cases e <;> rfl

end Evaluation

end BoolCalc
