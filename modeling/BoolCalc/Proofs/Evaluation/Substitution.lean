import BoolCalc.Proofs.Evaluation.Walk

namespace BoolCalc

/-!
# Substitution

* `Bindings.get?_overriddenBy` : the view of bindings that are overridden;
* `Expr.names_substitute`, `Expr.vars_substitute` : the variables that a substitution leaves;
* `operands_substitute` : the operands of a run after a substitution;
* `walk_substitute` : a walk after a substitution, at any depth and with any operands skipped;
* `evaluate_substitute` : **substitution lemma**, to substitute bindings is to evaluate under them.

A value stands at the depth of the variable that it replaces, and a substitution keeps the connectives, so that
both walks take the same way.
-/

/-! ### Bindings that are overridden -/

namespace Bindings

variable {b c : Bindings} {n : String}

/-- `pairs` with different names, inserted into `b` one after the other, hide what `b` had: `get?` is
`(pairs.lookup n).or (b.get? n)`. -/
theorem get?_foldl_insert {pairs : List (String × Bool)} (hdistinct : (pairs.map Prod.fst).Nodup)
    (b : Bindings) (n : String) :
    (pairs.foldl (fun acc (name, value) => acc.insert name value) b).get? n =
      (pairs.lookup n).or (b.get? n) := by
  induction pairs generalizing b with
  | nil => rfl
  | cons p pairs ih =>
    obtain ⟨m, v⟩ := p
    obtain ⟨hm, hdistinct⟩ := List.nodup_cons.1 hdistinct
    rw [List.foldl_cons, ih hdistinct, get?_insert, List.lookup_cons]
    by_cases hn : n = m
    · -- No later pair has the name.
      have hnone : pairs.lookup n = none := by
        rw [List.lookup_eq_none_iff]
        intro p hp
        rw [bne_iff_ne, hn]
        intro heq
        have hmem : p.1 ∈ pairs.map Prod.fst := List.mem_map_of_mem hp
        rw [← heq] at hmem
        exact hm hmem
      rw [hnone, if_pos hn, hn, beq_self_eq_true]
      rfl
    · rw [if_neg hn, beq_false_of_ne hn]

/-- `b.overriddenBy c` gives a name the value of `c` if `c` has one, else that of `b`. -/
theorem get?_overriddenBy (b c : Bindings) (n : String) :
    (b.overriddenBy c).get? n = (c.get? n).or (b.get? n) :=
  get?_foldl_insert c.distinct b n

theorem contains_overriddenBy (b c : Bindings) (n : String) :
    (b.overriddenBy c).contains n = (c.contains n || b.contains n) := by
  rw [contains, get?_overriddenBy, Option.isSome_or]
  rfl

end Bindings

/-! ### Trees -/

/-- `eraseDups` and `filter p` commute. -/
theorem eraseDups_filter {α : Type} [DecidableEq α] (p : α → Bool) (xs : List α) :
    (xs.filter p).eraseDups = xs.eraseDups.filter p := by
  induction h : xs.length using Nat.strong_induction_on generalizing xs with
  | h n ih =>
    subst h
    cases xs with
    | nil => rfl
    | cons x xs =>
      -- Copies of the first element are dropped before the others are looked at.
      have hlt := Nat.lt_succ_of_le (List.length_filter_le (fun y => !y == x) xs)
      have hothers := ih _ hlt _ rfl
      rw [List.eraseDups_cons, List.filter_cons, List.filter_cons, ← hothers, List.filter_filter]
      cases hx : p x with
      | true =>
        rw [if_pos rfl, if_pos rfl, List.eraseDups_cons, List.filter_filter]
        simp only [Bool.and_comm]
      | false =>
        rw [if_neg Bool.false_ne_true, if_neg Bool.false_ne_true]
        refine congrArg List.eraseDups (List.filter_congr fun y _ => ?_)
        by_cases hy : y = x
        · simp [hy, hx]
        · simp [hy]

namespace Expr

/-- `substitute b` leaves a variable that `b` does not bind, and makes a literal of one that it binds. -/
theorem substitute_variable (b : Bindings) (name : String) : (Expr.variable name).substitute b =
    ((b.get? name).map Expr.literal).getD (.variable name) := by
  rw [substitute]
  cases b.get? name <;> rfl

/-- The names of `e.substitute b` are those of `e` that `b` does not bind. -/
theorem names_substitute (b : Bindings) (e : Expr) :
    (e.substitute b).names = e.names.filter fun name => !b.contains name := by
  induction e with
  | «variable» name =>
    rw [substitute_variable]
    cases h : b.get? name <;> simp [names, Bindings.contains, h]
  | literal => rfl
  | not e ih => exact ih
  | and l r ihl ihr | or l r ihl ihr =>
    rw [names, List.filter_append, ← ihl, ← ihr]
    rfl

/-- The same for `vars`, which keeps the order of the first occurrences. -/
theorem vars_substitute (b : Bindings) (e : Expr) :
    (e.substitute b).vars = e.vars.filter fun name => !b.contains name := by
  rw [vars, names_substitute, eraseDups_filter]
  rfl

/-- `substitute c` after `substitute b` is one substitution, of `b.overriddenBy c`. -/
theorem substitute_substitute (b c : Bindings) (e : Expr) :
    (e.substitute b).substitute c = e.substitute (c.overriddenBy b) := by
  induction e with
  | «variable» name =>
    rw [substitute_variable, substitute_variable, Bindings.get?_overriddenBy]
    cases b.get? name with
    | some value => rfl
    | none => exact substitute_variable c name
  | literal => rfl
  | not e ih => rw [substitute, substitute, ih, substitute]
  | and l r ihl ihr | or l r ihl ihr => rw [substitute, substitute, ihl, ihr, substitute]

end Expr

/-! ### Walks -/

namespace Evaluation

open Grammar

variable {short : Bool} {depth : Nat}

/-- `substitute b` keeps the connective `k` of `k.join l r`. -/
theorem substitute_join (b : Bindings) (k : Connective) (l r : Expr) :
    (k.join l r).substitute b = k.join (l.substitute b) (r.substitute b) := by
  cases k <;> rfl

/-- If `e` is not of the form `k.join l r`, then `e.substitute b` is not either. -/
theorem substitute_ne_join {b : Bindings} {k : Connective} {e : Expr} (h : ∀ l r, e ≠ k.join l r)
    (l r : Expr) : e.substitute b ≠ k.join l r := by
  cases e with
  | «variable» name =>
    rw [Expr.substitute_variable]
    cases b.get? name <;> cases k <;> nofun
  | literal | not => cases k <;> nofun
  | and l r =>
    cases k with
    | and => exact absurd rfl (h l r)
    | or => nofun
  | or l r =>
    cases k with
    | and => nofun
    | or => exact absurd rfl (h l r)

/-- `operandsBefore` commutes with `substitute b`: the operands are those of `e`, with the values put in. -/
theorem operandsBefore_substitute (b : Bindings) (k : Connective) (later : List Expr) (e : Expr) :
    operandsBefore k (later.map (Expr.substitute b)) (e.substitute b) =
      (operandsBefore k later e).map (Expr.substitute b) := by
  induction e using leftInduction k generalizing later with
  | hjoin l r ih => rw [substitute_join, operandsBefore_join, operandsBefore_join, ← ih, List.map_cons]
  | hother e he =>
    rw [operandsBefore_of_ne later he, operandsBefore_of_ne _ (substitute_ne_join he), List.map_cons]

theorem operands_substitute (b : Bindings) (k : Connective) (l r : Expr) :
    operands k (l.substitute b) (r.substitute b) = (operands k l r).map (Expr.substitute b) :=
  operandsBefore_substitute b k [r] l

/-- `e.substitute b` needs as many parentheses in the place of a rule `r` as `e`: a literal needs none, like a
variable. -/
theorem parens_substitute (b : Bindings) (r : Rule) (e : Expr) :
    r.parens (e.substitute b) = r.parens e := by
  cases e with
  | «variable» name =>
    rw [Expr.substitute_variable]
    cases b.get? name <;> cases r <;> rfl
  | literal | not | and | or => cases r <;> rfl

/-- `walkRun` over the operands `es` after `substitute b`, if `walk` over each of them comes to what it comes to
under `c.overriddenBy b` without. -/
theorem walkRun_substitute {b c : Bindings} (k : Connective) (decided : Bool) {es : List Expr}
    (h : ∀ o ∈ es, ∀ depth, walk short c depth (o.substitute b) = walk short (c.overriddenBy b) depth o) :
    walkRun short c k depth decided (es.map (Expr.substitute b)) =
      walkRun short (c.overriddenBy b) k depth decided es := by
  induction es generalizing decided with
  | nil => rw [List.map_nil, walkRun, walkRun]
  | cons o es ih =>
    obtain ⟨ho, hes⟩ := List.forall_mem_cons.1 h
    rw [List.map_cons, walkRun_cons, walkRun_cons, parens_substitute, ho]
    simp only [ih _ hes]

/-- **Walks.** `walk` over `e.substitute b` under `c` is `walk` over `e` under `c.overriddenBy b`, at every `depth`
and for both values of `short`. -/
theorem walk_substitute (short : Bool) (b c : Bindings) (depth : Nat) (e : Expr) :
    walk short c depth (e.substitute b) = walk short (c.overriddenBy b) depth e := by
  induction e using operandInduction generalizing depth with
  | literal => rw [Expr.substitute, walk_literal, walk_literal]
  | name name =>
    have hvalue := Bindings.get?_overriddenBy c b name
    rw [Expr.substitute_variable]
    cases h : b.get? name with
    | some value =>
      -- The limit is looked at first, at a value as at a variable.
      rw [h] at hvalue
      rw [walk_variable hvalue]
      exact walk_literal value
    | none =>
      rw [h] at hvalue
      show walk short c depth (.variable name) = _
      rw [walk, walk, hvalue]
      rfl
  | not e ih => rw [Expr.substitute, walk_not, walk_not, parens_substitute, ih]
  | run k l r ih =>
    rw [substitute_join, walk_join, walk_join, operands_substitute, walkRun_substitute k false ih]

/-- The first variable of `e.substitute b` without a value in `c` is the first of `e` without one in
`c.overriddenBy b`. -/
theorem unbound?_substitute (b c : Bindings) (e : Expr) :
    (e.substitute b).unbound? c = e.unbound? (c.overriddenBy b) := by
  rw [Expr.unbound?, Expr.unbound?, Expr.names_substitute, List.find?_filter]
  refine congrArg (List.find? · e.names) (funext fun name => ?_)
  rw [Bindings.contains_overriddenBy]
  cases b.contains name <;> cases c.contains name <;> rfl

theorem run_substitute (short : Bool) (b c : Bindings) (e : Expr) :
    run short (e.substitute b) c = run short e (c.overriddenBy b) := by
  rw [run, run, firstUnbound?_eq, firstUnbound?_eq, unbound?_substitute, walk_substitute]

end Evaluation

/-- **Substitution lemma.** Putting the values of `b` into `e` is the same as having them in the bindings:
* `evaluate` of `e.substitute b` under `c` has the result of `e` under `c.overriddenBy b`: the same value, the same
  first unbound variable, or the same failure for the depth, whatever the preferences `p` are;
* `substitute c` after `substitute b` is `substitute (c.overriddenBy b)`;
* the variables of `e.substitute b` are `e.vars` without the bound ones, in the order of `e.vars`. -/
theorem evaluate_substitute (p : Preferences.Evaluation) (e : Expr) (b c : Bindings) :
    (evaluate p (e.substitute b) c).value = (evaluate p e (c.overriddenBy b)).value ∧
    (e.substitute b).substitute c = e.substitute (c.overriddenBy b) ∧
    (e.substitute b).vars = e.vars.filter fun name => !b.contains name := by
  refine ⟨?_, e.substitute_substitute b c, e.vars_substitute b⟩
  rw [Evaluation.evaluate_value_eq_run, Evaluation.evaluate_value_eq_run, Evaluation.run_substitute]

end BoolCalc
