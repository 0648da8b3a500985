import BoolCalc.Proofs.Grammar.Derivation

namespace BoolCalc

open Grammar

/-!
# The least nesting of a tree

* `Expr.precedence`, `Rule.precedence`, `Rule.parens` : where a tree needs parentheses;
* `Expr.nesting` : one level for each negation, and one for each pair of parentheses that is needed;
* `need_valueAfter_le` : no derivation of a tree nests less deeply;
* `Expr.derives` : some derivation of the tree does not nest more deeply;
* `isLeast_nesting` : `Expr.nesting` is the least nesting over all tokens the tree can be read from.
-/

/-! ### Where parentheses are needed -/

/-- How strongly the root of a tree holds its operands together: `.or` least, then `.and`, `.not`, and leaves. -/
def Expr.precedence : Expr → Nat
  | .or _ _ => 0
  | .and _ _ => 1
  | .not _ => 2
  | .variable _ | .literal _ => 3

namespace Grammar.Rule

/-- The least `Expr.precedence` of a tree that the rule derives without parentheses around it. -/
def precedence : Rule → Nat
  | .disjunction | .disjunctionTail => 0
  | .conjunction | .conjunctionTail => 1
  | .unary => 2
  | .atom => 3

/-- The number of parentheses that `e` needs around it in the place of `r`: one if `e.precedence < r.precedence`. -/
def parens (r : Rule) (e : Expr) : Nat := if e.precedence < r.precedence then 1 else 0

/-- `parens` grows with the precedence of the rule. -/
theorem parens_le_parens {r r' : Rule} (h : r.precedence ≤ r'.precedence) (e : Expr) :
    r.parens e ≤ r'.parens e := by
  unfold parens
  split <;> split <;> omega

/-- `.disjunction` derives any tree without parentheses around it. -/
theorem parens_disjunction (e : Expr) : Rule.disjunction.parens e = 0 := rfl

theorem parens_le_one (r : Rule) (e : Expr) : r.parens e ≤ 1 := by
  unfold parens
  split <;> omega

end Grammar.Rule

/-- The number of levels that a text for the tree has to nest: one for each negation, and one for each pair of
parentheses that is needed. The left operand of a run may be the same run without its last operand, so that it needs
none. -/
def Expr.nesting : Expr → Nat
  | .variable _ | .literal _ => 0
  | .not e => 1 + (Rule.unary.parens e + e.nesting)
  | .and l r =>
    max (Rule.conjunction.parens l + l.nesting) (Rule.unary.parens r + r.nesting)
  | .or l r =>
    max (Rule.disjunction.parens l + l.nesting) (Rule.conjunction.parens r + r.nesting)

/-- The number of levels that a text for `e` has to nest in the place of `r`. -/
def Grammar.Rule.need (r : Rule) (e : Expr) : Nat := r.parens e + e.nesting

/-- `need` grows with the precedence of the rule. -/
theorem Grammar.Rule.need_le_need {r r' : Rule} (h : r.precedence ≤ r'.precedence) (e : Expr) :
    r.need e ≤ r'.need e :=
  Nat.add_le_add_right (parens_le_parens h e) _

namespace Grammar

variable {r : Rule}

/-! ### No derivation nests less -/

/-- A derivation nests at least as many levels as its tree needs in the place of `r`. The tree `left` before a
starred part has its own need. -/
theorem need_valueAfter_le (d : Derivation r) (left : Expr) :
    r.need (d.valueAfter left) ≤ max (r.need left) d.nesting := by
  -- The tree of the other rules does not depend on `left`, so that a leaf, which needs nothing, does.
  let leaf : Expr := .literal true
  induction d generalizing left with
  | disjunction first others ihf iho =>
    have hfirst : Rule.conjunction.need first.value ≤ max 0 first.nesting := ihf leaf
    have hothers := iho first.value
    -- The first operand needs no more where a whole disjunction may stand.
    have hloose : Rule.disjunctionTail.need first.value ≤ Rule.conjunction.need first.value :=
      Rule.need_le_need (by decide) _
    calc Rule.disjunction.need (others.valueAfter first.value)
        ≤ max (Rule.disjunctionTail.need first.value) others.nesting := hothers
      _ ≤ max first.nesting others.nesting := by omega
      _ ≤ _ := Nat.le_max_right _ _
  | orNil | andNil => exact Nat.le_max_left _ _
  | orCons next others ihn iho =>
    have hnext : Rule.conjunction.need next.value ≤ max 0 next.nesting := ihn leaf
    have hothers := iho (.or left next.value)
    have hrun : Rule.disjunctionTail.need (.or left next.value) =
        max (Rule.disjunctionTail.need left) (Rule.conjunction.need next.value) :=
      Nat.zero_add _
    calc Rule.disjunctionTail.need (others.valueAfter (.or left next.value))
        ≤ max (Rule.disjunctionTail.need (.or left next.value)) others.nesting := hothers
      _ ≤ max (Rule.disjunctionTail.need left) (max next.nesting others.nesting) := by omega
  | conjunction first others ihf iho =>
    have hfirst : Rule.unary.need first.value ≤ max 0 first.nesting := ihf leaf
    have hothers := iho first.value
    have hloose : Rule.conjunctionTail.need first.value ≤ Rule.unary.need first.value :=
      Rule.need_le_need (by decide) _
    calc Rule.conjunction.need (others.valueAfter first.value)
        ≤ max (Rule.conjunctionTail.need first.value) others.nesting := hothers
      _ ≤ max first.nesting others.nesting := by omega
      _ ≤ _ := Nat.le_max_right _ _
  | andCons next others ihn iho =>
    have hnext : Rule.unary.need next.value ≤ max 0 next.nesting := ihn leaf
    have hothers := iho (.and left next.value)
    have hrun : Rule.conjunctionTail.need (.and left next.value) =
        max (Rule.conjunctionTail.need left) (Rule.unary.need next.value) :=
      Nat.zero_add _
    calc Rule.conjunctionTail.need (others.valueAfter (.and left next.value))
        ≤ max (Rule.conjunctionTail.need (.and left next.value)) others.nesting := hothers
      _ ≤ max (Rule.conjunctionTail.need left) (max next.nesting others.nesting) := by omega
  | not operand ih =>
    have hoperand : Rule.unary.need operand.value ≤ max 0 operand.nesting := ih leaf
    have hnot : Rule.unary.need (.not operand.value) = 1 + Rule.unary.need operand.value :=
      Nat.zero_add _
    show Rule.unary.need (.not operand.value) ≤ max _ (1 + operand.nesting)
    omega
  | plain operand ih =>
    have hoperand : Rule.atom.need operand.value ≤ max 0 operand.nesting := ih leaf
    have hloose : Rule.unary.need operand.value ≤ Rule.atom.need operand.value :=
      Rule.need_le_need (by decide) _
    show Rule.unary.need operand.value ≤ max _ operand.nesting
    omega
  | identifier | literal => exact Nat.zero_le _
  | group inner ih =>
    have hinner : Rule.disjunction.need inner.value ≤ max 0 inner.nesting := ih leaf
    -- The parentheses of the group are all the parentheses that an atom may need.
    have hparens := Rule.atom.parens_le_one inner.value
    show Rule.atom.parens inner.value + inner.value.nesting ≤ max _ (1 + inner.nesting)
    rw [Rule.need, Rule.parens_disjunction] at hinner
    omega

/-! ### Some derivation does not nest more -/

namespace Derivation

/-- The operand `last` behind the further operands of a disjunction. -/
def orSnoc : Derivation .disjunctionTail → Derivation .conjunction → Derivation .disjunctionTail
  | .orNil, last => .orCons last .orNil
  | .orCons next others, last => .orCons next (others.orSnoc last)

/-- The operand `last` behind the further operands of a conjunction. -/
def andSnoc : Derivation .conjunctionTail → Derivation .unary → Derivation .conjunctionTail
  | .andNil, last => .andCons last .andNil
  | .andCons next others, last => .andCons next (others.andSnoc last)

/-- In the tree, `last` becomes the right operand of the whole. -/
theorem valueAfter_orSnoc (others : Derivation .disjunctionTail) (last : Derivation .conjunction)
    (left : Expr) : (others.orSnoc last).valueAfter left = .or (others.valueAfter left) last.value := by
  match others with
  | .orNil => rw [orSnoc]; rfl
  | .orCons next others => rw [orSnoc]; exact valueAfter_orSnoc others last (.or left next.value)

/-- In the tree, `last` becomes the right operand of the whole. -/
theorem valueAfter_andSnoc (others : Derivation .conjunctionTail) (last : Derivation .unary)
    (left : Expr) :
    (others.andSnoc last).valueAfter left = .and (others.valueAfter left) last.value := by
  match others with
  | .andNil => rw [andSnoc]; rfl
  | .andCons next others => rw [andSnoc]; exact valueAfter_andSnoc others last (.and left next.value)

theorem nesting_orSnoc (others : Derivation .disjunctionTail) (last : Derivation .conjunction) :
    (others.orSnoc last).nesting = max others.nesting last.nesting := by
  match others with
  | .orNil => rw [orSnoc]; exact Nat.max_comm _ _
  | .orCons next others =>
    rw [orSnoc, nesting, nesting, nesting_orSnoc others last, Nat.max_assoc]

theorem nesting_andSnoc (others : Derivation .conjunctionTail) (last : Derivation .unary) :
    (others.andSnoc last).nesting = max others.nesting last.nesting := by
  match others with
  | .andNil => rw [andSnoc]; exact Nat.max_comm _ _
  | .andCons next others =>
    rw [andSnoc, nesting, nesting, nesting_andSnoc others last, Nat.max_assoc]

end Derivation

/-- Some derivation from `r` has the tree `e` and the nesting `n`. -/
def Rule.Derives (r : Rule) (e : Expr) (n : Nat) : Prop :=
  ∃ d : Derivation r, (∀ left, d.valueAfter left = e) ∧ d.nesting = n

namespace Rule.Derives

variable {e e' : Expr} {m n : Nat}

theorem ofAtom : Rule.atom.Derives e n → Rule.unary.Derives e n := by
  rintro ⟨d, he, hn⟩
  exact ⟨.plain d, he, hn⟩

theorem ofUnary : Rule.unary.Derives e n → Rule.conjunction.Derives e n := by
  rintro ⟨d, he, hn⟩
  exact ⟨.conjunction d .andNil, he, by simpa [Derivation.nesting] using hn⟩

theorem ofConjunction : Rule.conjunction.Derives e n → Rule.disjunction.Derives e n := by
  rintro ⟨d, he, hn⟩
  exact ⟨.disjunction d .orNil, he, by simpa [Derivation.nesting] using hn⟩

theorem inParens : Rule.disjunction.Derives e n → Rule.atom.Derives e (1 + n) := by
  rintro ⟨d, he, rfl⟩
  exact ⟨.group d, he, rfl⟩

theorem negated : Rule.unary.Derives e n → Rule.unary.Derives (.not e) (1 + n) := by
  rintro ⟨d, he, rfl⟩
  exact ⟨.not d, fun left => congrArg Expr.not (he left), rfl⟩

/-- `andSnoc` puts `e'` behind the operands of `e`, and `.and e e'` nests `max m n`. -/
theorem and : Rule.conjunction.Derives e m → Rule.unary.Derives e' n →
    Rule.conjunction.Derives (.and e e') (max m n) := by
  rintro ⟨d, he, rfl⟩ ⟨last, he', rfl⟩
  obtain rfl : last.value = e' := he' e'
  -- The last operand comes behind those of the conjunction on the left.
  cases d with | conjunction first others
  refine ⟨.conjunction first (others.andSnoc last), fun left => ?_, ?_⟩
  · exact (others.valueAfter_andSnoc last first.value).trans (congrArg (Expr.and · _) (he left))
  · rw [Derivation.nesting, Derivation.nesting_andSnoc, Derivation.nesting, Nat.max_assoc]

/-- `orSnoc` puts `e'` behind the operands of `e`, and `.or e e'` nests `max m n`. -/
theorem or : Rule.disjunction.Derives e m → Rule.conjunction.Derives e' n →
    Rule.disjunction.Derives (.or e e') (max m n) := by
  rintro ⟨d, he, rfl⟩ ⟨last, he', rfl⟩
  obtain rfl : last.value = e' := he' e'
  cases d with | disjunction first others
  refine ⟨.disjunction first (others.orSnoc last), fun left => ?_, ?_⟩
  · exact (others.valueAfter_orSnoc last first.value).trans (congrArg (Expr.or · _) (he left))
  · rw [Derivation.nesting, Derivation.nesting_orSnoc, Derivation.nesting, Nat.max_assoc]

/-- What `r` derives, a rule `r'` of no greater precedence derives as well, with the same nesting. -/
theorem looser {r' : Rule} (h : r.Derives e n) (hr : r.isStarred = false)
    (hr' : r'.isStarred = false) (hle : r'.precedence ≤ r.precedence) : r'.Derives e n := by
  -- From the tightest rule to the loosest, each one derives what the one before derives.
  have hunary (hle : 2 ≤ r.precedence) : Rule.unary.Derives e n := by
    cases r with
    | atom => exact h.ofAtom
    | unary => exact h
    | disjunction | disjunctionTail | conjunction | conjunctionTail => simp [precedence] at hle
  have hconjunction (hle : 1 ≤ r.precedence) : Rule.conjunction.Derives e n := by
    cases r with
    | atom | unary => exact (hunary (by decide)).ofUnary
    | conjunction => exact h
    | conjunctionTail => cases hr
    | disjunction | disjunctionTail => simp [precedence] at hle
  cases r' with
  | atom =>
    cases r with
    | atom => exact h
    | disjunction | disjunctionTail | conjunction | conjunctionTail | unary =>
      simp [precedence] at hle
  | unary => exact hunary hle
  | conjunction => exact hconjunction hle
  | disjunction =>
    cases r with
    | disjunction => exact h
    | disjunctionTail => cases hr
    | conjunction | conjunctionTail | unary | atom => exact (hconjunction (by decide)).ofConjunction
  | disjunctionTail | conjunctionTail => cases hr'

/-- What `r` derives, every rule `r'` derives in parentheses, with one level more. -/
theorem tighter {r' : Rule} (h : r.Derives e n) (hr : r.isStarred = false)
    (hr' : r'.isStarred = false) : r'.Derives e (1 + n) :=
  (h.looser hr rfl (Nat.zero_le _)).inParens.looser rfl hr' (by cases r' <;> decide)

/-- If the rule with the precedence of `e` derives it with `e.nesting`, then every rule `r'` derives it with
`r'.need e`. -/
theorem need {r' : Rule} (h : r.Derives e e.nesting) (hr : r.isStarred = false)
    (hprecedence : r.precedence = e.precedence) (hr' : r'.isStarred = false) :
    r'.Derives e (r'.need e) := by
  unfold Rule.need parens
  split
  · exact h.tighter hr hr'
  · rw [Nat.zero_add]
    exact h.looser hr hr' (by omega)

end Rule.Derives

end Grammar

/-- Each rule `r` derives each tree `e` with the nesting `r.need e`. -/
theorem Expr.derives (e : Expr) {r : Rule} (hr : r.isStarred = false) : r.Derives e (r.need e) := by
  induction e generalizing r with
  | «variable» name =>
    have h : Rule.atom.Derives (.variable name) 0 := ⟨.identifier name, fun _ => rfl, rfl⟩
    exact h.need rfl rfl hr
  | literal value =>
    have h : Rule.atom.Derives (.literal value) 0 := ⟨.literal value, fun _ => rfl, rfl⟩
    exact h.need rfl rfl hr
  | not e ih => exact (ih (r := .unary) rfl).negated.need rfl rfl hr
  | and e e' ih ih' =>
    exact ((ih (r := .conjunction) rfl).and (ih' (r := .unary) rfl)).need rfl rfl hr
  | or e e' ih ih' =>
    exact ((ih (r := .disjunction) rfl).or (ih' (r := .conjunction) rfl)).need rfl rfl hr

/-- **The least nesting.** `e.nesting` is the least `nesting` of a derivation of the tree `e`. -/
theorem isLeast_nesting (e : Expr) :
    IsLeast {n | ∃ d : Derivation .disjunction, d.value = e ∧ d.nesting = n} e.nesting := by
  constructor
  · obtain ⟨d, he, hn⟩ := e.derives (r := .disjunction) rfl
    exact ⟨d, he e, hn.trans (Nat.zero_add _)⟩
  · rintro n ⟨d, rfl, rfl⟩
    have h : Rule.disjunction.need d.value ≤ max 0 d.nesting := need_valueAfter_le d (.literal true)
    rwa [Rule.need, Rule.parens_disjunction, Nat.zero_add, Nat.zero_max] at h

end BoolCalc
