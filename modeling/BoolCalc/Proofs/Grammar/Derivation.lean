import BoolCalc.Token.Basic
import Mathlib.Order.Bounds.Basic

namespace BoolCalc.Grammar

/-!
# Derivations of the grammar

* `Rule`, `Derivation` : the rules of the grammar, and the ways to derive tokens from one of them. What
  follows the first operand of a run, the starred part of
  - `orExpr := andExpr (OR andExpr)*`
  - `andExpr := unary (AND unary)*`
  is a rule of its own, whose derivations are lists of operands;
* `Derivation.tokens`, `Derivation.value` : the derived tokens, and the tree, whose runs are folded to
  the left and which has no parentheses;
* `Derivation.levels`, `Derivation.nesting` : the number of parentheses and negations around each token,
  and the greatest of these numbers;
* `isGreatest_nesting` : it is the greatest indeed;
* `Derivation.unique` : tokens have one derivation at most, also in front of other tokens that do not
  continue the run.
-/

/-- The rules of the grammar. `(OR andExpr)*` and `(AND unary)*` are rules of their own. -/
inductive Rule where
  /-- `orExpr`. -/
  | disjunction
  /-- `(OR andExpr)*`. -/
  | disjunctionTail
  /-- `andExpr`. -/
  | conjunction
  /-- `(AND unary)*`. -/
  | conjunctionTail
  /-- `unary`. -/
  | unary
  /-- `atom`. -/
  | atom
  deriving DecidableEq, Repr

/-- `r` is one of the starred parts, which may derive no token. -/
def Rule.isStarred : Rule → Bool
  | .disjunctionTail | .conjunctionTail => true
  | .disjunction | .conjunction | .unary | .atom => false

/-- The derivations from a rule, with a constructor for each alternative. -/
inductive Derivation : Rule → Type where
  /-- `orExpr := andExpr (OR andExpr)*`. -/
  | disjunction (first : Derivation .conjunction) (others : Derivation .disjunctionTail) :
      Derivation .disjunction
  | orNil : Derivation .disjunctionTail
  | orCons (next : Derivation .conjunction) (others : Derivation .disjunctionTail) :
      Derivation .disjunctionTail
  /-- `andExpr := unary (AND unary)*`. -/
  | conjunction (first : Derivation .unary) (others : Derivation .conjunctionTail) :
      Derivation .conjunction
  | andNil : Derivation .conjunctionTail
  | andCons (next : Derivation .unary) (others : Derivation .conjunctionTail) :
      Derivation .conjunctionTail
  /-- `unary := NOT unary`. -/
  | not (operand : Derivation .unary) : Derivation .unary
  /-- `unary := atom`. -/
  | plain (operand : Derivation .atom) : Derivation .unary
  /-- `atom := IDENTIFIER`. -/
  | identifier (name : String) : Derivation .atom
  /-- `atom := BOOLEAN_LITERAL`. -/
  | literal (value : Bool) : Derivation .atom
  /-- `atom := '(' orExpr ')'`. -/
  | group (inner : Derivation .disjunction) : Derivation .atom
  deriving DecidableEq, Repr

/-- What a derivation from `r` stands for: a list of trees, the operands, for a starred part, else a tree. -/
abbrev Rule.Value : Rule → Type
  | .disjunctionTail | .conjunctionTail => List Expr
  | .disjunction | .conjunction | .unary | .atom => Expr

/-! ### Where runs end -/

/-- The tokens with which a run of `r` goes on: AND and OR in a disjunction, AND in a conjunction. -/
def Rule.continues : Rule → Token → Bool
  | .disjunction, t | .disjunctionTail, t => t.isBinary
  | .conjunction, t | .conjunctionTail, t => t == .and
  | .unary, _ | .atom, _ => false

/-- `rest` does not begin with a token that `r.continues`. -/
def Rule.EndsBefore (r : Rule) (rest : List Token) : Prop := ∀ t ∈ rest.head?, r.continues t = false

/-- Where a disjunction ends, its last conjunction ends too: `r.continues` has fewer tokens. -/
theorem Rule.EndsBefore.conjunction {rest : List Token} (h : Rule.disjunction.EndsBefore rest) :
    Rule.conjunction.EndsBefore rest := by
  intro t ht
  have := h t ht
  cases t <;> simp_all [Rule.continues, Token.isBinary]

namespace Derivation

variable {r : Rule}

/-! ### Tokens and trees -/

/-- The derived tokens, from left to right. -/
def tokens : {r : Rule} → Derivation r → List Token
  | _, .disjunction first others => first.tokens ++ others.tokens
  | _, .orNil => []
  | _, .orCons next others => .or :: (next.tokens ++ others.tokens)
  | _, .conjunction first others => first.tokens ++ others.tokens
  | _, .andNil => []
  | _, .andCons next others => .and :: (next.tokens ++ others.tokens)
  | _, .not operand => .not :: operand.tokens
  | _, .plain operand => operand.tokens
  | _, .identifier name => [.identifier name]
  | _, .literal value => [.literal value]
  | _, .group inner => .openParen :: (inner.tokens ++ [.closeParen])

/-- The tree of the derivation. The operands of a starred part are joined from the left. -/
def value : {r : Rule} → Derivation r → r.Value
  | _, .disjunction first others => others.value.foldl Expr.or first.value
  | _, .orNil => []
  | _, .orCons next others => next.value :: others.value
  | _, .conjunction first others => others.value.foldl Expr.and first.value
  | _, .andNil => []
  | _, .andCons next others => next.value :: others.value
  | _, .not operand => Expr.not operand.value
  | _, .plain operand => operand.value
  | _, .identifier name => Expr.variable name
  | _, .literal value => Expr.literal value
  | _, .group inner => inner.value

/-- The tree in which the operands of a starred part are joined to the tree `first`. For the other rules this is
`value`. -/
def valueAfter (first : Expr) : {r : Rule} → Derivation r → Expr
  | .disjunctionTail, d => d.value.foldl Expr.or first
  | .conjunctionTail, d => d.value.foldl Expr.and first
  | .disjunction, d => d.value
  | .conjunction, d => d.value
  | .unary, d => d.value
  | .atom, d => d.value

/-! ### Nesting -/

/-- The derived `tokens`, each with the number of parentheses and negations around it, when there are `depth` of
them around the whole. -/
def placed (depth : Nat) : {r : Rule} → Derivation r → List (Token × Nat)
  | _, .disjunction first others => first.placed depth ++ others.placed depth
  | _, .orNil => []
  | _, .orCons next others => (.or, depth) :: (next.placed depth ++ others.placed depth)
  | _, .conjunction first others => first.placed depth ++ others.placed depth
  | _, .andNil => []
  | _, .andCons next others => (.and, depth) :: (next.placed depth ++ others.placed depth)
  | _, .not operand => (.not, depth) :: operand.placed (depth + 1)
  | _, .plain operand => operand.placed depth
  | _, .identifier name => [(.identifier name, depth)]
  | _, .literal value => [(.literal value, depth)]
  | _, .group inner =>
    (.openParen, depth) :: (inner.placed (depth + 1) ++ [(.closeParen, depth)])

/-- The number of parentheses and negations around each of the `tokens`. -/
def levels (d : Derivation r) : List Nat := (d.placed 0).map Prod.snd

/-- The greatest of the `levels`, by recursion. -/
def nesting : {r : Rule} → Derivation r → Nat
  | _, .disjunction first others => max first.nesting others.nesting
  | _, .orNil => 0
  | _, .orCons next others => max next.nesting others.nesting
  | _, .conjunction first others => max first.nesting others.nesting
  | _, .andNil => 0
  | _, .andCons next others => max next.nesting others.nesting
  | _, .not operand => 1 + operand.nesting
  | _, .plain operand => operand.nesting
  | _, .identifier _ => 0
  | _, .literal _ => 0
  | _, .group inner => 1 + inner.nesting

/-- `placed` without the numbers is `tokens`. -/
theorem map_fst_placed (d : Derivation r) (depth : Nat) :
    (d.placed depth).map Prod.fst = d.tokens := by
  induction d generalizing depth <;> simp_all [placed, tokens]

/-- Every token of `d` lies between `depth` and `depth + d.nesting`. -/
theorem level_bounds (d : Derivation r) {depth : Nat} {x : Token × Nat}
    (hx : x ∈ d.placed depth) : depth ≤ x.2 ∧ x.2 ≤ depth + d.nesting := by
  induction d generalizing depth with
  | disjunction first others ihf iho | conjunction first others ihf iho =>
    rw [nesting]
    rcases List.mem_append.1 hx with hx | hx
    · have := ihf hx; omega
    · have := iho hx; omega
  | orNil | andNil => cases hx
  | orCons next others ihn iho | andCons next others ihn iho =>
    rw [nesting]
    rcases List.mem_cons.1 hx with rfl | hx
    · exact ⟨Nat.le_refl _, Nat.le_add_right _ _⟩
    rcases List.mem_append.1 hx with hx | hx
    · have := ihn hx; omega
    · have := iho hx; omega
  -- NOT lies at `depth` itself, and its operand one level deeper.
  | not operand ih =>
    rw [nesting]
    rcases List.mem_cons.1 hx with rfl | hx
    · exact ⟨Nat.le_refl _, Nat.le_add_right _ _⟩
    · have := ih hx; omega
  | plain operand ih => exact ih hx
  | identifier | literal =>
    obtain rfl := List.mem_singleton.1 hx
    exact ⟨Nat.le_refl _, Nat.le_refl _⟩
  | group inner ih =>
    rw [nesting]
    rcases List.mem_cons.1 hx with rfl | hx
    · exact ⟨Nat.le_refl _, Nat.le_add_right _ _⟩
    rcases List.mem_append.1 hx with hx | hx
    · have := ih hx; omega
    · obtain rfl := List.mem_singleton.1 hx
      exact ⟨Nat.le_refl _, Nat.le_add_right _ _⟩

/-- Of two lists of tokens, the first with one at the level `depth + m`, the second with one at `depth + n` unless
`n = 0`, one has a token at `depth + max m n`. -/
theorem exists_level_max {xs ys : List (Token × Nat)} {depth m n : Nat}
    (hxs : ∃ x ∈ xs, x.2 = depth + m) (hys : n = 0 ∨ ∃ y ∈ ys, y.2 = depth + n) :
    ∃ x ∈ xs ++ ys, x.2 = depth + max m n := by
  obtain ⟨x, hx, hm⟩ := hxs
  rcases hys with rfl | ⟨y, hy, hn⟩
  · exact ⟨x, List.mem_append_left _ hx, by omega⟩
  rcases Nat.le_total m n with hle | hle
  · exact ⟨y, List.mem_append_right _ hy, by omega⟩
  · exact ⟨x, List.mem_append_left _ hx, by omega⟩

/-- Some token of `d` lies at `depth + d.nesting`, unless `r.isStarred` and `d` may derive no token at all. -/
theorem exists_level_eq_nesting (d : Derivation r) (depth : Nat) :
    (r.isStarred = true ∧ d.nesting = 0) ∨ ∃ x ∈ d.placed depth, x.2 = depth + d.nesting := by
  induction d generalizing depth with
  | disjunction first others ihf iho | conjunction first others ihf iho =>
    -- The first operand has a token, whatever the others have.
    have hfirst := (ihf depth).resolve_left (by simp [Rule.isStarred])
    exact .inr (exists_level_max hfirst ((iho depth).imp_left And.right))
  | orNil | andNil => exact .inl ⟨rfl, rfl⟩
  | orCons next others ihn iho | andCons next others ihn iho =>
    have hnext := (ihn depth).resolve_left (by simp [Rule.isStarred])
    obtain ⟨x, hx, hlevel⟩ := exists_level_max hnext ((iho depth).imp_left And.right)
    exact .inr ⟨x, List.mem_cons_of_mem _ hx, hlevel⟩
  | not operand ih =>
    obtain ⟨x, hx, hlevel⟩ := (ih (depth + 1)).resolve_left (by simp [Rule.isStarred])
    exact .inr ⟨x, List.mem_cons_of_mem _ hx, by rw [hlevel, nesting]; omega⟩
  | plain operand ih => exact ih depth
  | identifier | literal => exact .inr ⟨_, List.mem_cons_self, rfl⟩
  | group inner ih =>
    obtain ⟨x, hx, hlevel⟩ := (ih (depth + 1)).resolve_left (by simp [Rule.isStarred])
    exact .inr ⟨x, List.mem_cons_of_mem _ (List.mem_append_left _ hx), by
      rw [hlevel, nesting]; omega⟩

/-- **Nesting.** `d.nesting` is the greatest of `d.levels`. -/
theorem isGreatest_nesting (d : Derivation .disjunction) :
    IsGreatest {n | n ∈ d.levels} d.nesting := by
  constructor
  · obtain ⟨x, hx, hlevel⟩ := (d.exists_level_eq_nesting 0).resolve_left (by simp [Rule.isStarred])
    exact List.mem_map.2 ⟨x, hx, by rw [hlevel, Nat.zero_add]⟩
  · intro n hn
    obtain ⟨x, hx, rfl⟩ := List.mem_map.1 hn
    have := (d.level_bounds hx).2
    omega

/-- All `d.levels` are within `limit` exactly if `d.nesting` is. -/
theorem forall_levels_le_iff (d : Derivation .disjunction) (limit : Nat) :
    (∀ n ∈ d.levels, n ≤ limit) ↔ d.nesting ≤ limit :=
  ⟨fun h => h _ d.isGreatest_nesting.1, fun h _ hn => (d.isGreatest_nesting.2 hn).trans h⟩

/-! ### Uniqueness -/

/-- A conjunction ends before the further operands `others` of the disjunction around it, which begin with OR. -/
theorem endsBefore_orTail (others : Derivation .disjunctionTail) {rest : List Token}
    (h : Rule.disjunction.EndsBefore rest) :
    Rule.conjunction.EndsBefore (others.tokens ++ rest) := by
  cases others with
  | orNil => exact h.conjunction
  | orCons next others =>
    intro t ht
    cases Option.some.inj ht
    rfl

/-- A `unary` ends before everything. -/
theorem endsBefore_andTail (others : Derivation .conjunctionTail) {rest : List Token} :
    Rule.unary.EndsBefore (others.tokens ++ rest) := fun _ _ => rfl

/-- A disjunction ends before `)`. -/
theorem endsBefore_close {rest : List Token} :
    Rule.disjunction.EndsBefore (.closeParen :: rest) := by
  intro t ht
  cases Option.some.inj ht
  rfl

/-- `r` does not end before a token that `r.continues`. -/
theorem not_endsBefore_cons {t : Token} {ts : List Token} (ht : r.continues t = true) :
    ¬ r.EndsBefore (t :: ts) := fun h => by simp [h t rfl] at ht

/-- No `atom` begins with NOT. -/
theorem atom_tokens_ne_not (a : Derivation .atom) (rest ts : List Token) :
    a.tokens ++ rest ≠ .not :: ts := by
  cases a <;> simp [tokens]

/-- **Unique readability.** If `d` and `d'` are derivations from the same rule, and
`d.tokens ++ rest = d'.tokens ++ rest'` where neither rest continues the run, then `d = d'`. -/
theorem unique (d d' : Derivation r) {rest rest' : List Token}
    (h : d.tokens ++ rest = d'.tokens ++ rest') (hrest : r.EndsBefore rest)
    (hrest' : r.EndsBefore rest') : d = d' ∧ rest = rest' := by
  -- What comes behind is arbitrary, since an operand is followed by the other operands of its run.
  induction d generalizing rest rest' with
  | disjunction first others ihf iho =>
    cases d' with | disjunction first' others'
    simp only [tokens, List.append_assoc] at h
    obtain ⟨rfl, hothers⟩ :=
      ihf first' h (others.endsBefore_orTail hrest) (others'.endsBefore_orTail hrest')
    obtain ⟨rfl, hr⟩ := iho others' hothers hrest hrest'
    exact ⟨rfl, hr⟩
  | orNil =>
    cases d' with
    | orNil => exact ⟨rfl, h⟩
    -- One run ends before a token with which the other one goes on.
    | orCons => exact absurd ((show rest = _ from h) ▸ hrest) (not_endsBefore_cons rfl)
  | orCons next others ihn iho =>
    cases d' with
    | orNil => exact absurd ((show _ = rest' from h) ▸ hrest') (not_endsBefore_cons rfl)
    | orCons next' others' =>
      simp only [tokens, List.cons_append, List.append_assoc, List.cons.injEq, true_and] at h
      obtain ⟨rfl, hothers⟩ :=
        ihn next' h (others.endsBefore_orTail hrest) (others'.endsBefore_orTail hrest')
      obtain ⟨rfl, hr⟩ := iho others' hothers hrest hrest'
      exact ⟨rfl, hr⟩
  | conjunction first others ihf iho =>
    cases d' with | conjunction first' others'
    simp only [tokens, List.append_assoc] at h
    obtain ⟨rfl, hothers⟩ := ihf first' h others.endsBefore_andTail others'.endsBefore_andTail
    obtain ⟨rfl, hr⟩ := iho others' hothers hrest hrest'
    exact ⟨rfl, hr⟩
  | andNil =>
    cases d' with
    | andNil => exact ⟨rfl, h⟩
    | andCons => exact absurd ((show rest = _ from h) ▸ hrest) (not_endsBefore_cons rfl)
  | andCons next others ihn iho =>
    cases d' with
    | andNil => exact absurd ((show _ = rest' from h) ▸ hrest') (not_endsBefore_cons rfl)
    | andCons next' others' =>
      simp only [tokens, List.cons_append, List.append_assoc, List.cons.injEq, true_and] at h
      obtain ⟨rfl, hothers⟩ := ihn next' h others.endsBefore_andTail others'.endsBefore_andTail
      obtain ⟨rfl, hr⟩ := iho others' hothers hrest hrest'
      exact ⟨rfl, hr⟩
  | not operand ih =>
    -- The first token tells a negation from an atom, and the kinds of atoms apart.
    cases d' with
    | not operand' =>
      obtain ⟨rfl, hr⟩ := ih operand' (List.cons.inj h).2 hrest hrest'
      exact ⟨rfl, hr⟩
    | plain operand' => exact absurd h.symm (atom_tokens_ne_not operand' _ _)
  | plain operand ih =>
    cases d' with
    | not operand' => exact absurd h (atom_tokens_ne_not operand _ _)
    | plain operand' =>
      obtain ⟨rfl, hr⟩ := ih operand' h (fun _ _ => rfl) (fun _ _ => rfl)
      exact ⟨rfl, hr⟩
  | identifier name =>
    cases d' with
    | identifier => simpa [tokens] using h
    | literal | group => simp [tokens] at h
  | literal value =>
    cases d' with
    | literal => simpa [tokens] using h
    | identifier | group => simp [tokens] at h
  | group inner ih =>
    cases d' with
    | group inner' =>
      simp only [tokens, List.cons_append, List.append_assoc, List.cons.injEq, true_and] at h
      -- A closing parenthesis ends the disjunction before it.
      obtain ⟨rfl, hr⟩ := ih inner' h endsBefore_close endsBefore_close
      exact ⟨rfl, by simpa using hr⟩
    | identifier | literal => simp [tokens] at h

end Derivation

end BoolCalc.Grammar
