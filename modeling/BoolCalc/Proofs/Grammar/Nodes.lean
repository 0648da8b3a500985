import BoolCalc.Evaluation
import BoolCalc.Proofs.Grammar.Derivation

namespace BoolCalc

/-!
# The tokens of a tree

* `Expr.nodes` : the nodes of a tree as they are written from left to right, each as the token it is read from;
* `Expr.leaves`, `Expr.negations`, `Expr.joinsOf` : the leaves, and the numbers of inner nodes of each kind;
* `Expr.IsMadeOf` : a tree has one node for each token that is no parenthesis, in the order of the tokens;
* `Grammar.Derivation.nodes_valueAfter` : the nodes of the tree of a derivation;
* `Grammar.Derivation.isMadeOf` : **accounting**, the tree of a derivation is made of its tokens.

The operands of a run are folded to the left, which changes the shape of the tree with every further operand. What
does not change is the order of the nodes, read from left to right.
-/

namespace Token

def isParen : Token → Bool
  | .openParen | .closeParen => true
  | _ => false

def isLeaf : Token → Bool
  | .identifier _ | .literal _ => true
  | _ => false

/-- The name, if the token is an `.identifier`. -/
def name? : Token → Option String
  | .identifier name => some name
  | _ => none

theorem name?_eq_some_iff {t : Token} {name : String} : t.name? = some name ↔ t = .identifier name := by
  cases t <;> simp [name?]

end Token

def Evaluation.Connective.token : Evaluation.Connective → Token
  | .and => .and
  | .or => .or

namespace Expr

/-! ### Nodes and leaves -/

/-- The nodes from left to right, each as the token it is read from: `.not` in front of its operand, `.and` and
`.or` between theirs. -/
def nodes : Expr → List Token
  | .variable name => [.identifier name]
  | .literal value => [.literal value]
  | .not e => .not :: e.nodes
  | .and l r => l.nodes ++ .and :: r.nodes
  | .or l r => l.nodes ++ .or :: r.nodes

/-- The `nodes` that are leaves. -/
def leaves : Expr → List Token
  | .variable name => [.identifier name]
  | .literal value => [.literal value]
  | .not e => e.leaves
  | .and l r | .or l r => l.leaves ++ r.leaves

/-- The number of nodes `.not e`. -/
def negations : Expr → Nat
  | .variable _ | .literal _ => 0
  | .not e => 1 + e.negations
  | .and l r | .or l r => l.negations + r.negations

/-- The number of nodes of the connective `c`. -/
def joinsOf (c : Evaluation.Connective) : Expr → Nat
  | .variable _ | .literal _ => 0
  | .not e => e.joinsOf c
  | .and l r => (if c = .and then 1 else 0) + l.joinsOf c + r.joinsOf c
  | .or l r => (if c = .or then 1 else 0) + l.joinsOf c + r.joinsOf c

theorem length_nodes (e : Expr) : e.nodes.length = e.nodeCount := by
  induction e with
  | «variable» | literal => rfl
  | not e ih =>
    rw [nodes, nodeCount, List.length_cons, ih]
    omega
  | and l r ihl ihr | or l r ihl ihr =>
    rw [nodes, nodeCount, List.length_append, List.length_cons, ihl, ihr]
    omega

theorem filter_isLeaf_nodes (e : Expr) : e.nodes.filter Token.isLeaf = e.leaves := by
  induction e with
  | «variable» | literal => rfl
  | not e ih => exact ih
  | and l r ihl ihr | or l r ihl ihr =>
    rw [nodes, leaves, List.filter_append, ihl, ← ihr]
    rfl

theorem filterMap_name?_nodes (e : Expr) : e.nodes.filterMap Token.name? = e.names := by
  induction e with
  | «variable» | literal => rfl
  | not e ih => exact ih
  | and l r ihl ihr | or l r ihl ihr =>
    rw [nodes, names, List.filterMap_append, ihl, ← ihr]
    rfl

theorem count_not_nodes (e : Expr) : e.nodes.count .not = e.negations := by
  induction e with
  | «variable» | literal => rfl
  | not e ih => rw [nodes, negations, List.count_cons_self, ih, Nat.add_comm]
  | and l r ihl ihr | or l r ihl ihr => simp [nodes, negations, ihl, ihr]

theorem count_token_cons (c c' : Evaluation.Connective) (ts : List Token) :
    (c'.token :: ts).count c.token = (if c = c' then 1 else 0) + ts.count c.token := by
  rw [List.count_cons, Nat.add_comm]
  cases c <;> cases c' <;> rfl

theorem count_token_nodes (c : Evaluation.Connective) (e : Expr) : e.nodes.count c.token = e.joinsOf c := by
  have hjoin (c' : Evaluation.Connective) {l r : Expr} (hl : l.nodes.count c.token = l.joinsOf c)
      (hr : r.nodes.count c.token = r.joinsOf c) : (l.nodes ++ c'.token :: r.nodes).count c.token =
        (if c = c' then 1 else 0) + l.joinsOf c + r.joinsOf c := by
    rw [List.count_append, count_token_cons, hl, hr, Nat.add_left_comm, Nat.add_assoc]
  induction e with
  | «variable» | literal => cases c <;> rfl
  | not e ih =>
    have hne : Token.not ≠ c.token := by cases c <;> nofun
    rw [nodes, joinsOf, List.count_cons_of_ne hne, ih]
  | and l r ihl ihr => exact hjoin .and ihl ihr
  | or l r ihl ihr => exact hjoin .or ihl ihr

/-- `e` is made of the tokens `ts`: it has one node for each of them, and none for the parentheses. -/
structure IsMadeOf (e : Expr) (ts : List Token) : Prop where
  nodes : e.nodes = ts.filter (!·.isParen)
  leaves : e.leaves = ts.filter Token.isLeaf
  negations : e.negations = ts.count .not
  /-- One `.and` for each AND, and one `.or` for each OR. -/
  joins : ∀ c : Evaluation.Connective, e.joinsOf c = ts.count c.token
  size : e.nodeCount = ts.length - ts.countP Token.isParen

variable {e : Expr} {ts : List Token}

/-- All of `IsMadeOf` follows from its first field, the order of the nodes. -/
theorem isMadeOf_of_nodes (h : e.nodes = ts.filter (!·.isParen)) : e.IsMadeOf ts where
  nodes := h
  leaves := by
    rw [← e.filter_isLeaf_nodes, h, List.filter_filter]
    refine List.filter_congr fun t _ => ?_
    cases t <;> rfl
  negations := by
    rw [← e.count_not_nodes, h, List.count_filter rfl]
  joins := by
    intro c
    rw [← e.count_token_nodes, h, List.count_filter (by cases c <;> rfl)]
  size := by
    have htokens := List.length_eq_countP_add_countP Token.isParen (l := ts)
    rw [← e.length_nodes, h, ← List.countP_eq_length_filter, htokens, Nat.add_sub_cancel_left]
    refine List.countP_congr fun t _ => ?_
    cases t <;> simp [Token.isParen]

/-- The variables of `e` are the identifiers of `ts`, in their order and as often. -/
theorem IsMadeOf.names_eq (h : e.IsMadeOf ts) : e.names = ts.filterMap Token.name? := by
  rw [← e.filterMap_name?_nodes, h.nodes, List.filterMap_filter]
  refine congrArg (List.filterMap · ts) (funext fun t => ?_)
  cases t <;> rfl

theorem IsMadeOf.identifier_mem (h : e.IsMadeOf ts) {name : String} (hname : name ∈ e.names) :
    .identifier name ∈ ts := by
  rw [h.names_eq] at hname
  obtain ⟨t, ht, hvalue⟩ := List.mem_filterMap.1 hname
  rwa [← Token.name?_eq_some_iff.1 hvalue]

end Expr

/-! ### Derivations -/

namespace Grammar.Derivation

variable {r : Rule}

/-- The `nodes` of the tree of `d` are the derived tokens without the parentheses. For a starred part those of
`left` come before them. -/
theorem nodes_valueAfter (d : Derivation r) (left : Expr) : (d.valueAfter left).nodes =
    (if r.isStarred then left.nodes else []) ++ d.tokens.filter (!·.isParen) := by
  -- The tree of the other rules does not depend on `left`.
  let leaf : Expr := .literal true
  induction d generalizing left with
  | disjunction first others ihf iho | conjunction first others ihf iho =>
    show (others.valueAfter first.value).nodes = _
    rw [iho first.value, tokens, List.filter_append]
    exact congrArg (· ++ _) (ihf leaf)
  | orNil | andNil => exact (List.append_nil left.nodes).symm
  | orCons next others ihn iho =>
    have hnext : next.value.nodes = _ := ihn leaf
    show (others.valueAfter (.or left next.value)).nodes = _
    rw [iho, tokens, List.filter_cons, List.filter_append]
    simp [Rule.isStarred, Expr.nodes, hnext, Token.isParen]
  | andCons next others ihn iho =>
    have hnext : next.value.nodes = _ := ihn leaf
    show (others.valueAfter (.and left next.value)).nodes = _
    rw [iho, tokens, List.filter_cons, List.filter_append]
    simp [Rule.isStarred, Expr.nodes, hnext, Token.isParen]
  | not operand ih => exact congrArg (Token.not :: ·) (ih leaf)
  | plain operand ih => exact ih leaf
  | identifier | literal => rfl
  | group inner ih =>
    have hinner : inner.value.nodes = _ := ih leaf
    show inner.value.nodes = _
    rw [hinner, tokens, List.filter_cons, List.filter_append]
    simp [Rule.isStarred, Token.isParen]

/-- **Accounting.** The tree `d.value` of a derivation is made of `d.tokens`. -/
theorem isMadeOf (d : Derivation .disjunction) : d.value.IsMadeOf d.tokens :=
  Expr.isMadeOf_of_nodes (d.nodes_valueAfter (.literal true))

end Grammar.Derivation

end BoolCalc
