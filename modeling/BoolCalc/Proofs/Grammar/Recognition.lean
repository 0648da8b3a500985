import BoolCalc.Syntax.Parser
import BoolCalc.Proofs.Grammar.Derivation

namespace BoolCalc.Syntax

open Grammar

/-!
# Reading tokens is deriving them

* `Reading`, `read` : what a rule comes to, the six functions for the rules under one name;
* `read_disjunction`, `read_conjunction`, ... : each rule in terms of the others;
* `Explains` : a derivation that accounts for a reading;
* `exists_explains` : **soundness**, every reading has such a derivation;
* `read_eq_of_derivation` : **completeness**, every derivation within the depth limit is found;
* `parse_eq_ok_iff` : a stream is read if and only if its tokens have a derivation within the limit; it
  is the only one, and gives the tree and the depth.

The operands before a starred part come into all this as the tree `left` that is joined to the further
ones.
-/

/-- What a `Rule` reads from some tokens. -/
structure Reading where
  tree : Expr
  rest : List (Spanned Token)
  deepest : Nat

/-- `Progress` without the bound on `rest.length`. -/
def Progress.reading (p : Progress n) : Reading := ⟨p.tree, p.rest, p.deepest⟩

/-- What the rule comes to. Only a starred part looks at `left`, the tree of the operands before it. -/
def read (final : Span) (depth deepest : Nat) (left : Expr) :
    Rule → List (Spanned Token) → Except Stop Reading
  | .disjunction, ts => (disjunction final depth deepest ts).map Progress.reading
  | .disjunctionTail, ts => (disjunctionTail final depth deepest left ts).map Progress.reading
  | .conjunction, ts => (conjunction final depth deepest ts).map Progress.reading
  | .conjunctionTail, ts => (conjunctionTail final depth deepest left ts).map Progress.reading
  | .unary, ts => (unary final depth deepest ts).map Progress.reading
  | .atom, ts => (atom final depth deepest ts).map Progress.reading

variable {final : Span} {depth deepest : Nat} {left : Expr} {ts : List (Spanned Token)} {r : Rule}

/-- Unless `r.isStarred`, a rule that succeeds uses up some token. -/
theorem read_fewer {p : Reading} (h : read final depth deepest left r ts = .ok p)
    (hr : r.isStarred = false) : p.rest.length < ts.length := by
  have fewer {o : Outcome ts.length} (ho : o.map Progress.reading = .ok p) :
      p.rest.length < ts.length := by
    cases o with
    | error stop => cases ho
    | ok q =>
      cases ho
      exact q.fewer
  cases r with
  | disjunctionTail | conjunctionTail => cases hr
  | disjunction | conjunction | unary | atom => exact fewer h

/-! ### Each rule in terms of the others -/

theorem read_disjunction : read final depth deepest left .disjunction ts =
    (read final depth deepest left .conjunction ts).bind fun p =>
      read final depth p.deepest p.tree .disjunctionTail p.rest := by
  simp only [read]
  rw [disjunction]
  cases conjunction final depth deepest ts with
  | error stop => rfl
  | ok p =>
    simp only [Except.map, Except.bind, Progress.reading]
    cases disjunctionTail final depth p.deepest p.tree p.rest <;> rfl

theorem read_disjunctionTail_or {span : Span} :
    read final depth deepest left .disjunctionTail (⟨.or, span⟩ :: ts) =
      (read final depth deepest left .conjunction ts).bind fun p =>
        read final depth p.deepest (.or left p.tree) .disjunctionTail p.rest := by
  simp only [read]
  rw [disjunctionTail]
  cases conjunction final depth deepest ts with
  | error stop => rfl
  | ok p =>
    simp only [Except.map, Except.bind, Progress.reading]
    cases disjunctionTail final depth p.deepest (.or left p.tree) p.rest <;> rfl

theorem read_disjunctionTail_of_ne (h : ∀ t ∈ ts.head?, t.value ≠ .or) :
    read final depth deepest left .disjunctionTail ts = .ok ⟨left, ts, deepest⟩ := by
  simp only [read]
  rw [disjunctionTail]
  · rfl
  · rintro span rest rfl
    exact h _ rfl rfl

theorem read_conjunction : read final depth deepest left .conjunction ts =
    (read final depth deepest left .unary ts).bind fun p =>
      read final depth p.deepest p.tree .conjunctionTail p.rest := by
  simp only [read]
  rw [conjunction]
  cases unary final depth deepest ts with
  | error stop => rfl
  | ok p =>
    simp only [Except.map, Except.bind, Progress.reading]
    cases conjunctionTail final depth p.deepest p.tree p.rest <;> rfl

theorem read_conjunctionTail_and {span : Span} :
    read final depth deepest left .conjunctionTail (⟨.and, span⟩ :: ts) =
      (read final depth deepest left .unary ts).bind fun p =>
        read final depth p.deepest (.and left p.tree) .conjunctionTail p.rest := by
  simp only [read]
  rw [conjunctionTail]
  cases unary final depth deepest ts with
  | error stop => rfl
  | ok p =>
    simp only [Except.map, Except.bind, Progress.reading]
    cases conjunctionTail final depth p.deepest (.and left p.tree) p.rest <;> rfl

theorem read_conjunctionTail_of_ne (h : ∀ t ∈ ts.head?, t.value ≠ .and) :
    read final depth deepest left .conjunctionTail ts = .ok ⟨left, ts, deepest⟩ := by
  simp only [read]
  rw [conjunctionTail]
  · rfl
  · rintro span rest rfl
    exact h _ rfl rfl

theorem read_unary_not {span : Span} :
    read final depth deepest left .unary (⟨.not, span⟩ :: ts) =
      if Limits.parseDepth ≤ depth then .error ⟨.tooDeep span, deepest⟩
      else (read final (depth + 1) (max deepest (depth + 1)) left .unary ts).map fun p =>
        { p with tree := .not p.tree } := by
  simp only [read]
  rw [unary]
  split
  · rfl
  · cases unary final (depth + 1) (max deepest (depth + 1)) ts <;> rfl

theorem read_unary_of_ne (h : ∀ t ∈ ts.head?, t.value ≠ .not) :
    read final depth deepest left .unary ts = read final depth deepest left .atom ts := by
  simp only [read]
  rw [unary]
  rintro span rest rfl
  exact h _ rfl rfl

theorem read_atom_identifier {name : String} {span : Span} :
    read final depth deepest left .atom (⟨.identifier name, span⟩ :: ts) =
      .ok ⟨.variable name, ts, deepest⟩ := by
  simp only [read]
  rw [atom]
  rfl

theorem read_atom_literal {value : Bool} {span : Span} :
    read final depth deepest left .atom (⟨.literal value, span⟩ :: ts) =
      .ok ⟨.literal value, ts, deepest⟩ := by
  simp only [read]
  rw [atom]
  rfl

/-- What a group does behind its disjunction: it takes the `)`, or fails with `closingError`. -/
def closeGroup (final opener : Span) (p : Reading) : Except Stop Reading :=
  match p.rest with
  | ⟨.closeParen, _⟩ :: after => .ok { p with rest := after }
  | inner => .error ⟨closingError opener (headToken final inner), p.deepest⟩

theorem read_atom_group {span : Span} :
    read final depth deepest left .atom (⟨.openParen, span⟩ :: ts) =
      if Limits.parseDepth ≤ depth then .error ⟨.tooDeep span, deepest⟩
      else (read final (depth + 1) (max deepest (depth + 1)) left .disjunction ts).bind
        (closeGroup final span) := by
  simp only [read]
  rw [atom]
  split
  · rfl
  · cases disjunction final (depth + 1) (max deepest (depth + 1)) ts with
    | error stop => rfl
    | ok p =>
      obtain ⟨tree, inner, deepest, fewer⟩ := p
      cases inner with
      | nil => rfl
      | cons t after =>
        obtain ⟨value, span⟩ := t
        cases value <;> rfl

theorem read_atom_of_ne (h : ∀ t ∈ ts.head?, t.value.startsOperand = false ∨ t.value = .not) :
    read final depth deepest left .atom ts =
      .error ⟨operandError depth (headToken final ts), deepest⟩ := by
  simp only [read]
  rw [atom]
  · rfl
  all_goals
    intros
    subst ts
    simpa [Token.startsOperand] using h _ rfl

/-! ### Soundness -/

/-- The derivation `d` accounts for the reading `p` of the tokens `ts`. -/
structure Explains (depth deepest : Nat) (left : Expr) (ts : List (Spanned Token)) (p : Reading)
    (d : Derivation r) : Prop where
  /-- `d` derives the tokens `us` that were used up. -/
  used : ∃ us, ts = us ++ p.rest ∧ us.map Spanned.value = d.tokens
  ends : r.EndsBefore (p.rest.map Spanned.value)
  tree : p.tree = d.valueAfter left
  /-- `d` keeps to the limit if it begins at `depth`. -/
  within : depth + d.nesting ≤ Limits.parseDepth
  /-- The depth reached is that of `d`, or the `deepest` before it. -/
  deepest : p.deepest = max deepest (depth + d.nesting)

/-- `x.bind f` succeeds if both `x` and `f` behind it do. -/
theorem bind_eq_ok {x : Except ε α} {f : α → Except ε β} {b : β} :
    x.bind f = .ok b ↔ ∃ a, x = .ok a ∧ f a = .ok b := by
  cases x <;> simp [Except.bind]

/-- `x.map f` succeeds if `x` does. -/
theorem map_eq_ok {x : Except ε α} {f : α → β} {b : β} :
    x.map f = .ok b ↔ ∃ a, x = .ok a ∧ f a = b := by
  cases x <;> simp [Except.map]

/-- A group that is closed ends with `)`. -/
theorem closeGroup_eq_ok {opener : Span} {q p : Reading} (h : closeGroup final opener q = .ok p) :
    ∃ span after, q.rest = ⟨.closeParen, span⟩ :: after ∧ p = { q with rest := after } := by
  unfold closeGroup at h
  split at h
  · rename_i span after hrest
    cases h
    exact ⟨span, after, hrest, rfl⟩
  · cases h

/-- If `ts` does not match `⟨t, span⟩ :: rest`, its first token is not `t`. -/
theorem head_ne_of_not_cons {t : Token} (h : ¬ ∃ span rest, ts = ⟨t, span⟩ :: rest) :
    ∀ u ∈ ts.head?, u.value ≠ t := by
  rintro ⟨value, span⟩ hu rfl
  cases ts with
  | nil => cases hu
  | cons v rest =>
    cases Option.some.inj hu
    exact h ⟨span, rest, rfl⟩

/-- `.conjunctionTail` ends before a token that is not AND. -/
theorem endsBefore_conjunctionTail (h : ∀ t ∈ ts.head?, t.value ≠ .and) :
    Rule.conjunctionTail.EndsBefore (ts.map Spanned.value) := by
  intro t ht
  rw [List.head?_map] at ht
  obtain ⟨u, hu, rfl⟩ := Option.mem_map.1 ht
  simpa [Rule.continues] using h u hu

/-- `.disjunctionTail` ends where its last conjunction does, before a token that is not OR. -/
theorem endsBefore_disjunctionTail (hand : Rule.conjunction.EndsBefore (ts.map Spanned.value))
    (h : ∀ t ∈ ts.head?, t.value ≠ .or) :
    Rule.disjunctionTail.EndsBefore (ts.map Spanned.value) := by
  intro t ht
  have hnand := hand t ht
  rw [List.head?_map] at ht
  obtain ⟨u, hu, rfl⟩ := Option.mem_map.1 ht
  have hnor := h u hu
  cases hv : u.value <;> simp_all [Rule.continues, Token.isBinary]

/-- Derivations `d₁` of an operand and `d₂` of the further ones account for the run `d` they make up, behind the
tokens `pre`. -/
theorem Explains.append {r₁ r₂ : Rule} {d₁ : Derivation r₁} {d₂ : Derivation r₂} {d : Derivation r}
    {q p : Reading} {left₂ : Expr} (pre : List (Spanned Token))
    (h₁ : Explains depth deepest left ts q d₁) (h₂ : Explains depth q.deepest left₂ q.rest p d₂)
    (htokens : d.tokens = pre.map Spanned.value ++ (d₁.tokens ++ d₂.tokens))
    (hends : r₂.continues = r.continues) (htree : d₂.valueAfter left₂ = d.valueAfter left)
    (hnesting : d.nesting = max d₁.nesting d₂.nesting) :
    Explains depth deepest left (pre ++ ts) p d where
  used := by
    -- The tokens of the whole are those in front, then those of the two parts in order.
    obtain ⟨us, hus, hused⟩ := h₁.used
    obtain ⟨vs, hvs, hused'⟩ := h₂.used
    refine ⟨pre ++ (us ++ vs), ?_, ?_⟩
    · rw [hus, hvs, List.append_assoc, List.append_assoc]
    · rw [List.map_append, List.map_append, hused, hused', htokens]
  ends := by
    intro t ht
    rw [← hends]
    exact h₂.ends t ht
  tree := by rw [h₂.tree, htree]
  within := by
    have hfirst := h₁.within
    have hothers := h₂.within
    omega
  deepest := by
    rw [h₂.deepest, h₁.deepest, hnesting]
    omega

/-- `Explains` for a starred part without an operand, which uses up nothing. -/
theorem Explains.nil {d : Derivation r} (htokens : d.tokens = [])
    (hends : r.EndsBefore (ts.map Spanned.value)) (htree : left = d.valueAfter left)
    (hnesting : d.nesting = 0) (hdepth : depth ≤ deepest) (hlimit : depth ≤ Limits.parseDepth) :
    Explains depth deepest left ts ⟨left, ts, deepest⟩ d where
  used := ⟨[], rfl, htokens.symm⟩
  ends := hends
  tree := htree
  within := by omega
  deepest := by
    show deepest = _
    omega

/-- A derivation of one token `t` accounts for the reading of it. -/
theorem Explains.token {d : Derivation .atom} {t : Spanned Token} {e : Expr}
    (htokens : d.tokens = [t.value]) (htree : e = d.value) (hnesting : d.nesting = 0)
    (hdepth : depth ≤ deepest) (hlimit : depth ≤ Limits.parseDepth) :
    Explains depth deepest left (t :: ts) ⟨e, ts, deepest⟩ d where
  used := ⟨[t], rfl, htokens.symm⟩
  ends := fun _ _ => rfl
  tree := htree
  within := by omega
  deepest := by
    show deepest = _
    omega

/-- A derivation `d₁` of an operand at `depth + 1` accounts for the negation or group `d` that the operand stands
in, with the tokens `opener` and `closers` around it. -/
theorem Explains.nested {r₁ : Rule} {d₁ : Derivation r₁} {d : Derivation r} {q : Reading} {e : Expr}
    (opener : Spanned Token) (closers : List (Spanned Token)) {rest : List (Spanned Token)}
    (h₁ : Explains (depth + 1) (max deepest (depth + 1)) left ts q d₁)
    (hrest : q.rest = closers ++ rest)
    (htokens : d.tokens = opener.value :: (d₁.tokens ++ closers.map Spanned.value))
    (hends : r.EndsBefore (rest.map Spanned.value)) (htree : e = d.valueAfter left)
    (hnesting : d.nesting = 1 + d₁.nesting) :
    Explains depth deepest left (opener :: ts) ⟨e, rest, q.deepest⟩ d where
  used := by
    obtain ⟨us, hus, hused⟩ := h₁.used
    refine ⟨opener :: (us ++ closers), ?_, ?_⟩
    · rw [hus, hrest, List.cons_append, List.append_assoc]
    · rw [List.map_cons, List.map_append, hused, htokens]
  ends := hends
  tree := htree
  within := by
    have hinner := h₁.within
    omega
  deepest := by
    rw [h₁.deepest, hnesting]
    omega

theorem Explains.depth_le {d : Derivation r} {p : Reading} (h : Explains depth deepest left ts p d) :
    depth ≤ p.deepest := by
  rw [h.deepest]
  omega

/-- A rank of the rules: a rule that calls another one on the same tokens has the greater rank, so that
`exists_explains` ends. -/
def ruleRank : Rule → Nat
  | .disjunction => 3
  | .conjunction => 2
  | .unary => 1
  | .disjunctionTail | .conjunctionTail | .atom => 0

/-- **Soundness.** What the rule `r` reads, some derivation `Explains`. -/
theorem exists_explains (r : Rule) {depth deepest : Nat} {left : Expr} {ts : List (Spanned Token)}
    {p : Reading} (h : read final depth deepest left r ts = .ok p) (hdepth : depth ≤ deepest)
    (hlimit : depth ≤ Limits.parseDepth)
    (hstart : r = .disjunctionTail → Rule.conjunction.EndsBefore (ts.map Spanned.value)) :
    ∃ d : Derivation r, Explains depth deepest left ts p d := by
  -- Each rule follows from those it calls; only what the operands before a starred part leave behind
  -- is known to end a conjunction.
  cases r with
  | disjunction =>
    rw [read_disjunction] at h
    obtain ⟨q, hq, h⟩ := bind_eq_ok.1 h
    have := read_fewer hq rfl
    obtain ⟨d₁, h₁⟩ := exists_explains .conjunction hq hdepth hlimit (by simp)
    obtain ⟨d₂, h₂⟩ := exists_explains .disjunctionTail h h₁.depth_le hlimit
      fun _ => h₁.ends
    exact ⟨.disjunction d₁ d₂, h₁.append [] h₂ rfl rfl (by rw [h₁.tree]; rfl) rfl⟩
  | disjunctionTail =>
    by_cases hor : ∃ span rest, ts = ⟨.or, span⟩ :: rest
    · obtain ⟨span, rest, rfl⟩ := hor
      rw [read_disjunctionTail_or] at h
      obtain ⟨q, hq, h⟩ := bind_eq_ok.1 h
      have := read_fewer hq rfl
      obtain ⟨d₁, h₁⟩ := exists_explains .conjunction hq hdepth hlimit (by simp)
      obtain ⟨d₂, h₂⟩ := exists_explains .disjunctionTail h h₁.depth_le hlimit
        fun _ => h₁.ends
      exact ⟨.orCons d₁ d₂, h₁.append [⟨.or, span⟩] h₂ rfl rfl (by rw [h₁.tree]; rfl) rfl⟩
    · -- The starred part is empty. That the conjunction before it ends here is `hstart`.
      have hne := head_ne_of_not_cons hor
      rw [read_disjunctionTail_of_ne hne] at h
      cases h
      exact ⟨.orNil, .nil rfl (endsBefore_disjunctionTail (hstart rfl) hne) rfl rfl hdepth hlimit⟩
  | conjunction =>
    rw [read_conjunction] at h
    obtain ⟨q, hq, h⟩ := bind_eq_ok.1 h
    have := read_fewer hq rfl
    obtain ⟨d₁, h₁⟩ := exists_explains .unary hq hdepth hlimit (by simp)
    obtain ⟨d₂, h₂⟩ := exists_explains .conjunctionTail h h₁.depth_le hlimit (by simp)
    exact ⟨.conjunction d₁ d₂, h₁.append [] h₂ rfl rfl (by rw [h₁.tree]; rfl) rfl⟩
  | conjunctionTail =>
    by_cases hand : ∃ span rest, ts = ⟨.and, span⟩ :: rest
    · obtain ⟨span, rest, rfl⟩ := hand
      rw [read_conjunctionTail_and] at h
      obtain ⟨q, hq, h⟩ := bind_eq_ok.1 h
      have := read_fewer hq rfl
      obtain ⟨d₁, h₁⟩ := exists_explains .unary hq hdepth hlimit (by simp)
      obtain ⟨d₂, h₂⟩ := exists_explains .conjunctionTail h h₁.depth_le hlimit (by simp)
      exact ⟨.andCons d₁ d₂, h₁.append [⟨.and, span⟩] h₂ rfl rfl (by rw [h₁.tree]; rfl) rfl⟩
    · have hne := head_ne_of_not_cons hand
      rw [read_conjunctionTail_of_ne hne] at h
      cases h
      exact ⟨.andNil, .nil rfl (endsBefore_conjunctionTail hne) rfl rfl hdepth hlimit⟩
  | unary =>
    by_cases hnot : ∃ span rest, ts = ⟨.not, span⟩ :: rest
    · obtain ⟨span, rest, rfl⟩ := hnot
      rw [read_unary_not] at h
      split at h
      · cases h
      · obtain ⟨q, hq, rfl⟩ := map_eq_ok.1 h
        obtain ⟨d₁, h₁⟩ := exists_explains .unary hq (Nat.le_max_right _ _) (by omega) (by simp)
        -- The operand was read one level deeper, with NOT in front of it and nothing behind.
        exact ⟨.not d₁, h₁.nested ⟨.not, span⟩ [] rfl (by simp [Derivation.tokens])
          (fun _ _ => rfl) (by rw [h₁.tree]; rfl) rfl⟩
    · rw [read_unary_of_ne (head_ne_of_not_cons hnot)] at h
      obtain ⟨d₁, h₁⟩ := exists_explains .atom h hdepth hlimit (by simp)
      exact ⟨.plain d₁, h₁.used, fun _ _ => rfl, h₁.tree, h₁.within, h₁.deepest⟩
  | atom =>
    cases ts with
    | nil =>
      rw [read_atom_of_ne (by simp)] at h
      cases h
    | cons t rest =>
      obtain ⟨value, span⟩ := t
      cases value with
      | identifier name =>
        rw [read_atom_identifier] at h
        cases h
        exact ⟨.identifier name, .token rfl rfl rfl hdepth hlimit⟩
      | literal value =>
        rw [read_atom_literal] at h
        cases h
        exact ⟨.literal value, .token rfl rfl rfl hdepth hlimit⟩
      | openParen =>
        rw [read_atom_group] at h
        split at h
        · cases h
        · obtain ⟨q, hq, h⟩ := bind_eq_ok.1 h
          obtain ⟨d₁, h₁⟩ := exists_explains .disjunction hq (Nat.le_max_right _ _) (by omega)
            (by simp)
          -- The group was closed, so there is a parenthesis on either side of the disjunction.
          obtain ⟨close, after, hrest, rfl⟩ := closeGroup_eq_ok h
          exact ⟨.group d₁, h₁.nested ⟨.openParen, span⟩ [⟨.closeParen, close⟩] hrest rfl
            (fun _ _ => rfl) (by rw [h₁.tree]; rfl) rfl⟩
      | and | or | not | closeParen | reserved | endOfInput =>
        rw [read_atom_of_ne (by simp [Token.startsOperand])] at h
        cases h
-- A rule calls others on fewer tokens, or one of a lower rank on the same tokens.
termination_by (ts.length, ruleRank r)
decreasing_by
  all_goals subst_vars
  all_goals first
    | exact Prod.Lex.right _ (by decide)
    | exact Prod.Lex.left _ _ ‹_›
    | exact Prod.Lex.left _ _ (by simp only [List.length_cons]; omega)

/-! ### Completeness -/

/-- A conjunction ends before the tokens `us` of the further operands of its disjunction. -/
theorem endsBefore_append_orTail {others : Derivation .disjunctionTail}
    {us rest : List (Spanned Token)} (hus : us.map Spanned.value = others.tokens)
    (h : Rule.disjunction.EndsBefore (rest.map Spanned.value)) :
    Rule.conjunction.EndsBefore ((us ++ rest).map Spanned.value) := by
  rw [List.map_append, hus]
  exact others.endsBefore_orTail h

/-- If `r.EndsBefore` the tokens, the first of them is not one that `r.continues`. -/
theorem head_ne_of_endsBefore {t : Token} (h : r.EndsBefore (ts.map Spanned.value))
    (ht : r.continues t = true) : ∀ u ∈ ts.head?, u.value ≠ t := by
  rintro u hu rfl
  have hu' := h u.value (by rw [List.head?_map]; exact Option.mem_map_of_mem _ hu)
  exact Bool.false_ne_true (hu'.symm.trans ht)

/-- **Completeness.** The tokens `us` of a derivation `d` within the limit are read, in front of a `rest` that does
not go on with its run. The tree is `d.valueAfter left`, and the depth reached is that of `d` or the `deepest`
before it. -/
theorem read_eq_of_derivation (d : Derivation r) {depth deepest : Nat} {left : Expr}
    {us rest : List (Spanned Token)} (hused : us.map Spanned.value = d.tokens)
    (hends : r.EndsBefore (rest.map Spanned.value)) (hdepth : depth ≤ deepest)
    (hwithin : depth + d.nesting ≤ Limits.parseDepth) :
    read final depth deepest left r (us ++ rest) =
      .ok ⟨d.valueAfter left, rest, max deepest (depth + d.nesting)⟩ := by
  -- The other operands are read where the first one leaves off, with the tree and the depth it gives.
  induction d generalizing depth deepest left us rest with
  | disjunction first others ihf iho =>
    obtain ⟨us₁, us₂, rfl, h₁, h₂⟩ := List.map_eq_append_iff.1 hused
    simp only [Derivation.nesting] at hwithin ⊢
    have hfirst := endsBefore_append_orTail h₂ hends
    rw [List.append_assoc, read_disjunction, ihf h₁ hfirst hdepth (by omega)]
    simp only [Except.bind]
    -- The depths reached add up: `max (max deepest m) n` is `max deepest (max m n)`.
    rw [iho h₂ hends (by omega) (by omega), Nat.max_assoc, Nat.add_max_add_left]
    rfl
  | orNil =>
    obtain rfl := List.map_eq_nil_iff.1 hused
    -- The run ends here, since `rest` does not begin with OR.
    rw [List.nil_append, read_disjunctionTail_of_ne]
    · rw [Derivation.nesting, Nat.max_eq_left (by omega)]
      rfl
    · exact head_ne_of_endsBefore hends rfl
  | orCons next others ihn iho =>
    obtain ⟨⟨value, span⟩, us, rfl, hvalue, hus⟩ := List.map_eq_cons_iff.1 hused
    obtain ⟨us₁, us₂, rfl, h₁, h₂⟩ := List.map_eq_append_iff.1 hus
    obtain rfl : value = .or := hvalue
    simp only [Derivation.nesting] at hwithin ⊢
    have hnext := endsBefore_append_orTail h₂ hends
    rw [List.cons_append, List.append_assoc, read_disjunctionTail_or,
      ihn h₁ hnext hdepth (by omega)]
    simp only [Except.bind]
    rw [iho h₂ hends (by omega) (by omega), Nat.max_assoc, Nat.add_max_add_left]
    rfl
  | conjunction first others ihf iho =>
    obtain ⟨us₁, us₂, rfl, h₁, h₂⟩ := List.map_eq_append_iff.1 hused
    simp only [Derivation.nesting] at hwithin ⊢
    rw [List.append_assoc, read_conjunction, ihf h₁ (fun _ _ => rfl) hdepth (by omega)]
    simp only [Except.bind]
    rw [iho h₂ hends (by omega) (by omega), Nat.max_assoc, Nat.add_max_add_left]
    rfl
  | andNil =>
    obtain rfl := List.map_eq_nil_iff.1 hused
    rw [List.nil_append, read_conjunctionTail_of_ne]
    · rw [Derivation.nesting, Nat.max_eq_left (by omega)]
      rfl
    · exact head_ne_of_endsBefore hends rfl
  | andCons next others ihn iho =>
    obtain ⟨⟨value, span⟩, us, rfl, hvalue, hus⟩ := List.map_eq_cons_iff.1 hused
    obtain ⟨us₁, us₂, rfl, h₁, h₂⟩ := List.map_eq_append_iff.1 hus
    obtain rfl : value = .and := hvalue
    simp only [Derivation.nesting] at hwithin ⊢
    rw [List.cons_append, List.append_assoc, read_conjunctionTail_and,
      ihn h₁ (fun _ _ => rfl) hdepth (by omega)]
    simp only [Except.bind]
    rw [iho h₂ hends (by omega) (by omega), Nat.max_assoc, Nat.add_max_add_left]
    rfl
  | not operand ih =>
    obtain ⟨⟨value, span⟩, us, rfl, hvalue, hus⟩ := List.map_eq_cons_iff.1 hused
    obtain rfl : value = .not := hvalue
    simp only [Derivation.nesting] at hwithin ⊢
    rw [List.cons_append, read_unary_not, if_neg (by omega),
      ih hus hends (Nat.le_max_right _ _) (by omega), Nat.max_assoc]
    simp only [Except.map, Except.ok.injEq, Reading.mk.injEq]
    exact ⟨rfl, trivial, by omega⟩
  | plain operand ih =>
    -- An atom is not taken for a negation.
    rw [read_unary_of_ne, ih hused (fun _ _ => rfl) hdepth hwithin]
    · rfl
    · intro u hu hnot
      obtain ⟨tail, htail⟩ := List.head?_eq_some_iff.1 hu
      have hatom : us.map Spanned.value = operand.tokens := hused
      refine operand.atom_tokens_ne_not (rest.map Spanned.value) (tail.map Spanned.value) ?_
      rw [← hatom, ← List.map_append, htail, List.map_cons, hnot]
  | identifier name =>
    obtain ⟨⟨value, span⟩, us, rfl, hvalue, hus⟩ := List.map_eq_cons_iff.1 hused
    obtain rfl : value = .identifier name := hvalue
    obtain rfl := List.map_eq_nil_iff.1 hus
    rw [List.singleton_append, read_atom_identifier, Derivation.nesting,
      Nat.max_eq_left (by omega)]
    rfl
  | literal value =>
    obtain ⟨⟨value', span⟩, us, rfl, hvalue, hus⟩ := List.map_eq_cons_iff.1 hused
    obtain rfl : value' = .literal value := hvalue
    obtain rfl := List.map_eq_nil_iff.1 hus
    rw [List.singleton_append, read_atom_literal, Derivation.nesting, Nat.max_eq_left (by omega)]
    rfl
  | group inner ih =>
    obtain ⟨⟨value, span⟩, us, rfl, hvalue, hus⟩ := List.map_eq_cons_iff.1 hused
    obtain ⟨us, closers, rfl, h₁, h₂⟩ := List.map_eq_append_iff.1 hus
    obtain ⟨⟨close, span'⟩, nothing, rfl, hclose, hnothing⟩ := List.map_eq_cons_iff.1 h₂
    obtain rfl := List.map_eq_nil_iff.1 hnothing
    obtain rfl : value = .openParen := hvalue
    obtain rfl : close = .closeParen := hclose
    simp only [Derivation.nesting] at hwithin ⊢
    -- The closing parenthesis is left behind by the disjunction inside.
    have hinner : Rule.disjunction.EndsBefore
        (([(⟨.closeParen, span'⟩ : Spanned Token)] ++ rest).map Spanned.value) :=
      Derivation.endsBefore_close
    rw [List.cons_append, List.append_assoc, read_atom_group, if_neg (by omega),
      ih h₁ hinner (Nat.le_max_right _ _) (by omega)]
    simp only [Except.bind, closeGroup, List.singleton_append, Except.ok.injEq, Reading.mk.injEq]
    exact ⟨rfl, trivial, by omega⟩

/-! ### Whole streams -/

/-- `parseTokens` succeeds if there is a first token, a disjunction is read, and the end of input comes next. -/
theorem parseTokens_ok_iff (left : Expr) {e : Expr} {k : Nat} :
    ((parseTokens final ts).result = .ok e ∧ (parseTokens final ts).deepest = k) ↔
      (headToken final ts).value.isEnd = false ∧
        ∃ rest, read final 0 0 left .disjunction ts = .ok ⟨e, rest, k⟩ ∧
          (headToken final rest).value.isEnd = true := by
  unfold parseTokens
  simp only [read]
  cases hfirst : (headToken final ts).value.isEnd with
  | true => simp
  | false =>
    cases disjunction final 0 0 ts with
    | error stop => simp [Except.map]
    | ok p =>
      cases hnext : (headToken final p.rest).value.isEnd with
      | true =>
        simp only [hnext, Except.map, Progress.reading, Bool.false_eq_true, if_false, if_true,
          Except.ok.injEq, Reading.mk.injEq, true_and]
        constructor
        · rintro ⟨rfl, rfl⟩
          exact ⟨p.rest, ⟨rfl, rfl, rfl⟩, hnext⟩
        · rintro ⟨rest, ⟨rfl, rfl, rfl⟩, -⟩
          exact ⟨rfl, rfl⟩
      | false =>
        simp only [hnext, Except.map, Progress.reading, Bool.false_eq_true, if_false,
          Except.ok.injEq, Reading.mk.injEq, true_and, reduceCtorEq, false_and, false_iff]
        rintro ⟨rest, ⟨-, rfl, -⟩, hend⟩
        exact Bool.false_ne_true (hnext.symm.trans hend)

/-- A stream that is read has a derivation, within the limit, of its tokens `us` up to an end of input. Its
`nesting` is the depth reached. -/
theorem exists_derivation_of_parse {s : TokenStream} {e : Expr} (h : (parse s).value = .ok e) :
    ∃ (d : Derivation .disjunction) (us rest : List (Spanned Token)), s.body = us ++ rest ∧
      us.map Spanned.value = d.tokens ∧ (headToken s.final rest).value.isEnd = true ∧ d.value = e ∧
      d.nesting ≤ Limits.parseDepth ∧ (parseStream s).value.deepest = d.nesting := by
  obtain ⟨-, rest, hread, hend⟩ := (parseTokens_ok_iff e).1 ⟨h, rfl⟩
  obtain ⟨d, hd⟩ := exists_explains .disjunction hread (Nat.le_refl _) (Nat.zero_le _)
    (by simp)
  obtain ⟨us, hus, hused⟩ := hd.used
  have hdeepest := hd.deepest
  rw [Nat.zero_add, Nat.zero_max] at hdeepest
  exact ⟨d, us, rest, hus, hused, hend, hd.tree.symm, by simpa using hd.within, hdeepest⟩

/-- If no token of `ts` is `.endOfInput`, the end comes behind the last one only. -/
theorem headToken_isEnd_iff (h : ∀ t ∈ ts, t.value ≠ .endOfInput) :
    (headToken final ts).value.isEnd = true ↔ ts = [] := by
  cases ts with
  | nil => exact ⟨fun _ => rfl, fun _ => rfl⟩
  | cons t rest =>
    have ht := h t List.mem_cons_self
    obtain ⟨value, span⟩ := t
    cases value <;> simp_all [headToken, Token.isEnd]

/-- If the body of `s` are the tokens of a derivation `d` within the limit, `parse s` is `d.value`, and the depth
reached is `d.nesting`. -/
theorem parse_of_derivation {s : TokenStream} {d : Derivation .disjunction}
    (hs : ∀ t ∈ s.body, t.value ≠ .endOfInput) (hd : d.tokens = s.body.map Spanned.value)
    (hlimit : d.nesting ≤ Limits.parseDepth) :
    (parse s).value = .ok d.value ∧ (parseStream s).value.deepest = d.nesting := by
  have hnil : Rule.disjunction.EndsBefore [] := fun _ h => by cases h
  have hread : read s.final 0 0 d.value .disjunction (s.body ++ []) =
      .ok ⟨d.value, [], max 0 (0 + d.nesting)⟩ :=
    read_eq_of_derivation d hd.symm hnil (Nat.le_refl 0) (by simpa using hlimit)
  rw [List.append_nil, Nat.zero_add, Nat.zero_max] at hread
  refine (parseTokens_ok_iff d.value).2 ⟨?_, [], hread, rfl⟩
  have hfewer := read_fewer hread rfl
  rw [← Bool.not_eq_true, headToken_isEnd_iff hs]
  exact List.ne_nil_of_length_pos hfewer

/-- **Recognition.** Let `s` have no `.endOfInput` before its last token.
* `parse s` is the tree `e`, with `k` the depth reached, exactly if the tokens of `s` have a derivation of `e` of
  which no token lies under more parentheses and negations than `Limits.parseDepth`, and `k` is the greatest of its
  `levels`.
* The tokens of `s` have no two derivations. -/
theorem parse_eq_ok_iff (s : TokenStream) (hs : ∀ t ∈ s.body, t.value ≠ .endOfInput) :
    (∀ e k, ((parse s).value = .ok e ∧ (parseStream s).value.deepest = k) ↔
      ∃ d : Derivation .disjunction, d.tokens = s.body.map Spanned.value ∧
        (∀ n ∈ d.levels, n ≤ Limits.parseDepth) ∧ d.value = e ∧ IsGreatest {n | n ∈ d.levels} k) ∧
    ∀ d d' : Derivation .disjunction, d.tokens = s.body.map Spanned.value →
      d'.tokens = s.body.map Spanned.value → d = d' := by
  refine ⟨fun e k => ⟨?_, ?_⟩, ?_⟩
  · rintro ⟨h, rfl⟩
    obtain ⟨d, us, rest, hbody, hused, hend, hvalue, hlimit, hdeepest⟩ :=
      exists_derivation_of_parse h
    have hrest : rest = [] := (headToken_isEnd_iff fun t ht =>
      hs t (hbody ▸ List.mem_append_right _ ht)).1 hend
    rw [hrest, List.append_nil] at hbody
    refine ⟨d, by rw [hbody, hused], (d.forall_levels_le_iff _).2 hlimit, hvalue, ?_⟩
    rw [hdeepest]
    exact d.isGreatest_nesting
  · rintro ⟨d, htokens, hlevels, rfl, hk⟩
    rw [hk.unique d.isGreatest_nesting]
    exact parse_of_derivation hs htokens ((d.forall_levels_le_iff _).1 hlevels)
  · intro d d' h h'
    have hnil : Rule.disjunction.EndsBefore [] := fun _ h => by cases h
    exact (d.unique d' (by rw [h, h']) hnil hnil).1

/-- The tokens of `((a) AND NOT b)`. -/
def groupStream : TokenStream where
  body := [.openParen, .openParen, .identifier "a", .closeParen, .and, .not, .identifier "b",
    .closeParen].map fun t => ⟨t, .point .start⟩
  final := .point .start

/-- The derivation of `((a) AND NOT b)`. -/
def groupDerivation : Derivation .disjunction :=
  .disjunction (.conjunction (.plain (.group (.disjunction (.conjunction
    (.plain (.group (.disjunction (.conjunction (.plain (.identifier "a")) .andNil) .orNil)))
    (.andCons (.not (.plain (.identifier "b"))) .andNil)) .orNil))) .andNil) .orNil

/-- `((a) AND NOT b)` is read, with two levels around `a` and around `b`. -/
theorem parse_groupStream : (∀ t ∈ groupStream.body, t.value ≠ .endOfInput) ∧
    (parse groupStream).value = .ok (.and (.variable "a") (.not (.variable "b"))) ∧
    (parseStream groupStream).value.deepest = 2 :=
  ⟨by decide, ((parse_eq_ok_iff groupStream (by decide)).1 _ _).2
    ⟨groupDerivation, rfl, by decide, rfl, groupDerivation.isGreatest_nesting⟩⟩

end BoolCalc.Syntax
