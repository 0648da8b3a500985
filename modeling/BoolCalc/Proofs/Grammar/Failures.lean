import BoolCalc.Proofs.Grammar.DerivedTokens
import BoolCalc.Proofs.Grammar.Recognition

namespace BoolCalc.Syntax

open Grammar

/-!
# Where reading fails

* `FailsAt`, `RefusedAt` : a rule, and a whole sequence, that fails at a token behind others, by the rules of
  the grammar and without the functions that read;
* `failsAt_of_read`, `read_of_failsAt` : the functions fail so and not otherwise, whatever comes behind the
  token;
* `parse_eq_error_iff` : the same for a stream;
* `FailsAt.exists_completion` : the tokens before the failure can be completed;
* `Blames` : the failure is about the token;
* `FailsAt.blames_or` : a failure is about the token where it arises, or about a group that is open there;
* `exists_blames_of_parse` : the reading of a stream that fails blames one of its tokens, or its end.
-/

/-- `us` are the tokens of `d`, which keeps to `Limits.parseDepth` if it begins at `depth`. -/
structure Fits {r : Rule} (depth : Nat) (us : List (Spanned Token)) (d : Derivation r) : Prop where
  used : us.map Spanned.value = d.tokens
  within : depth + d.nesting ≤ Limits.parseDepth

/-- `FailsAt t r depth before e`: the rule `r` at `depth` reads the tokens `before`, and fails with `e` at the token
`t` behind them. There is a constructor for each place in a rule where this can happen: in its first part, in a
later one behind parts that are read (`Fits`), or at `t` itself. -/
inductive FailsAt (t : Spanned Token) : Rule → Nat → List (Spanned Token) → ParseError → Prop where
  | orFirst {depth : Nat} {before : List (Spanned Token)} {e : ParseError} :
      FailsAt t .conjunction depth before e → FailsAt t .disjunction depth before e
  | orOthers {depth : Nat} {us before : List (Spanned Token)} {e : ParseError}
      {first : Derivation .conjunction} : Fits depth us first →
      FailsAt t .disjunctionTail depth before e → FailsAt t .disjunction depth (us ++ before) e
  | orNext {depth : Nat} {span : Span} {before : List (Spanned Token)} {e : ParseError} :
      FailsAt t .conjunction depth before e →
      FailsAt t .disjunctionTail depth (⟨.or, span⟩ :: before) e
  | orLater {depth : Nat} {span : Span} {us before : List (Spanned Token)} {e : ParseError}
      {next : Derivation .conjunction} : Fits depth us next →
      FailsAt t .disjunctionTail depth before e →
      FailsAt t .disjunctionTail depth (⟨.or, span⟩ :: (us ++ before)) e
  | andFirst {depth : Nat} {before : List (Spanned Token)} {e : ParseError} :
      FailsAt t .unary depth before e → FailsAt t .conjunction depth before e
  | andOthers {depth : Nat} {us before : List (Spanned Token)} {e : ParseError}
      {first : Derivation .unary} : Fits depth us first →
      FailsAt t .conjunctionTail depth before e → FailsAt t .conjunction depth (us ++ before) e
  | andNext {depth : Nat} {span : Span} {before : List (Spanned Token)} {e : ParseError} :
      FailsAt t .unary depth before e → FailsAt t .conjunctionTail depth (⟨.and, span⟩ :: before) e
  | andLater {depth : Nat} {span : Span} {us before : List (Spanned Token)} {e : ParseError}
      {next : Derivation .unary} : Fits depth us next →
      FailsAt t .conjunctionTail depth before e →
      FailsAt t .conjunctionTail depth (⟨.and, span⟩ :: (us ++ before)) e
  | negated {depth : Nat} {span : Span} {before : List (Spanned Token)} {e : ParseError} :
      depth < Limits.parseDepth → FailsAt t .unary (depth + 1) before e →
      FailsAt t .unary depth (⟨.not, span⟩ :: before) e
  /-- A negation that would be too deep. -/
  | deepNegation {depth : Nat} : t.value = .not → Limits.parseDepth ≤ depth →
      FailsAt t .unary depth [] (.tooDeep t.span)
  | plain {depth : Nat} {before : List (Spanned Token)} {e : ParseError} :
      FailsAt t .atom depth before e → FailsAt t .unary depth before e
  /-- `t` stands in the place of an operand and does not begin one. -/
  | operand {depth : Nat} : t.value.startsOperand = false →
      FailsAt t .atom depth [] (operandError depth t)
  /-- A group that would be too deep. -/
  | deepGroup {depth : Nat} : t.value = .openParen → Limits.parseDepth ≤ depth →
      FailsAt t .atom depth [] (.tooDeep t.span)
  | grouped {depth : Nat} {span : Span} {before : List (Spanned Token)} {e : ParseError} :
      depth < Limits.parseDepth → FailsAt t .disjunction (depth + 1) before e →
      FailsAt t .atom depth (⟨.openParen, span⟩ :: before) e
  /-- `t` stands in the place of the `)` of a group. -/
  | closing {depth : Nat} {span : Span} {us : List (Spanned Token)} {inner : Derivation .disjunction} :
      depth < Limits.parseDepth → Fits (depth + 1) us inner →
      Rule.disjunction.continues t.value = false → t.value ≠ .closeParen →
      FailsAt t .atom depth (⟨.openParen, span⟩ :: us) (closingError span t)

/-- A sequence of tokens is read up to `t`, behind the tokens `before`, and fails there with `e`. -/
inductive RefusedAt (t : Spanned Token) : List (Spanned Token) → ParseError → Prop where
  | empty : t.value.isEnd = true → RefusedAt t [] (.emptyExpression t.span)
  | inside {before : List (Spanned Token)} {e : ParseError} : (before = [] → t.value.isEnd = false) →
      FailsAt t .disjunction 0 before e → RefusedAt t before e
  /-- `t` stands behind a complete disjunction. -/
  | after {us : List (Spanned Token)} {whole : Derivation .disjunction} : Fits 0 us whole →
      Rule.disjunction.continues t.value = false → t.value.isEnd = false → RefusedAt t us (afterError t)

variable {final : Span} {depth deepest : Nat} {left : Expr} {r : Rule} {t : Spanned Token}
  {e : ParseError} {ts us before tail : List (Spanned Token)}

/-! ### The token at the front -/

theorem isEnd_iff {t : Token} : t.isEnd = true ↔ t = .endOfInput := by
  cases t <;> simp [Token.isEnd]

/-- If `tail` has a first token, it is `headToken final tail`. -/
theorem eq_of_mem_head? (ht : headToken final tail = t) : ∀ u ∈ tail.head?, u = t := by
  intro u hu
  rw [← ht, headToken, hu]
  rfl

/-- `headToken final tail` is the first token of `tail`, unless it is an end of input. -/
theorem exists_eq_cons_of_headToken (ht : headToken final tail = t) (hend : t.value ≠ .endOfInput) :
    ∃ behind, tail = t :: behind := by
  cases tail with
  | nil => exact absurd (congrArg Spanned.value ht).symm hend
  | cons u behind => exact ⟨behind, congrArg (· :: behind) ht⟩

/-- `r.EndsBefore` in terms of `headToken`: the run of `r` does not go on with it. -/
theorem endsBefore_iff_headToken (final : Span) :
    r.EndsBefore (tail.map Spanned.value) ↔ r.continues (headToken final tail).value = false := by
  cases tail with
  | nil => exact ⟨fun _ => by cases r <;> rfl, fun _ _ h => by cases h⟩
  | cons t behind =>
    refine ⟨fun h => h _ rfl, fun h u hu => ?_⟩
    cases Option.some.inj hu
    exact h

/-! ### Parts that fail -/

/-- `x.bind f` fails if `x` does, or `f` behind it. -/
theorem bind_eq_error {x : Except ε α} {f : α → Except ε β} {err : ε} :
    x.bind f = .error err ↔ x = .error err ∨ ∃ a, x = .ok a ∧ f a = .error err := by
  cases x <;> simp [Except.bind]

theorem map_eq_error {x : Except ε α} {f : α → β} {err : ε} : x.map f = .error err ↔ x = .error err := by
  cases x <;> simp [Except.map]

/-- `closeGroup` fails behind the disjunction in a group, with `closingError`, at a token that is not `)`. -/
theorem closeGroup_eq_error_iff {opener : Span} {q : Reading} {stop : Stop} :
    closeGroup final opener q = .error stop ↔ (headToken final q.rest).value ≠ .closeParen ∧
      stop = ⟨closingError opener (headToken final q.rest), q.deepest⟩ := by
  unfold closeGroup
  split
  · rename_i span after hrest
    rw [hrest]
    exact ⟨nofun, fun h => absurd rfl h.1⟩
  · rename_i hother
    -- A head that closes is a token of the list, since the final token is `endOfInput`; the branch above takes it.
    have hclose : (headToken final q.rest).value ≠ .closeParen := by
      intro hclose
      obtain ⟨behind, hbehind⟩ := exists_eq_cons_of_headToken (t := headToken final q.rest) rfl
        (by rw [hclose]; nofun)
      generalize headToken final q.rest = t at hbehind hclose
      obtain ⟨value, span⟩ := t
      subst hclose
      exact hother span behind hbehind
    constructor
    · intro h
      cases h
      exact ⟨hclose, rfl⟩
    · rintro ⟨-, rfl⟩
      rfl

/-- A derivation that `Explains` a reading `Fits` the tokens `us` that were used up. -/
theorem Explains.fits {d : Derivation r} {q : Reading} (h : Explains depth deepest left ts q d) :
    ∃ us, ts = us ++ q.rest ∧ Fits depth us d := by
  obtain ⟨us, hus, hused⟩ := h.used
  exact ⟨us, hus, hused, h.within⟩

/-- Tokens `us` that are read, and `before` behind them, make up one front of `ts`. -/
theorem exists_append {q : Reading} (hus : ts = us ++ q.rest) (hrest : q.rest = before ++ tail) :
    ts = (us ++ before) ++ tail := by
  rw [hus, hrest, List.append_assoc]

/-! ### Soundness -/

/-- **Soundness.** If `read` fails with `stop`, the rule `r` `FailsAt` a token behind some tokens `before`, with
`stop.error`. -/
theorem failsAt_of_read (r : Rule) {depth deepest : Nat} {left : Expr} {ts : List (Spanned Token)}
    {stop : Stop} (h : read final depth deepest left r ts = .error stop) (hdepth : depth ≤ deepest)
    (hlimit : depth ≤ Limits.parseDepth) (hatom : r = .atom → ∀ u ∈ ts.head?, u.value ≠ .not) :
    ∃ before tail, ts = before ++ tail ∧
      FailsAt (headToken final tail) r depth before stop.error := by
  -- A rule fails in the first of its parts that fails; the parts before it are accounted for.
  cases r with
  | disjunction =>
    rw [read_disjunction] at h
    rcases bind_eq_error.1 h with h | ⟨q, hq, h⟩
    · obtain ⟨before, tail, hts, hfails⟩ := failsAt_of_read .conjunction h hdepth hlimit nofun
      exact ⟨before, tail, hts, .orFirst hfails⟩
    · -- The first operand is read, with a derivation `d`, and the failure is in the others.
      have := read_fewer hq rfl
      obtain ⟨d, hd⟩ := exists_explains .conjunction hq hdepth hlimit (by simp)
      obtain ⟨us, hus, hfits⟩ := hd.fits
      obtain ⟨before, tail, hrest, hfails⟩ :=
        failsAt_of_read .disjunctionTail h hd.depth_le hlimit nofun
      exact ⟨us ++ before, tail, exists_append hus hrest, .orOthers hfits hfails⟩
  | disjunctionTail =>
    by_cases hor : ∃ span rest, ts = ⟨.or, span⟩ :: rest
    · obtain ⟨span, rest, rfl⟩ := hor
      rw [read_disjunctionTail_or] at h
      rcases bind_eq_error.1 h with h | ⟨q, hq, h⟩
      · obtain ⟨before, tail, rfl, hfails⟩ := failsAt_of_read .conjunction h hdepth hlimit nofun
        exact ⟨_ :: before, tail, rfl, .orNext hfails⟩
      · have := read_fewer hq rfl
        obtain ⟨d, hd⟩ := exists_explains .conjunction hq hdepth hlimit (by simp)
        obtain ⟨us, hus, hfits⟩ := hd.fits
        obtain ⟨before, tail, hrest, hfails⟩ :=
          failsAt_of_read .disjunctionTail h hd.depth_le hlimit nofun
        exact ⟨_ :: (us ++ before), tail, congrArg _ (exists_append hus hrest), .orLater hfits hfails⟩
    · -- Without an OR nothing is read, which does not fail.
      rw [read_disjunctionTail_of_ne (head_ne_of_not_cons hor)] at h
      cases h
  | conjunction =>
    rw [read_conjunction] at h
    rcases bind_eq_error.1 h with h | ⟨q, hq, h⟩
    · obtain ⟨before, tail, hts, hfails⟩ := failsAt_of_read .unary h hdepth hlimit nofun
      exact ⟨before, tail, hts, .andFirst hfails⟩
    · have := read_fewer hq rfl
      obtain ⟨d, hd⟩ := exists_explains .unary hq hdepth hlimit (by simp)
      obtain ⟨us, hus, hfits⟩ := hd.fits
      obtain ⟨before, tail, hrest, hfails⟩ :=
        failsAt_of_read .conjunctionTail h hd.depth_le hlimit nofun
      exact ⟨us ++ before, tail, exists_append hus hrest, .andOthers hfits hfails⟩
  | conjunctionTail =>
    by_cases hand : ∃ span rest, ts = ⟨.and, span⟩ :: rest
    · obtain ⟨span, rest, rfl⟩ := hand
      rw [read_conjunctionTail_and] at h
      rcases bind_eq_error.1 h with h | ⟨q, hq, h⟩
      · obtain ⟨before, tail, rfl, hfails⟩ := failsAt_of_read .unary h hdepth hlimit nofun
        exact ⟨_ :: before, tail, rfl, .andNext hfails⟩
      · have := read_fewer hq rfl
        obtain ⟨d, hd⟩ := exists_explains .unary hq hdepth hlimit (by simp)
        obtain ⟨us, hus, hfits⟩ := hd.fits
        obtain ⟨before, tail, hrest, hfails⟩ :=
          failsAt_of_read .conjunctionTail h hd.depth_le hlimit nofun
        exact ⟨_ :: (us ++ before), tail, congrArg _ (exists_append hus hrest), .andLater hfits hfails⟩
    · rw [read_conjunctionTail_of_ne (head_ne_of_not_cons hand)] at h
      cases h
  | unary =>
    by_cases hnot : ∃ span rest, ts = ⟨.not, span⟩ :: rest
    · obtain ⟨span, rest, rfl⟩ := hnot
      rw [read_unary_not] at h
      split at h
      · next hfull =>
        cases h
        exact ⟨[], ⟨.not, span⟩ :: rest, rfl, .deepNegation rfl hfull⟩
      · next hfull =>
        rw [Nat.not_le] at hfull
        obtain ⟨before, tail, rfl, hfails⟩ :=
          failsAt_of_read .unary (map_eq_error.1 h) (Nat.le_max_right _ _) hfull nofun
        exact ⟨_ :: before, tail, rfl, .negated hfull hfails⟩
    · have hne := head_ne_of_not_cons hnot
      rw [read_unary_of_ne hne] at h
      obtain ⟨before, tail, hts, hfails⟩ := failsAt_of_read .atom h hdepth hlimit fun _ => hne
      exact ⟨before, tail, hts, .plain hfails⟩
  | atom =>
    -- An atom fails at its first token, unless this begins an operand; then it is a group that fails.
    by_cases hother : (headToken final ts).value.startsOperand = false
    · have hhead : ∀ u ∈ ts.head?, u.value.startsOperand = false ∨ u.value = .not := by
        intro u hu
        rw [eq_of_mem_head? rfl u hu]
        exact .inl hother
      rw [read_atom_of_ne hhead] at h
      cases h
      exact ⟨[], ts, rfl, .operand hother⟩
    cases ts with
    | nil => exact absurd rfl hother
    | cons t rest =>
      obtain ⟨value, span⟩ := t
      cases value with
      | identifier name =>
        rw [read_atom_identifier] at h
        cases h
      | literal value =>
        rw [read_atom_literal] at h
        cases h
      | openParen =>
        rw [read_atom_group] at h
        split at h
        · next hfull =>
          cases h
          exact ⟨[], ⟨.openParen, span⟩ :: rest, rfl, .deepGroup rfl hfull⟩
        · next hfull =>
          rw [Nat.not_le] at hfull
          have hlevel : depth + 1 ≤ max deepest (depth + 1) := Nat.le_max_right _ _
          rcases bind_eq_error.1 h with h | ⟨q, hq, h⟩
          · obtain ⟨before, tail, rfl, hfails⟩ := failsAt_of_read .disjunction h hlevel hfull nofun
            exact ⟨_ :: before, tail, rfl, .grouped hfull hfails⟩
          · -- The disjunction inside is read, so the failure is in the place of the closing parenthesis.
            obtain ⟨d, hd⟩ := exists_explains .disjunction hq hlevel hfull (by simp)
            obtain ⟨us, hus, hfits⟩ := hd.fits
            obtain ⟨hclose, rfl⟩ := closeGroup_eq_error_iff.1 h
            exact ⟨_ :: us, q.rest, congrArg _ hus,
              .closing hfull hfits ((endsBefore_iff_headToken final).1 hd.ends) hclose⟩
      -- A negation is left to `.unary`.
      | not => exact absurd rfl (hatom rfl _ rfl)
      | and | or | closeParen | reserved | endOfInput => exact absurd rfl hother
-- A rule calls others on fewer tokens, or one of a lower rank on the same tokens.
termination_by (ts.length, ruleRank r)
decreasing_by
  all_goals subst_vars
  all_goals first
    | exact Prod.Lex.right _ (by decide)
    | exact Prod.Lex.left _ _ ‹_›
    | exact Prod.Lex.left _ _ (by simp only [List.length_cons]; omega)

/-! ### Completeness -/

/-- `.disjunctionTail` fails behind an OR only. -/
theorem FailsAt.exists_or (h : FailsAt t .disjunctionTail depth before e) :
    ∃ span more, before = ⟨.or, span⟩ :: more := by
  cases h <;> exact ⟨_, _, rfl⟩

/-- `.conjunctionTail` fails behind an AND only. -/
theorem FailsAt.exists_and (h : FailsAt t .conjunctionTail depth before e) :
    ∃ span more, before = ⟨.and, span⟩ :: more := by
  cases h <;> exact ⟨_, _, rfl⟩

/-- An `.atom` that fails does not begin with NOT, which `unary` would have taken. -/
theorem FailsAt.head_ne_not (h : FailsAt t .atom depth before e) (ht : headToken final tail = t) :
    ∀ u ∈ (before ++ tail).head?, u.value ≠ .not := by
  intro u hu hnot
  cases h with
  | operand hother =>
    rw [← eq_of_mem_head? ht u hu, hnot] at hother
    cases hother
  | deepGroup hopen hfull =>
    rw [← eq_of_mem_head? ht u hu, hnot] at hopen
    cases hopen
  | grouped | closing =>
    cases Option.some.inj hu
    cases hnot

/-- **Completeness.** If `r` `FailsAt` the token `t`, then `read` fails with the same `e`, whatever comes behind
`t`. -/
theorem read_of_failsAt (h : FailsAt t r depth before e) (ht : headToken final tail = t)
    (hdepth : depth ≤ deepest) :
    ∃ k, read final depth deepest left r (before ++ tail) = .error ⟨e, k⟩ := by
  -- Along the failure, from the outermost rule to the token. `deepest` and `left` depend on the parts that are
  -- read before, so they are generalized.
  induction h generalizing deepest left with
  | orFirst _ ih =>
    obtain ⟨k, hk⟩ := @ih deepest left hdepth
    rw [read_disjunction, hk]
    exact ⟨k, rfl⟩
  | @orOthers depth us before e first hfits hfails ih =>
    -- The first operand is read, since an OR comes behind it.
    obtain ⟨span, more, rfl⟩ := hfails.exists_or
    have hends : Rule.conjunction.EndsBefore ((⟨.or, span⟩ :: more ++ tail).map Spanned.value) := by
      rintro _ ⟨⟩
      rfl
    rw [read_disjunction, List.append_assoc,
      read_eq_of_derivation first hfits.used hends hdepth hfits.within]
    exact ih (Nat.le_trans hdepth (Nat.le_max_left _ _))
  | orNext _ ih =>
    obtain ⟨k, hk⟩ := @ih deepest left hdepth
    rw [List.cons_append, read_disjunctionTail_or, hk]
    exact ⟨k, rfl⟩
  | @orLater depth span us before e next hfits hfails ih =>
    obtain ⟨span', more, rfl⟩ := hfails.exists_or
    have hends : Rule.conjunction.EndsBefore ((⟨.or, span'⟩ :: more ++ tail).map Spanned.value) := by
      rintro _ ⟨⟩
      rfl
    rw [List.cons_append, read_disjunctionTail_or, List.append_assoc,
      read_eq_of_derivation next hfits.used hends hdepth hfits.within]
    exact ih (Nat.le_trans hdepth (Nat.le_max_left _ _))
  | andFirst _ ih =>
    obtain ⟨k, hk⟩ := @ih deepest left hdepth
    rw [read_conjunction, hk]
    exact ⟨k, rfl⟩
  | @andOthers depth us before e first hfits hfails ih =>
    -- A `.unary` ends before anything, so nothing is to be said about what comes behind it.
    rw [read_conjunction, List.append_assoc,
      read_eq_of_derivation first hfits.used (fun _ _ => rfl) hdepth hfits.within]
    exact ih (Nat.le_trans hdepth (Nat.le_max_left _ _))
  | andNext _ ih =>
    obtain ⟨k, hk⟩ := @ih deepest left hdepth
    rw [List.cons_append, read_conjunctionTail_and, hk]
    exact ⟨k, rfl⟩
  | @andLater depth span us before e next hfits hfails ih =>
    rw [List.cons_append, read_conjunctionTail_and, List.append_assoc,
      read_eq_of_derivation next hfits.used (fun _ _ => rfl) hdepth hfits.within]
    exact ih (Nat.le_trans hdepth (Nat.le_max_left _ _))
  -- The depth is within the limit here: `FailsAt` has the failures beyond it in constructors of their own.
  | negated hfull _ ih =>
    obtain ⟨k, hk⟩ := @ih _ left (Nat.le_max_right _ _)
    rw [List.cons_append, read_unary_not, if_neg (Nat.not_le.2 hfull), hk]
    exact ⟨k, rfl⟩
  | deepNegation hnot hfull =>
    obtain ⟨behind, rfl⟩ := exists_eq_cons_of_headToken ht (by rw [hnot]; nofun)
    obtain ⟨value, span⟩ := t
    subst hnot
    rw [List.nil_append, read_unary_not, if_pos hfull]
    exact ⟨_, rfl⟩
  | plain hfails ih =>
    rw [read_unary_of_ne (hfails.head_ne_not ht)]
    exact ih hdepth
  | operand hother =>
    have hhead : ∀ u ∈ tail.head?, u.value.startsOperand = false ∨ u.value = .not := by
      intro u hu
      rw [eq_of_mem_head? ht u hu]
      exact .inl hother
    rw [List.nil_append, read_atom_of_ne hhead, ht]
    exact ⟨_, rfl⟩
  | deepGroup hopen hfull =>
    obtain ⟨behind, rfl⟩ := exists_eq_cons_of_headToken ht (by rw [hopen]; nofun)
    obtain ⟨value, span⟩ := t
    subst hopen
    rw [List.nil_append, read_atom_group, if_pos hfull]
    exact ⟨_, rfl⟩
  | grouped hfull _ ih =>
    obtain ⟨k, hk⟩ := @ih _ left (Nat.le_max_right _ _)
    rw [List.cons_append, read_atom_group, if_neg (Nat.not_le.2 hfull), hk]
    exact ⟨k, rfl⟩
  | @closing depth span us inner hfull hfits hends hclose =>
    -- The disjunction inside the group is read in front of `t`, which does not go on with it.
    have hinner : Rule.disjunction.EndsBefore (tail.map Spanned.value) := by
      rw [endsBefore_iff_headToken final, ht]
      exact hends
    rw [List.cons_append, read_atom_group, if_neg (Nat.not_le.2 hfull),
      read_eq_of_derivation inner hfits.used hinner (Nat.le_max_right _ _) hfits.within]
    subst ht
    exact ⟨_, closeGroup_eq_error_iff.2 ⟨hclose, rfl⟩⟩

/-! ### Completions -/

/-- **Completions.** The tokens `before` a failure begin a derivation, with some `more` behind them, that keeps to
`Limits.parseDepth`. -/
theorem FailsAt.exists_completion (h : FailsAt t r depth before e) (hlimit : depth ≤ Limits.parseDepth) :
    ∃ (d : Derivation r) (more : List Token), d.tokens = before.map Spanned.value ++ more ∧
      depth + d.nesting ≤ Limits.parseDepth := by
  -- In the place of an operand there could be a literal, and whatever is open can be closed then.
  induction h with
  | orFirst _ ih =>
    obtain ⟨d, more, htokens, hwithin⟩ := ih hlimit
    refine ⟨.disjunction d .orNil, more, ?_, ?_⟩
    · rw [Derivation.tokens, htokens, Derivation.tokens, List.append_nil]
    · rw [Derivation.nesting, Derivation.nesting]
      omega
  | @orOthers depth us before e first hfits _ ih =>
    obtain ⟨d, more, htokens, hwithin⟩ := ih hlimit
    have hfirst := hfits.within
    refine ⟨.disjunction first d, more, ?_, ?_⟩
    · rw [Derivation.tokens, htokens, List.map_append, hfits.used, List.append_assoc]
    · rw [Derivation.nesting]
      omega
  | orNext _ ih =>
    obtain ⟨d, more, htokens, hwithin⟩ := ih hlimit
    refine ⟨.orCons d .orNil, more, ?_, ?_⟩
    · rw [Derivation.tokens, htokens, Derivation.tokens, List.append_nil]
      rfl
    · rw [Derivation.nesting, Derivation.nesting]
      omega
  | @orLater depth span us before e next hfits _ ih =>
    obtain ⟨d, more, htokens, hwithin⟩ := ih hlimit
    have hnext := hfits.within
    refine ⟨.orCons next d, more, ?_, ?_⟩
    · rw [Derivation.tokens, htokens, List.map_cons, List.map_append, hfits.used, List.cons_append,
        List.append_assoc]
    · rw [Derivation.nesting]
      omega
  | andFirst _ ih =>
    obtain ⟨d, more, htokens, hwithin⟩ := ih hlimit
    refine ⟨.conjunction d .andNil, more, ?_, ?_⟩
    · rw [Derivation.tokens, htokens, Derivation.tokens, List.append_nil]
    · rw [Derivation.nesting, Derivation.nesting]
      omega
  | @andOthers depth us before e first hfits _ ih =>
    obtain ⟨d, more, htokens, hwithin⟩ := ih hlimit
    have hfirst := hfits.within
    refine ⟨.conjunction first d, more, ?_, ?_⟩
    · rw [Derivation.tokens, htokens, List.map_append, hfits.used, List.append_assoc]
    · rw [Derivation.nesting]
      omega
  | andNext _ ih =>
    obtain ⟨d, more, htokens, hwithin⟩ := ih hlimit
    refine ⟨.andCons d .andNil, more, ?_, ?_⟩
    · rw [Derivation.tokens, htokens, Derivation.tokens, List.append_nil]
      rfl
    · rw [Derivation.nesting, Derivation.nesting]
      omega
  | @andLater depth span us before e next hfits _ ih =>
    obtain ⟨d, more, htokens, hwithin⟩ := ih hlimit
    have hnext := hfits.within
    refine ⟨.andCons next d, more, ?_, ?_⟩
    · rw [Derivation.tokens, htokens, List.map_cons, List.map_append, hfits.used, List.cons_append,
        List.append_assoc]
    · rw [Derivation.nesting]
      omega
  | negated hfull _ ih =>
    obtain ⟨d, more, htokens, hwithin⟩ := ih hfull
    refine ⟨.not d, more, ?_, ?_⟩
    · rw [Derivation.tokens, htokens]
      rfl
    · rw [Derivation.nesting]
      omega
  | deepNegation => exact ⟨.plain (.literal true), [.literal true], rfl, hlimit⟩
  | plain _ ih =>
    obtain ⟨d, more, htokens, hwithin⟩ := ih hlimit
    exact ⟨.plain d, more, htokens, hwithin⟩
  | operand | deepGroup => exact ⟨.literal true, [.literal true], rfl, hlimit⟩
  | grouped hfull _ ih =>
    obtain ⟨d, more, htokens, hwithin⟩ := ih hfull
    refine ⟨.group d, more ++ [.closeParen], ?_, ?_⟩
    · rw [Derivation.tokens, htokens, List.map_cons, List.cons_append, List.append_assoc]
    · rw [Derivation.nesting]
      omega
  -- Here a complete disjunction stands inside the group, so the parenthesis is all that is missing.
  | @closing depth span us inner hfull hfits =>
    have hinner := hfits.within
    refine ⟨.group inner, [.closeParen], ?_, ?_⟩
    · rw [Derivation.tokens, List.map_cons, hfits.used, List.cons_append]
    · rw [Derivation.nesting]
      omega

/-! ### Whole sequences -/

/-- Tokens `before` that begin a derivation do not begin with an end of input. -/
theorem isEnd_headToken_append {d : Derivation r} {more : List Token}
    (htokens : d.tokens = before.map Spanned.value ++ more) (hne : before ≠ []) :
    (headToken final (before ++ tail)).value.isEnd = false := by
  obtain ⟨u, us, rfl⟩ := List.exists_cons_of_ne_nil hne
  have hu : u.value ≠ .endOfInput := by
    apply d.ne_endOfInput_of_mem
    rw [htokens]
    exact List.mem_cons_self
  exact Bool.eq_false_iff.2 (mt isEnd_iff.1 hu)

/-- `parseTokens` fails if there is no first token, if no disjunction is read, or if a token is left behind it
(`afterError`). -/
theorem parseTokens_error_iff (left : Expr) : (parseTokens final ts).result = .error e ↔
    ((headToken final ts).value.isEnd = true ∧ e = .emptyExpression (headToken final ts).span) ∨
    ((headToken final ts).value.isEnd = false ∧
      ((∃ k, read final 0 0 left .disjunction ts = .error ⟨e, k⟩) ∨
        ∃ q, read final 0 0 left .disjunction ts = .ok q ∧ (headToken final q.rest).value.isEnd = false ∧
          e = afterError (headToken final q.rest))) := by
  unfold parseTokens
  simp only [read]
  cases hfirst : (headToken final ts).value.isEnd with
  | true =>
    simp only [if_true, Except.error.injEq, true_and, Bool.true_eq_false, false_and, or_false]
    exact eq_comm
  | false =>
    cases disjunction final 0 0 ts with
    | error stop =>
      obtain ⟨err, k⟩ := stop
      simp [Except.map]
    | ok p =>
      cases hnext : (headToken final p.rest).value.isEnd with
      | true => simp [Except.map, Progress.reading, hnext]
      | false =>
        simp only [Except.map, Progress.reading, hnext, Bool.false_eq_true, if_false, Except.error.injEq,
          false_and, false_or, true_and, reduceCtorEq, exists_false, Except.ok.injEq, exists_eq_left']
        exact eq_comm

/-- If `before` is `RefusedAt` the token `t`, then `parseTokens` fails with the same `e`, whatever comes behind `t`. -/
theorem parseTokens_of_refusedAt (h : RefusedAt t before e) (ht : headToken final tail = t) :
    (parseTokens final (before ++ tail)).result = .error e := by
  rw [parseTokens_error_iff default]
  cases h with
  | empty hend =>
    rw [List.nil_append, ht]
    exact .inl ⟨hend, rfl⟩
  | inside hfirst hfails =>
    obtain ⟨d, more, htokens, -⟩ := hfails.exists_completion (Nat.zero_le _)
    refine .inr ⟨?_, .inl (read_of_failsAt hfails ht (Nat.le_refl 0))⟩
    -- The first token is no end of input: either it is `t`, or the first of a derivation.
    by_cases hbefore : before = []
    · rw [hbefore, List.nil_append, ht]
      exact hfirst hbefore
    · exact isEnd_headToken_append htokens hbefore
  | @after _ whole hfits hends hend =>
    have hbehind : Rule.disjunction.EndsBefore (tail.map Spanned.value) := by
      rw [endsBefore_iff_headToken final, ht]
      exact hends
    have hbefore : before ≠ [] := by
      rintro rfl
      exact whole.tokens_ne_nil rfl hfits.used.symm
    refine .inr ⟨isEnd_headToken_append (hfits.used.symm.trans (List.append_nil _).symm) hbefore, .inr ?_⟩
    refine ⟨_, read_eq_of_derivation whole hfits.used hbehind (Nat.le_refl 0) hfits.within, ?_⟩
    subst ht
    exact ⟨hend, rfl⟩

/-- If `parseTokens` fails, some front of the tokens is `RefusedAt` the token behind it. -/
theorem refusedAt_of_parseTokens (h : (parseTokens final ts).result = .error e) :
    ∃ before tail, ts = before ++ tail ∧ RefusedAt (headToken final tail) before e := by
  rcases (parseTokens_error_iff default).1 h with ⟨hend, rfl⟩ | ⟨hfirst, ⟨k, hread⟩ | ⟨q, hread, hend, rfl⟩⟩
  · exact ⟨[], ts, rfl, .empty hend⟩
  · obtain ⟨before, tail, rfl, hfails⟩ :=
      failsAt_of_read .disjunction hread (Nat.le_refl 0) (Nat.zero_le _) nofun
    refine ⟨before, tail, rfl, .inside (fun hbefore => ?_) hfails⟩
    rw [hbefore] at hfirst
    exact hfirst
  · obtain ⟨d, hd⟩ := exists_explains .disjunction hread (Nat.le_refl 0) (Nat.zero_le _) (by simp)
    obtain ⟨us, hus, hfits⟩ := hd.fits
    exact ⟨us, q.rest, hus, .after hfits ((endsBefore_iff_headToken final).1 hd.ends) hend⟩

/-- **Failures.** `parse s` fails with `e` exactly if the body of `s` is `RefusedAt` one of its tokens, or at its
end, with `e`. -/
theorem parse_eq_error_iff {s : TokenStream} : (parse s).value = .error e ↔
    ∃ before tail, s.body = before ++ tail ∧ RefusedAt (headToken s.final tail) before e := by
  constructor
  · exact refusedAt_of_parseTokens
  · rintro ⟨before, tail, hbody, hrefused⟩
    show (parseTokens s.final s.body).result = _
    rw [hbody]
    exact parseTokens_of_refusedAt hrefused rfl

/-- No rule fails with `.emptyExpression`. -/
theorem FailsAt.ne_emptyExpression (h : FailsAt t r depth before e) (span : Span) : e ≠ .emptyExpression span := by
  induction h with
  | orFirst _ ih | orOthers _ _ ih | orNext _ ih | orLater _ _ ih | andFirst _ ih | andOthers _ _ ih | andNext _ ih
  | andLater _ _ ih | negated _ _ ih | plain _ ih | grouped _ _ ih => exact ih
  | deepNegation | deepGroup => nofun
  | operand =>
    unfold operandError
    split
    · split <;> nofun
    · nofun
  | closing =>
    unfold closingError
    split <;> nofun

/-- `parse` fails with `.emptyExpression` only if the first token of the stream is its end. -/
theorem isEnd_of_emptyExpression {s : TokenStream} {span : Span}
    (h : (parse s).value = .error (.emptyExpression span)) : (headToken s.final s.body).value.isEnd = true := by
  obtain ⟨before, tail, hbody, hrefused⟩ := parse_eq_error_iff.1 h
  generalize he : ParseError.emptyExpression span = e at hrefused
  cases hrefused with
  | empty hend =>
    rw [hbody]
    exact hend
  | inside _ hfails => exact absurd he.symm (hfails.ne_emptyExpression span)
  | after =>
    unfold afterError at he
    split at he <;> cases he

/-! ### Blame -/

/-- `e` is about the token `t`: it has its span, and its `display` where it says what was found. -/
inductive Blames : ParseError → Spanned Token → Prop where
  | unexpected {expected : String} {t : Spanned Token} :
      Blames (.unexpectedToken expected t.value.display t.span) t
  | unclosed {span : Span} :
      Blames (.unclosedParenthesis span Token.endOfInput.display) ⟨.openParen, span⟩
  | unopened {span : Span} : Blames (.unopenedParenthesis span) ⟨.closeParen, span⟩
  | trailing {t : Spanned Token} (h : t.value ≠ .endOfInput) :
      Blames (.trailingInput t.value.display t.span) t
  | empty {span : Span} : Blames (.emptyExpression span) ⟨.endOfInput, span⟩
  | negation {span : Span} : Blames (.tooDeep span) ⟨.not, span⟩
  | opener {span : Span} : Blames (.tooDeep span) ⟨.openParen, span⟩

theorem Blames.span_eq {e : ParseError} {t : Spanned Token} (h : Blames e t) : e.span = t.span := by
  cases h <;> rfl

/-- `operandError` blames the token in the place of an operand. -/
theorem blames_operandError (depth : Nat) (t : Spanned Token) : Blames (operandError depth t) t := by
  obtain ⟨value, span⟩ := t
  unfold operandError
  cases value with
  | closeParen =>
    show Blames (if depth = 0 then _ else _) _
    split
    · exact .unopened
    · exact .unexpected
  | identifier | and | or | not | openParen | literal | reserved | endOfInput => exact .unexpected

/-- `afterError` blames the token behind a complete expression. -/
theorem blames_afterError {t : Spanned Token} (h : t.value.isEnd = false) : Blames (afterError t) t := by
  obtain ⟨value, span⟩ := t
  unfold afterError
  cases value with
  | closeParen => exact .unopened
  | endOfInput => cases h
  | identifier | and | or | not | openParen | literal | reserved => exact .trailing nofun

/-- `before` ends inside a group, opened at `opener`, that only has to be closed. -/
def OpensGroup (opener : Span) (before : List (Spanned Token)) : Prop :=
  ∃ front inside, before = front ++ ⟨.openParen, opener⟩ :: inside ∧
    ∃ inner : Derivation .disjunction, inside.map Spanned.value = inner.tokens

/-- `OpensGroup` does not depend on the tokens `us` in front. -/
theorem OpensGroup.append {opener : Span} (h : OpensGroup opener before) (us : List (Spanned Token)) :
    OpensGroup opener (us ++ before) := by
  obtain ⟨front, inside, rfl, hinner⟩ := h
  exact ⟨us ++ front, inside, (List.append_assoc us front _).symm, hinner⟩

/-- **Blame.** If a rule `FailsAt t`, then `e` blames `t`, or `t` is the end of input and `e` is
`.unclosedParenthesis` for a group that only has to be closed (`OpensGroup`). -/
theorem FailsAt.blames_or (h : FailsAt t r depth before e) : Blames e t ∨
    t.value = .endOfInput ∧ ∃ opener, e = .unclosedParenthesis opener t.value.display ∧
      OpensGroup opener before := by
  -- What is read before a part that fails stands in front of the group.
  have hfront {before : List (Spanned Token)} {e : ParseError} (us : List (Spanned Token)) :
      (Blames e t ∨ t.value = .endOfInput ∧
        ∃ opener, e = .unclosedParenthesis opener t.value.display ∧ OpensGroup opener before) →
      Blames e t ∨ t.value = .endOfInput ∧
        ∃ opener, e = .unclosedParenthesis opener t.value.display ∧ OpensGroup opener (us ++ before) := by
    rintro (hblames | ⟨hend, opener, he, hopens⟩)
    · exact .inl hblames
    · exact .inr ⟨hend, opener, he, hopens.append us⟩
  induction h with
  | orFirst _ ih | andFirst _ ih | plain _ ih => exact ih
  | @orOthers _ us _ _ _ _ _ ih | @andOthers _ us _ _ _ _ _ ih => exact hfront us ih
  | @orNext _ span _ _ _ ih => exact hfront [⟨.or, span⟩] ih
  | @andNext _ span _ _ _ ih => exact hfront [⟨.and, span⟩] ih
  | @orLater _ span us _ _ _ _ _ ih => exact hfront (⟨.or, span⟩ :: us) ih
  | @andLater _ span us _ _ _ _ _ ih => exact hfront (⟨.and, span⟩ :: us) ih
  | @negated _ span _ _ _ _ ih => exact hfront [⟨.not, span⟩] ih
  | @grouped _ span _ _ _ _ ih => exact hfront [⟨.openParen, span⟩] ih
  | deepNegation hnot =>
    obtain ⟨value, span⟩ := t
    subst hnot
    exact .inl .negation
  | deepGroup hopen =>
    obtain ⟨value, span⟩ := t
    subst hopen
    exact .inl .opener
  | operand => exact .inl (blames_operandError _ t)
  | @closing _ span us inner _ hfits _ _ =>
    -- Only here is the group blamed, and only at the end of input: any other token is unexpected itself.
    by_cases hend : t.value = .endOfInput
    · refine .inr ⟨hend, span, ?_, [], us, rfl, inner, hfits.used⟩
      rw [closingError, hend]
    · left
      obtain ⟨value, span'⟩ := t
      unfold closingError
      cases value with
      | endOfInput => exact absurd rfl hend
      | identifier | and | or | not | openParen | closeParen | literal | reserved => exact .unexpected

/-- The same for a sequence that is `RefusedAt t`. -/
theorem RefusedAt.blames_or (h : RefusedAt t before e) : Blames e t ∨
    t.value = .endOfInput ∧ ∃ opener, e = .unclosedParenthesis opener t.value.display ∧
      OpensGroup opener before := by
  cases h with
  | empty hend =>
    obtain ⟨value, span⟩ := t
    obtain rfl : value = .endOfInput := isEnd_iff.1 hend
    exact .inl .empty
  | inside _ hfails => exact hfails.blames_or
  | after _ _ hend => exact .inl (blames_afterError hend)

/-- `headToken final ts` is one of `ts`, or the end of input. -/
theorem headToken_mem_or (final : Span) (ts : List (Spanned Token)) :
    headToken final ts ∈ ts ∨ headToken final ts = ⟨.endOfInput, final⟩ := by
  cases ts with
  | nil => exact .inr rfl
  | cons t rest => exact .inl List.mem_cons_self

/-- **Streams.** If `parse s` fails with `e`, then `e` blames a token of `s`, possibly its end of input. -/
theorem exists_blames_of_parse {s : TokenStream} {e : ParseError} (h : (parse s).value = .error e) :
    ∃ t, (t ∈ s.body ∨ t = s.last) ∧ Blames e t := by
  obtain ⟨before, tail, hbody, hrefused⟩ := parse_eq_error_iff.1 h
  rw [hbody]
  rcases hrefused.blames_or with hblames | ⟨hend, opener, rfl, front, inside, rfl, -⟩
  · exact ⟨_, (headToken_mem_or s.final tail).imp_left (List.mem_append_right before), hblames⟩
  · refine ⟨⟨.openParen, opener⟩, .inl (by simp), ?_⟩
    rw [hend]
    exact .unclosed

end BoolCalc.Syntax
