import BoolCalc.Proofs.Grammar.Places

namespace BoolCalc.Syntax

open Grammar

/-!
# Errors are reported as early as possible

* `Accepted`, `Viable` : tokens that are read as a whole, and tokens that begin such a sequence;
* `accepted_iff` : tokens are accepted if they have a derivation within the limit;
* `Hopeless` : the first token that no continuation can save;
* `RefusedAt.hopeless` : a sequence is refused at that token;
* `LastOpen` : the last opening parenthesis that is not closed;
* `parse_eq_error_earliest` : **earliest errors**, an error is about the first token that no continuation can
  save, or else the tokens only have to be continued, and it is about the parenthesis that is open.
-/

/-- `ts`, without any `.endOfInput`, are the tokens of a stream that `parse` reads. -/
def Accepted (ts : List Token) : Prop :=
  (∀ t ∈ ts, t ≠ .endOfInput) ∧
    ∃ (s : TokenStream) (e : Expr), s.body.map Spanned.value = ts ∧ (parse s).value = .ok e

/-- `ts` begins some `Accepted` tokens. -/
def Viable (ts : List Token) : Prop := ∃ more, Accepted (ts ++ more)

/-- `before` is `Viable`, and with `t` behind it no more. If `t` is `.endOfInput`, `before` is not `Accepted`. -/
def Hopeless (before : List Token) (t : Token) : Prop :=
  Viable before ∧ if t = .endOfInput then ¬Accepted before else ¬Viable (before ++ [t])

/-- `opener` is the span of an `(` in `ts` that is not closed behind it (`¬Closes`), and all later ones are. -/
def LastOpen (ts : List (Spanned Token)) (opener : Span) : Prop :=
  ∃ front inside, ts = front ++ ⟨.openParen, opener⟩ :: inside ∧ ¬Closes (inside.map Spanned.value) ∧
    ∀ xs ys, inside.map Spanned.value = xs ++ .openParen :: ys → Closes ys

variable {t : Spanned Token} {e : ParseError} {ts us : List Token}
  {before : List (Spanned Token)}

/-! ### Accepted tokens -/

theorem Accepted.viable (h : Accepted ts) : Viable ts := ⟨[], by rwa [List.append_nil]⟩

/-- `ts` is `Accepted` exactly if it has a derivation with a `nesting` within `Limits.parseDepth`. -/
theorem accepted_iff :
    Accepted ts ↔ ∃ d : Derivation .disjunction, d.tokens = ts ∧ d.nesting ≤ Limits.parseDepth := by
  constructor
  · rintro ⟨hts, s, e, rfl, hparse⟩
    obtain ⟨d, htokens, -, hlimit⟩ :=
      exists_derivation_of_stream (fun u hu => hts _ (List.mem_map_of_mem hu)) hparse
    exact ⟨d, htokens, hlimit⟩
  · rintro ⟨d, rfl, hlimit⟩
    exact ⟨fun u => d.ne_endOfInput_of_mem, .unplaced d.tokens, d.value, Token.map_value_unplaced d.tokens,
      parse_unplaced_of_derivation d hlimit⟩

/-- What is refused at one of its tokens, or at its end, is not `Accepted`. -/
theorem not_accepted_of_refusedAt (final : Span) (tail : List (Spanned Token))
    (h : RefusedAt (headToken final tail) before e) :
    ¬Accepted ((before ++ tail).map Spanned.value) := by
  intro haccepted
  obtain ⟨d, htokens, hlimit⟩ := accepted_iff.1 haccepted
  let s : TokenStream := { body := before ++ tail, final }
  have hs : ∀ u ∈ s.body, u.value ≠ .endOfInput := fun u hu =>
    d.ne_endOfInput_of_mem (htokens ▸ List.mem_map_of_mem hu)
  have herror : (parse s).value = .error e := parse_eq_error_iff.2 ⟨before, tail, rfl, h⟩
  rw [(parse_of_derivation hs htokens hlimit).1] at herror
  cases herror

/-! ### The first token that cannot be saved -/

/-- The tokens `before` a failure are `Viable`: a derivation within the limit begins with them. -/
theorem RefusedAt.viable (h : RefusedAt t before e) : Viable (before.map Spanned.value) := by
  have hcompletion : ∃ (d : Derivation .disjunction) (more : List Token),
      d.tokens = before.map Spanned.value ++ more ∧ d.nesting ≤ Limits.parseDepth := by
    cases h with
    | empty =>
      exact ⟨.disjunction (.conjunction (.plain (.literal true)) .andNil) .orNil, [.literal true], rfl,
        Nat.zero_le _⟩
    | inside _ hfails =>
      obtain ⟨d, more, htokens, hwithin⟩ := hfails.exists_completion (Nat.zero_le _)
      exact ⟨d, more, htokens, Nat.zero_add d.nesting ▸ hwithin⟩
    | @after _ whole hfits =>
      exact ⟨whole, [], by rw [hfits.used, List.append_nil], Nat.zero_add whole.nesting ▸ hfits.within⟩
  obtain ⟨d, more, htokens, hlimit⟩ := hcompletion
  exact ⟨more, accepted_iff.2 ⟨d, htokens, hlimit⟩⟩

/-- **The place of a failure.** The token `t` at which a sequence is refused is `Hopeless` behind `before`. -/
theorem RefusedAt.hopeless (h : RefusedAt t before e) : Hopeless (before.map Spanned.value) t.value := by
  refine ⟨h.viable, ?_⟩
  split
  · next hend =>
    -- Nothing comes behind the tokens.
    obtain ⟨value, span⟩ := t
    subst hend
    have hnot := not_accepted_of_refusedAt span [] h
    rwa [List.append_nil] at hnot
  · rintro ⟨more, hmore⟩
    -- Whatever comes behind the token, the sequence is refused there.
    have hnot := not_accepted_of_refusedAt default (t :: more.map Token.unplaced) h
    rw [List.map_append, List.map_cons, Token.map_value_unplaced, List.append_cons] at hnot
    exact hnot hmore

/-- `Hopeless ts t` leaves no continuation: `ts ++ t :: us` is not `Viable`. -/
theorem Hopeless.not_viable {t : Token} (h : Hopeless ts t) : ¬Viable (ts ++ t :: us) := by
  rintro ⟨more, hmore⟩
  by_cases hend : t = .endOfInput
  · exact hmore.1 t (by simp) hend
  · have hnot := h.2
    rw [if_neg hend] at hnot
    refine hnot ⟨us ++ more, ?_⟩
    rwa [← List.append_assoc, ← List.append_cons]

/-- A sequence has one hopeless token at most, so `ts` and `us` in front of it are equal. -/
theorem Hopeless.eq_of_append_eq {t u : Token} {ts' us' : List Token} (h : Hopeless ts t) (h' : Hopeless us u)
    (heq : ts ++ t :: ts' = us ++ u :: us') : ts = us := by
  rcases List.append_eq_append_iff.1 heq with ⟨more, rfl, hmore⟩ | ⟨more, rfl, hmore⟩
  · cases more with
    | nil => rw [List.append_nil]
    | cons x more =>
      obtain ⟨rfl, -⟩ := List.cons.inj hmore
      exact absurd h'.1 h.not_viable
  · cases more with
    | nil => rw [List.append_nil]
    | cons x more =>
      obtain ⟨rfl, -⟩ := List.cons.inj hmore
      exact absurd h.1 h'.not_viable

/-- `headToken s.final tail`, the first token of what is left, stands behind `before` in `s.tokens`, which have
their end of input. -/
theorem exists_tokens_eq {s : TokenStream} {tail : List (Spanned Token)} (hbody : s.body = before ++ tail) :
    ∃ behind, s.tokens = before ++ headToken s.final tail :: behind := by
  rw [TokenStream.tokens, hbody, List.append_assoc]
  cases tail with
  | nil => exact ⟨[], rfl⟩
  | cons t behind => exact ⟨behind ++ [s.last], rfl⟩

/-- The group in which `before` ends (`OpensGroup`) is the last one that is open. -/
theorem OpensGroup.lastOpen {opener : Span} (h : OpensGroup opener before) : LastOpen before opener := by
  obtain ⟨front, inside, rfl, inner, hinner⟩ := h
  refine ⟨front, inside, rfl, ?_, ?_⟩
  · rw [hinner]
    exact inner.balanced.fronts
  · intro xs ys hsplit
    have hbalanced : Balanced (xs ++ .openParen :: ys) := by
      rw [← hsplit, hinner]
      exact inner.balanced
    exact hbalanced.closes_of_open

/-- **Earliest errors.** Let `parse s` fail with `e`, where `s` has no `.endOfInput` before its last token. Then one
of these is the case.
* `e` is `.unclosedParenthesis opener _`, `opener` is the last parenthesis that is open (`LastOpen`), and the tokens
  of `s` with some more behind them are `Accepted`.
* `e` has the span of a token `t` of `s` that is `Hopeless` behind those `before` it. If `e` is `.tooDeep`, then `t`
  is NOT or `(`. -/
theorem parse_eq_error_earliest (s : TokenStream) (hs : ∀ t ∈ s.body, t.value ≠ .endOfInput)
    (e : ParseError) (h : (parse s).value = .error e) :
    (∃ opener found, e = .unclosedParenthesis opener found ∧ LastOpen s.body opener ∧
      ∃ more, more ≠ [] ∧ Accepted (s.body.map Spanned.value ++ more)) ∨
    ∃ before t behind, s.tokens = before ++ t :: behind ∧ e.span = t.span ∧
      Hopeless (before.map Spanned.value) t.value ∧
      ∀ span, e = .tooDeep span → t.value = .not ∨ t.value = .openParen := by
  obtain ⟨before, tail, hbody, hrefused⟩ := parse_eq_error_iff.1 h
  have hhopeless := hrefused.hopeless
  rcases hrefused.blames_or with hblames | ⟨hend, opener, rfl, hopens⟩
  · right
    obtain ⟨behind, htokens⟩ := exists_tokens_eq hbody
    refine ⟨before, _, behind, htokens, hblames.span_eq, hhopeless, ?_⟩
    rintro span rfl
    generalize headToken s.final tail = t at hblames
    cases hblames with
    | negation => exact .inl rfl
    | opener => exact .inr rfl
  · left
    -- The end of input comes behind the last token only.
    have htail : tail = [] := (headToken_isEnd_iff fun u hu =>
      hs u (hbody ▸ List.mem_append_right before hu)).1 (by rw [hend]; rfl)
    rw [htail, List.append_nil] at hbody
    subst hbody
    obtain ⟨⟨more, hmore⟩, hnot⟩ := hhopeless
    rw [if_pos hend] at hnot
    refine ⟨opener, _, rfl, hopens.lastOpen, more, ?_, hmore⟩
    rintro rfl
    rw [List.append_nil] at hmore
    exact hnot hmore

/-- The tokens `ts` in one line, the `k`-th at the offset `k`. -/
def inRow (ts : List Token) : TokenStream where
  body := ts.mapIdx fun k t => ⟨t, .point ⟨k, 1, k + 1⟩⟩
  final := .point ⟨ts.length, 1, ts.length + 1⟩

/-- The tokens of `(a OR NOT) b`. -/
def bareNegation : TokenStream :=
  inRow [.openParen, .identifier "a", .or, .not, .closeParen, .identifier "b"]

/-- `(a OR NOT) b` cannot be saved behind `(a OR NOT`, and the failure has that place. -/
theorem parse_bareNegation : (∀ t ∈ bareNegation.body, t.value ≠ .endOfInput) ∧
    (parse bareNegation).value =
      .error (.unexpectedToken ParseError.operandWords "')'" (.point ⟨4, 1, 5⟩)) ∧
    ∃ before t behind, bareNegation.tokens = before ++ t :: behind ∧ Span.point ⟨4, 1, 5⟩ = t.span ∧
      Hopeless (before.map Spanned.value) t.value := by
  have hs : ∀ t ∈ bareNegation.body, t.value ≠ .endOfInput := by decide
  have hnegation : FailsAt ⟨.closeParen, .point ⟨4, 1, 5⟩⟩ .conjunction 1 [⟨.not, .point ⟨3, 1, 4⟩⟩]
      (.unexpectedToken ParseError.operandWords "')'" (.point ⟨4, 1, 5⟩)) :=
    .andFirst (.negated (by decide) (.plain (.operand rfl)))
  have ha : Fits 1 [⟨.identifier "a", .point ⟨1, 1, 2⟩⟩]
      (.conjunction (.plain (.identifier "a")) .andNil) :=
    ⟨rfl, by decide⟩
  have hgroup : FailsAt ⟨.closeParen, .point ⟨4, 1, 5⟩⟩ .disjunction 0 (bareNegation.body.take 4)
      (.unexpectedToken ParseError.operandWords "')'" (.point ⟨4, 1, 5⟩)) :=
    .orFirst (.andFirst (.plain (.grouped (by decide) (.orOthers ha (.orNext hnegation)))))
  have h : (parse bareNegation).value = _ :=
    parse_eq_error_iff.2 ⟨bareNegation.body.take 4, bareNegation.body.drop 4, rfl, .inside nofun hgroup⟩
  refine ⟨hs, h, ?_⟩
  rcases parse_eq_error_earliest bareNegation hs _ h with ⟨opener, found, he, -⟩ | ⟨before, t, behind, hat⟩
  · cases he
  · exact ⟨before, t, behind, hat.1, hat.2.1, hat.2.2.1⟩

end BoolCalc.Syntax
