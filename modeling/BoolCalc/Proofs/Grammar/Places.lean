import BoolCalc.Proofs.Grammar.Failures

namespace BoolCalc

/-!
# Errors without places

* `ParseError.unplaced`, `Token.unplaced`, `TokenStream.unplaced` : errors and tokens that have lost their places;
* `Syntax.FailsAt.unplaced`, `Syntax.RefusedAt.unplaced` : a failure remains without places;
* `Syntax.exists_derivation_of_stream` : a stream that is read has a derivation of all its tokens;
* `Syntax.parse_unplaced` : **places**, what a stream is read as depends on the values of its tokens only, and so
  do its errors except for their spans.
-/

/-- `e` without its span. -/
def ParseError.unplaced : ParseError → ParseError
  | .unexpectedToken expected found _ => .unexpectedToken expected found default
  | .unclosedParenthesis _ found => .unclosedParenthesis default found
  | .unopenedParenthesis _ => .unopenedParenthesis default
  | .trailingInput found _ => .trailingInput found default
  | .emptyExpression _ => .emptyExpression default
  | .tooDeep _ => .tooDeep default

/-- `t` with a span that says nothing. -/
def Token.unplaced (t : Token) : Spanned Token := ⟨t, default⟩

/-- The stream of the tokens `ts`, with spans that say nothing. -/
def TokenStream.unplaced (ts : List Token) : TokenStream where
  body := ts.map Token.unplaced
  final := default

theorem Token.map_value_unplaced (ts : List Token) : (ts.map Token.unplaced).map Spanned.value = ts := by
  rw [List.map_map]
  exact List.map_id ts

namespace Syntax

open Grammar

variable {t : Spanned Token} {e : ParseError} {r : Rule} {depth : Nat} {us before : List (Spanned Token)}

/-! ### Failures -/

/-- `operandError` depends on the value of `t`, and takes its span from there. -/
theorem unplaced_operandError (depth : Nat) (t : Spanned Token) :
    (operandError depth t).unplaced = operandError depth t.value.unplaced := by
  obtain ⟨value, span⟩ := t
  unfold operandError
  cases value with
  | closeParen =>
    show (if depth = 0 then _ else _ : ParseError).unplaced = if depth = 0 then _ else _
    split <;> rfl
  | identifier | and | or | not | openParen | literal | reserved | endOfInput => rfl

theorem unplaced_closingError (opener : Span) (t : Spanned Token) :
    (closingError opener t).unplaced = closingError default t.value.unplaced := by
  obtain ⟨value, span⟩ := t
  cases value <;> rfl

theorem unplaced_afterError (t : Spanned Token) : (afterError t).unplaced = afterError t.value.unplaced := by
  obtain ⟨value, span⟩ := t
  cases value <;> rfl

/-- `Fits` does not depend on spans. -/
theorem Fits.unplaced {d : Derivation r} (h : Fits depth us d) :
    Fits depth ((us.map Spanned.value).map Token.unplaced) d :=
  ⟨(Token.map_value_unplaced _).trans h.used, h.within⟩

/-- **Failures of a rule.** If `r` `FailsAt t` behind `before`, it does so without their spans, with `e.unplaced`. -/
theorem FailsAt.unplaced (h : FailsAt t r depth before e) :
    FailsAt t.value.unplaced r depth ((before.map Spanned.value).map Token.unplaced) e.unplaced := by
  -- No way to fail looks at a place; only the errors, and what was read before, have places in them.
  induction h with
  | orFirst _ ih => exact .orFirst ih
  | orOthers hfits _ ih =>
    rw [List.map_append, List.map_append]
    exact .orOthers hfits.unplaced ih
  | orNext _ ih => exact .orNext ih
  | orLater hfits _ ih =>
    rw [List.map_cons, List.map_append, List.map_cons, List.map_append]
    exact .orLater hfits.unplaced ih
  | andFirst _ ih => exact .andFirst ih
  | andOthers hfits _ ih =>
    rw [List.map_append, List.map_append]
    exact .andOthers hfits.unplaced ih
  | andNext _ ih => exact .andNext ih
  | andLater hfits _ ih =>
    rw [List.map_cons, List.map_append, List.map_cons, List.map_append]
    exact .andLater hfits.unplaced ih
  | negated hfull _ ih => exact .negated hfull ih
  | deepNegation hnot hfull => exact .deepNegation hnot hfull
  | plain _ ih => exact .plain ih
  | operand hother =>
    rw [unplaced_operandError]
    exact .operand hother
  | deepGroup hopen hfull => exact .deepGroup hopen hfull
  | grouped hfull _ ih => exact .grouped hfull ih
  | closing hfull hfits hends hclose =>
    rw [unplaced_closingError]
    exact .closing hfull hfits.unplaced hends hclose

/-- **Failures of a sequence.** The same for `RefusedAt`. -/
theorem RefusedAt.unplaced (h : RefusedAt t before e) :
    RefusedAt t.value.unplaced ((before.map Spanned.value).map Token.unplaced) e.unplaced := by
  cases h with
  | empty hend => exact .empty hend
  | inside hfirst hfails =>
    refine .inside (fun hbefore => hfirst ?_) hfails.unplaced
    rwa [List.map_map, List.map_eq_nil_iff] at hbefore
  | after hfits hends hend =>
    rw [unplaced_afterError]
    exact .after hfits.unplaced hends hend

/-! ### Streams -/

/-- If `parse s` is a tree, and `s` has no `.endOfInput` before its last token, all its tokens have a derivation
within the limit. -/
theorem exists_derivation_of_stream {s : TokenStream} {tree : Expr}
    (hs : ∀ t ∈ s.body, t.value ≠ .endOfInput) (h : (parse s).value = .ok tree) :
    ∃ d : Derivation .disjunction, d.tokens = s.body.map Spanned.value ∧ d.value = tree ∧
      d.nesting ≤ Limits.parseDepth := by
  obtain ⟨d, us, rest, hbody, hused, hend, hvalue, hlimit, -⟩ := exists_derivation_of_parse h
  have hrest : rest = [] := (headToken_isEnd_iff fun t ht =>
    hs t (hbody ▸ List.mem_append_right us ht)).1 hend
  rw [hrest, List.append_nil] at hbody
  exact ⟨d, by rw [hbody, hused], hvalue, hlimit⟩

/-- The tokens of a derivation `d` within the limit are read, wherever they stand. -/
theorem parse_unplaced_of_derivation (d : Derivation .disjunction) (hlimit : d.nesting ≤ Limits.parseDepth) :
    (parse (.unplaced d.tokens)).value = .ok d.value := by
  have hvalues : (TokenStream.unplaced d.tokens).body.map Spanned.value = d.tokens :=
    Token.map_value_unplaced d.tokens
  have hs : ∀ t ∈ (TokenStream.unplaced d.tokens).body, t.value ≠ .endOfInput := fun t ht =>
    d.ne_endOfInput_of_mem (hvalues ▸ List.mem_map_of_mem ht)
  exact (parse_of_derivation hs hvalues.symm hlimit).1

/-- **Places.** Without an `.endOfInput` before its last token, a stream `s` is read as its tokens are without their
spans: the tree is the same, or the errors are the same up to `unplaced`. -/
theorem parse_unplaced {s : TokenStream} (hs : ∀ t ∈ s.body, t.value ≠ .endOfInput) :
    (parse s).value.mapError ParseError.unplaced = (parse (.unplaced (s.body.map Spanned.value))).value := by
  cases h : (parse s).value with
  | ok tree =>
    obtain ⟨d, htokens, rfl, hlimit⟩ := exists_derivation_of_stream hs h
    rw [← htokens, parse_unplaced_of_derivation d hlimit]
    rfl
  | error e =>
    obtain ⟨before, tail, hbody, hrefused⟩ := parse_eq_error_iff.1 h
    -- The token at which the stream is refused is still the one at the front.
    have hfront : headToken default ((tail.map Spanned.value).map Token.unplaced) =
        (headToken s.final tail).value.unplaced := by
      cases tail <;> rfl
    have hunplaced := hrefused.unplaced
    rw [← hfront] at hunplaced
    refine (parse_eq_error_iff.2 ⟨_, _, ?_, hunplaced⟩).symm
    rw [TokenStream.unplaced, hbody, List.map_append, List.map_append]

end Syntax

end BoolCalc
