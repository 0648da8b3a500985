import BoolCalc.Proofs.Grammar.EarliestError

namespace BoolCalc.Syntax

open Grammar

/-!
# Closing parentheses that are out of place

* `Pending` : tokens behind which a parenthesis is open or a negation has no operand;
* `Level` : the depth at the end of tokens, against the depth they begin at;
* `FailsAt.exists_level` : a rule that fails at a closing parenthesis has reached the level of this place;
* `parse_strayParenthesis` : **closing parentheses**, the failure is an unmatched parenthesis where nothing is
  pending, and an unexpected token elsewhere;
* `not_unopened_iff_closed` : behind a bare negation it is an unexpected token, although no parenthesis is open.

The parser tells the two failures apart by its depth, and this counts negations, too.
-/

/-- A parenthesis is open behind `ts`, or `ts` ends with a NOT that has no operand. -/
def Pending (ts : List Token) : Prop :=
  ts.count .closeParen < ts.count .openParen ∨ ts.getLast? = some .not

namespace Pending

variable {xs ys : List Token} {t : Token}

/-- `Balanced` tokens `xs` in front do not change what is pending. -/
theorem append_iff (hxs : Balanced xs) (hys : ys ≠ []) : Pending (xs ++ ys) ↔ Pending ys := by
  have hlast : (xs ++ ys).getLast? = ys.getLast? := by
    rw [List.getLast?_append, Option.or_of_isSome (List.getLast?_isSome.2 hys)]
  have htotal := hxs.total
  unfold Pending
  rw [List.count_append, List.count_append, hlast]
  refine or_congr ?_ Iff.rfl
  omega

/-- A token `t` in front that is neither a parenthesis nor NOT does not change what is `Pending`. -/
theorem cons_iff (hopen : t ≠ .openParen) (hclose : t ≠ .closeParen) (hnot : t ≠ .not) :
    Pending (t :: ys) ↔ Pending ys := by
  unfold Pending
  rw [List.count_cons_of_ne hopen, List.count_cons_of_ne hclose]
  cases ys with
  | nil => simp [hnot]
  | cons u ys => rw [List.getLast?_cons_cons]

end Pending

/-- The depth is `level` at the end of `ts`, which begins at `depth` and never closes more than it opens. -/
structure Level (depth level : Nat) (ts : List Token) : Prop where
  le : depth ≤ level
  count_le : ts.count .closeParen ≤ ts.count .openParen
  /-- `level` is above `depth` exactly if something is `Pending`. -/
  lt_iff : depth < level ↔ Pending ts

namespace Level

variable {depth level : Nat} {xs ys : List Token} {t : Token}

theorem nil : Level depth depth [] := ⟨Nat.le_refl _, Nat.le_refl _, by simp [Pending]⟩

theorem append (h : Level depth level ys) (hxs : Balanced xs) (hys : ys ≠ []) :
    Level depth level (xs ++ ys) := by
  have hcount := h.count_le
  have htotal := hxs.total
  refine ⟨h.le, ?_, h.lt_iff.trans (Pending.append_iff hxs hys).symm⟩
  rw [List.count_append, List.count_append]
  omega

theorem cons (h : Level depth level ys) (hopen : t ≠ .openParen) (hclose : t ≠ .closeParen)
    (hnot : t ≠ .not) : Level depth level (t :: ys) := by
  refine ⟨h.le, ?_, h.lt_iff.trans (Pending.cons_iff hopen hclose hnot).symm⟩
  rw [List.count_cons_of_ne hopen, List.count_cons_of_ne hclose]
  exact h.count_le

/-- Behind a NOT whose operand begins with `ys`, the level is below that of the NOT. -/
theorem negated (h : Level (depth + 1) level ys) (hbare : level = depth + 1 → ys = []) :
    Level depth level (.not :: ys) := by
  have hle := h.le
  have hpending : Pending (.not :: ys) := by
    by_cases hlevel : level = depth + 1
    · rw [hbare hlevel]
      exact .inr rfl
    · rcases h.lt_iff.1 (by omega) with hcount | hlast
      · exact .inl (by rwa [List.count_cons_of_ne (by decide), List.count_cons_of_ne (by decide)])
      · refine .inr ?_
        rw [List.getLast?_cons, hlast]
        rfl
  refine ⟨by omega, ?_, iff_of_true (by omega) hpending⟩
  rw [List.count_cons_of_ne (by decide), List.count_cons_of_ne (by decide)]
  exact h.count_le

/-- Behind a `(` with `ys` inside, something is `Pending`. -/
theorem grouped (h : Level (depth + 1) level ys) : Level depth level (.openParen :: ys) := by
  have hle := h.le
  have hcount := h.count_le
  have hclosing : (Token.openParen :: ys).count .closeParen = ys.count .closeParen :=
    List.count_cons_of_ne (by decide)
  have hopening : (Token.openParen :: ys).count .openParen = ys.count .openParen + 1 :=
    List.count_cons_self
  refine ⟨by omega, by omega, iff_of_true (by omega) (.inl (by omega))⟩

end Level

variable {t : Spanned Token} {e : ParseError} {r : Rule} {depth : Nat} {before : List (Spanned Token)}

/-- **Levels.** A rule that `FailsAt` a `)` takes it for an operand: `e` is `operandError level t` for the `level`
of `before`. In a `unary` or an `atom` that begins at this level, nothing was read. -/
theorem FailsAt.exists_level (h : FailsAt t r depth before e) (hclose : t.value = .closeParen) :
    ∃ level, e = operandError level t ∧ Level depth level (before.map Spanned.value) ∧
      (r = .unary ∨ r = .atom → level = depth → before = []) := by
  -- Induction on the failure. What is read in front of it is balanced, and adds nothing to the level.
  induction h with
  | orFirst _ ih | andFirst _ ih =>
    obtain ⟨level, he, hlevel, -⟩ := ih
    exact ⟨level, he, hlevel, by simp⟩
  | plain _ ih =>
    obtain ⟨level, he, hlevel, hbare⟩ := ih
    exact ⟨level, he, hlevel, fun _ => hbare (.inr rfl)⟩
  | orOthers hfits hfails ih =>
    obtain ⟨level, he, hlevel, -⟩ := ih
    -- The failure is behind an OR, so there are tokens behind the balanced ones; these decide what is pending.
    obtain ⟨span, more, rfl⟩ := hfails.exists_or
    refine ⟨level, he, ?_, by simp⟩
    rw [List.map_append, hfits.used]
    exact hlevel.append (Derivation.balanced _) (List.cons_ne_nil _ _)
  | andOthers hfits hfails ih =>
    obtain ⟨level, he, hlevel, -⟩ := ih
    obtain ⟨span, more, rfl⟩ := hfails.exists_and
    refine ⟨level, he, ?_, by simp⟩
    rw [List.map_append, hfits.used]
    exact hlevel.append (Derivation.balanced _) (List.cons_ne_nil _ _)
  | orNext _ ih | andNext _ ih =>
    obtain ⟨level, he, hlevel, -⟩ := ih
    exact ⟨level, he, hlevel.cons nofun nofun nofun, by simp⟩
  | orLater hfits hfails ih =>
    obtain ⟨level, he, hlevel, -⟩ := ih
    obtain ⟨span, more, rfl⟩ := hfails.exists_or
    refine ⟨level, he, ?_, by simp⟩
    rw [List.map_cons, List.map_append, hfits.used]
    exact (hlevel.append (Derivation.balanced _) (List.cons_ne_nil _ _)).cons nofun nofun nofun
  | andLater hfits hfails ih =>
    obtain ⟨level, he, hlevel, -⟩ := ih
    obtain ⟨span, more, rfl⟩ := hfails.exists_and
    refine ⟨level, he, ?_, by simp⟩
    rw [List.map_cons, List.map_append, hfits.used]
    exact (hlevel.append (Derivation.balanced _) (List.cons_ne_nil _ _)).cons nofun nofun nofun
  | negated _ _ ih =>
    obtain ⟨level, he, hlevel, hbare⟩ := ih
    -- If the operand of NOT has not begun, NOT is the last token, and pending for this reason.
    have hbare := hbare (.inl rfl)
    have hle := hlevel.le
    refine ⟨level, he, hlevel.negated fun heq => ?_, fun _ heq => by omega⟩
    rw [hbare heq]
    rfl
  | grouped _ _ ih =>
    obtain ⟨level, he, hlevel, -⟩ := ih
    have hle := hlevel.le
    exact ⟨level, he, hlevel.grouped, fun _ heq => by omega⟩
  | operand => exact ⟨_, rfl, .nil, fun _ _ => rfl⟩
  -- At a closing parenthesis no rule fails for the depth, nor for want of one.
  | deepNegation hnot =>
    rw [hclose] at hnot
    cases hnot
  | deepGroup hopen =>
    rw [hclose] at hopen
    cases hopen
  | closing _ _ _ hother => exact absurd hclose hother

/-- What is said about a `)` at which a sequence is refused. -/
theorem RefusedAt.eq_of_closeParen {span : Span} (h : RefusedAt ⟨.closeParen, span⟩ before e) :
    e = if (before.map Spanned.value).count .openParen = (before.map Spanned.value).count .closeParen ∧
        (before.map Spanned.value).getLast? ≠ some .not then .unopenedParenthesis span
      else .unexpectedToken ParseError.operandWords Token.closeParen.display span := by
  cases h with
  | empty hend => cases hend
  | inside _ hfails =>
    obtain ⟨level, rfl, hlevel, -⟩ := hfails.exists_level rfl
    have hcount := hlevel.count_le
    show (if level = 0 then _ else _) = _
    -- At level 0 nothing is pending. With no more closing than opening ones, the parentheses are then balanced.
    by_cases hzero : level = 0
    · have hpending : ¬Pending (before.map Spanned.value) := by
        rw [← hlevel.lt_iff]
        omega
      obtain ⟨hclosed, hlast⟩ := not_or.1 hpending
      rw [if_pos hzero, if_pos ⟨by omega, hlast⟩]
    · rw [if_neg hzero, if_neg]
      rintro ⟨htotal, hlast⟩
      rcases hlevel.lt_iff.1 (Nat.pos_of_ne_zero hzero) with hopen | hnot
      · omega
      · exact hlast hnot
  -- Behind a complete expression the tokens are those of a derivation.
  | @after _ whole hfits =>
    rw [hfits.used, if_pos ⟨whole.balanced.total, whole.getLast?_tokens_ne⟩]
    rfl

/-- **Closing parentheses.** Let a `)` be the first token of `s` that no continuation can save (`Hopeless`). Then
`parse s` fails there:
* with `.unopenedParenthesis` if the tokens `before` it close every parenthesis that they open and do not end with
  NOT;
* with `.unexpectedToken` otherwise. -/
theorem parse_strayParenthesis (s : TokenStream) (hs : ∀ t ∈ s.body, t.value ≠ .endOfInput)
    {before behind : List (Spanned Token)} {span : Span}
    (hbody : s.body = before ++ ⟨.closeParen, span⟩ :: behind)
    (hstray : Hopeless (before.map Spanned.value) .closeParen) :
    (parse s).value = .error
      (if (before.map Spanned.value).count .openParen = (before.map Spanned.value).count .closeParen ∧
          (before.map Spanned.value).getLast? ≠ some .not then .unopenedParenthesis span
        else .unexpectedToken ParseError.operandWords Token.closeParen.display span) := by
  cases hparse : (parse s).value with
  | ok e =>
    -- The whole stream would continue the tokens up to the parenthesis.
    have haccepted : Accepted (s.body.map Spanned.value) :=
      ⟨List.forall_mem_map.2 hs, s, e, rfl, hparse⟩
    rw [hbody, List.map_append, List.map_cons] at haccepted
    exact absurd haccepted.viable hstray.not_viable
  | error e =>
    obtain ⟨before', tail, hbody', hrefused⟩ := parse_eq_error_iff.1 hparse
    -- There is one place only where the stream can fail.
    obtain ⟨us, htokens⟩ := exists_tokens_eq hbody
    obtain ⟨us', htokens'⟩ := exists_tokens_eq hbody'
    have hplaces := congrArg (List.map Spanned.value) (htokens.symm.trans htokens')
    rw [List.map_append, List.map_append] at hplaces
    have hvalues := congrArg List.length (hstray.eq_of_append_eq hrefused.hopeless hplaces)
    rw [List.length_map, List.length_map] at hvalues
    obtain ⟨rfl, rfl⟩ := List.append_inj (hbody.symm.trans hbody') hvalues
    exact congrArg Except.error hrefused.eq_of_closeParen

/-- The tokens of `a AND (b)) OR c`. -/
def secondClosing : TokenStream :=
  inRow [.identifier "a", .and, .openParen, .identifier "b", .closeParen, .closeParen, .or, .identifier "c"]

/-- The derivation of `a AND (b)`. -/
def closedGroup : Derivation .disjunction :=
  .disjunction (.conjunction (.plain (.identifier "a")) (.andCons (.plain (.group (.disjunction
    (.conjunction (.plain (.identifier "b")) .andNil) .orNil))) .andNil)) .orNil

/-- The second `)` of `a AND (b)) OR c` was never opened. -/
theorem parse_secondClosing : (∀ t ∈ secondClosing.body, t.value ≠ .endOfInput) ∧
    secondClosing.body = secondClosing.body.take 5 ++
      ⟨.closeParen, .point ⟨5, 1, 6⟩⟩ :: secondClosing.body.drop 6 ∧
    Hopeless ((secondClosing.body.take 5).map Spanned.value) .closeParen ∧
    (parse secondClosing).value = .error (.unopenedParenthesis (.point ⟨5, 1, 6⟩)) := by
  have hs : ∀ t ∈ secondClosing.body, t.value ≠ .endOfInput := by decide
  have hbody : secondClosing.body = secondClosing.body.take 5 ++
      ⟨.closeParen, .point ⟨5, 1, 6⟩⟩ :: secondClosing.body.drop 6 := rfl
  have hfits : Fits 0 (secondClosing.body.take 5) closedGroup := ⟨rfl, by decide⟩
  have hrefused : RefusedAt ⟨.closeParen, .point ⟨5, 1, 6⟩⟩ (secondClosing.body.take 5) _ :=
    .after hfits rfl rfl
  have hparse := parse_strayParenthesis secondClosing hs hbody hrefused.hopeless
  rw [if_pos (by decide)] at hparse
  exact ⟨hs, hbody, hrefused.hopeless, hparse⟩

/-- The tokens of `NOT ) b`. -/
def negatedClosing : TokenStream := inRow [.not, .closeParen, .identifier "b"]

/-- **A bare negation.** For `NOT ) b` the `)` is not `.unopenedParenthesis`, although no parenthesis is open before
it, so the balance of the parentheses alone does not decide. -/
theorem not_unopened_iff_closed : ¬∀ s : TokenStream, (∀ t ∈ s.body, t.value ≠ .endOfInput) →
    ∀ (before : List (Spanned Token)) (span : Span) (behind : List (Spanned Token)) (e : ParseError),
      s.body = before ++ ⟨.closeParen, span⟩ :: behind →
      Hopeless (before.map Spanned.value) .closeParen → (parse s).value = .error e →
        (e = .unopenedParenthesis span ↔ (before.map Spanned.value).count .openParen =
          (before.map Spanned.value).count .closeParen) := by
  intro hiff
  have hfails : FailsAt ⟨.closeParen, .point ⟨1, 1, 2⟩⟩ .disjunction 0 (negatedClosing.body.take 1)
      (.unexpectedToken ParseError.operandWords "')'" (.point ⟨1, 1, 2⟩)) :=
    .orFirst (.andFirst (.negated (by decide) (.plain (.operand rfl))))
  have hrefused : RefusedAt ⟨.closeParen, .point ⟨1, 1, 2⟩⟩ (negatedClosing.body.take 1) _ :=
    .inside nofun hfails
  have hparse : (parse negatedClosing).value = _ :=
    parse_eq_error_iff.2 ⟨negatedClosing.body.take 1, negatedClosing.body.drop 1, rfl, hrefused⟩
  have h := hiff negatedClosing (by decide) _ _ (negatedClosing.body.drop 2) _ rfl hrefused.hopeless hparse
  exact ParseError.noConfusion (h.2 rfl)

end BoolCalc.Syntax
