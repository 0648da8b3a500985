import BoolCalc.Proofs.Grammar.Failures

namespace BoolCalc.Syntax

open Grammar

/-!
# Derivations beyond the depth limit

* `exists_failsAt_of_beyond` : the tokens of a derivation that nests beyond the limit are not read, and the
  failure is the depth;
* `parse_tooDeep_of_derivation` : the same for a stream.

The operands that keep to the limit are read. So the first operand that does not keep to it is reached, and
fails.
-/

variable {depth : Nat} {r : Rule} {us : List (Spanned Token)}

/-- **Depth.** If a derivation `d` begins at a `depth` within `Limits.parseDepth` and `depth + d.nesting` is beyond
it, the rule `r` fails with `.tooDeep` at one of the tokens of `d` (`FailsAt`). -/
theorem exists_failsAt_of_beyond (d : Derivation r) (hused : us.map Spanned.value = d.tokens)
    (hbegin : depth ≤ Limits.parseDepth) (hbeyond : Limits.parseDepth < depth + d.nesting) :
    ∃ before t tail, us = before ++ t :: tail ∧ FailsAt t r depth before (.tooDeep t.span) := by
  -- An operand within the limit is passed over, and the failure is in those behind it.
  induction d generalizing depth us with
  | disjunction first others ihf iho =>
    obtain ⟨us₁, us₂, rfl, h₁, h₂⟩ := List.map_eq_append_iff.1 hused
    rw [Derivation.nesting] at hbeyond
    -- `first` has the greater nesting only if it is beyond the limit itself; else `others` must be.
    by_cases hwithin : depth + first.nesting ≤ Limits.parseDepth
    · obtain ⟨before, t, tail, rfl, hfails⟩ := iho h₂ hbegin (by omega)
      exact ⟨us₁ ++ before, t, tail, (List.append_assoc ..).symm, .orOthers ⟨h₁, hwithin⟩ hfails⟩
    · obtain ⟨before, t, tail, rfl, hfails⟩ := ihf h₁ hbegin (Nat.lt_of_not_le hwithin)
      exact ⟨before, t, tail ++ us₂, List.append_assoc .., .orFirst hfails⟩
  -- These nest nothing, and `depth` is within the limit.
  | orNil | andNil | identifier | literal =>
    rw [Derivation.nesting] at hbeyond
    omega
  | orCons next others ihn iho =>
    obtain ⟨⟨value, span⟩, us, rfl, hvalue, hus⟩ := List.map_eq_cons_iff.1 hused
    obtain ⟨us₁, us₂, rfl, h₁, h₂⟩ := List.map_eq_append_iff.1 hus
    obtain rfl : value = .or := hvalue
    rw [Derivation.nesting] at hbeyond
    by_cases hwithin : depth + next.nesting ≤ Limits.parseDepth
    · obtain ⟨before, t, tail, rfl, hfails⟩ := iho h₂ hbegin (by omega)
      exact ⟨⟨.or, span⟩ :: (us₁ ++ before), t, tail, congrArg _ (List.append_assoc ..).symm,
        .orLater ⟨h₁, hwithin⟩ hfails⟩
    · obtain ⟨before, t, tail, rfl, hfails⟩ := ihn h₁ hbegin (Nat.lt_of_not_le hwithin)
      exact ⟨⟨.or, span⟩ :: before, t, tail ++ us₂, congrArg _ (List.append_assoc ..), .orNext hfails⟩
  | conjunction first others ihf iho =>
    obtain ⟨us₁, us₂, rfl, h₁, h₂⟩ := List.map_eq_append_iff.1 hused
    rw [Derivation.nesting] at hbeyond
    by_cases hwithin : depth + first.nesting ≤ Limits.parseDepth
    · obtain ⟨before, t, tail, rfl, hfails⟩ := iho h₂ hbegin (by omega)
      exact ⟨us₁ ++ before, t, tail, (List.append_assoc ..).symm, .andOthers ⟨h₁, hwithin⟩ hfails⟩
    · obtain ⟨before, t, tail, rfl, hfails⟩ := ihf h₁ hbegin (Nat.lt_of_not_le hwithin)
      exact ⟨before, t, tail ++ us₂, List.append_assoc .., .andFirst hfails⟩
  | andCons next others ihn iho =>
    obtain ⟨⟨value, span⟩, us, rfl, hvalue, hus⟩ := List.map_eq_cons_iff.1 hused
    obtain ⟨us₁, us₂, rfl, h₁, h₂⟩ := List.map_eq_append_iff.1 hus
    obtain rfl : value = .and := hvalue
    rw [Derivation.nesting] at hbeyond
    by_cases hwithin : depth + next.nesting ≤ Limits.parseDepth
    · obtain ⟨before, t, tail, rfl, hfails⟩ := iho h₂ hbegin (by omega)
      exact ⟨⟨.and, span⟩ :: (us₁ ++ before), t, tail, congrArg _ (List.append_assoc ..).symm,
        .andLater ⟨h₁, hwithin⟩ hfails⟩
    · obtain ⟨before, t, tail, rfl, hfails⟩ := ihn h₁ hbegin (Nat.lt_of_not_le hwithin)
      exact ⟨⟨.and, span⟩ :: before, t, tail ++ us₂, congrArg _ (List.append_assoc ..), .andNext hfails⟩
  | not operand ih =>
    obtain ⟨⟨value, span⟩, us, rfl, hvalue, hus⟩ := List.map_eq_cons_iff.1 hused
    obtain rfl : value = .not := hvalue
    rw [Derivation.nesting] at hbeyond
    -- At the limit, the failure is at this negation. Below it, it is in the operand one level deeper.
    by_cases hfull : Limits.parseDepth ≤ depth
    · exact ⟨[], ⟨.not, span⟩, us, rfl, .deepNegation rfl hfull⟩
    · rw [Nat.not_le] at hfull
      obtain ⟨before, t, tail, rfl, hfails⟩ := ih hus hfull (by omega)
      exact ⟨⟨.not, span⟩ :: before, t, tail, rfl, .negated hfull hfails⟩
  | plain operand ih =>
    obtain ⟨before, t, tail, hus, hfails⟩ := ih hused hbegin hbeyond
    exact ⟨before, t, tail, hus, .plain hfails⟩
  | group inner ih =>
    obtain ⟨⟨value, span⟩, us, rfl, hvalue, hus⟩ := List.map_eq_cons_iff.1 hused
    obtain ⟨us, closers, rfl, h₁, h₂⟩ := List.map_eq_append_iff.1 hus
    obtain rfl : value = .openParen := hvalue
    rw [Derivation.nesting] at hbeyond
    by_cases hfull : Limits.parseDepth ≤ depth
    · exact ⟨[], ⟨.openParen, span⟩, us ++ closers, rfl, .deepGroup rfl hfull⟩
    · rw [Nat.not_le] at hfull
      obtain ⟨before, t, tail, rfl, hfails⟩ := ih h₁ hfull (by omega)
      exact ⟨⟨.openParen, span⟩ :: before, t, tail ++ closers, congrArg _ (List.append_assoc ..),
        .grouped hfull hfails⟩

/-- `parse` of tokens that have a derivation `d` with `Limits.parseDepth < d.nesting` fails with `.tooDeep`. -/
theorem parse_tooDeep_of_derivation {s : TokenStream} {d : Derivation .disjunction}
    (hs : ∀ t ∈ s.body, t.value ≠ .endOfInput) (hd : d.tokens = s.body.map Spanned.value)
    (hbeyond : Limits.parseDepth < d.nesting) : ∃ span, (parse s).value = .error (.tooDeep span) := by
  obtain ⟨before, t, tail, hbody, hfails⟩ :=
    exists_failsAt_of_beyond d hd.symm (Nat.zero_le _) (by rwa [Nat.zero_add])
  have ht : t ∈ s.body := hbody ▸ List.mem_append_right before List.mem_cons_self
  have hend : t.value.isEnd = false := Bool.eq_false_iff.2 (mt isEnd_iff.1 (hs t ht))
  exact ⟨t.span, parse_eq_error_iff.2 ⟨before, t :: tail, hbody, .inside (fun _ => hend) hfails⟩⟩

end BoolCalc.Syntax
