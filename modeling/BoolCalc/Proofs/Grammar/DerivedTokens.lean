import BoolCalc.Proofs.Grammar.Derivation

namespace BoolCalc.Grammar

/-!
# The tokens of a derivation

* `Derivation.tokens_ne_nil`, `Derivation.ne_endOfInput_of_mem` : there is some token, unless the rule is a
  starred part, and none is an end of input;
* `Derivation.getLast?_tokens_ne` : the last one is no negation;
* `Closes` : tokens that close a parenthesis which is open before them;
* `Balanced`, `Derivation.balanced` : tokens that close what they open and nothing else, as those of a
  derivation do;
* `Balanced.closes_of_open` : each opening parenthesis among such tokens is closed by those behind it.
-/

/-- Some front of `ts` has more `)` than `(`, so that `ts` closes a parenthesis that is open before it. -/
def Closes (ts : List Token) : Prop :=
  ∃ n, (ts.take n).count .openParen < (ts.take n).count .closeParen

/-- `ts` closes what it opens and nothing else. -/
structure Balanced (ts : List Token) : Prop where
  total : ts.count .openParen = ts.count .closeParen
  fronts : ¬Closes ts

namespace Balanced

variable {xs ys : List Token}

theorem count_take_le (h : Balanced xs) (n : Nat) :
    (xs.take n).count .closeParen ≤ (xs.take n).count .openParen :=
  Nat.le_of_not_lt fun hlt => h.fronts ⟨n, hlt⟩

theorem nil : Balanced [] := ⟨rfl, fun ⟨_, h⟩ => by simp at h⟩

theorem append (hx : Balanced xs) (hy : Balanced ys) : Balanced (xs ++ ys) := by
  refine ⟨by rw [List.count_append, List.count_append, hx.total, hy.total], ?_⟩
  rintro ⟨n, h⟩
  rw [List.take_append, List.count_append, List.count_append] at h
  have hfront := hx.count_take_le n
  have hback := hy.count_take_le (n - xs.length)
  omega

/-- `Balanced` with a token in front that is no parenthesis. -/
theorem cons {t : Token} (h : Balanced xs) (hopen : t ≠ .openParen) (hclose : t ≠ .closeParen) :
    Balanced (t :: xs) := by
  refine ⟨by rw [List.count_cons_of_ne hopen, List.count_cons_of_ne hclose, h.total], ?_⟩
  rintro ⟨n, hn⟩
  cases n with
  | zero => simp at hn
  | succ n =>
    rw [List.take_succ_cons, List.count_cons_of_ne hopen, List.count_cons_of_ne hclose] at hn
    exact h.fronts ⟨n, hn⟩

/-- `Balanced` tokens in a pair of parentheses. -/
theorem group (h : Balanced xs) : Balanced (.openParen :: (xs ++ [.closeParen])) := by
  refine ⟨by simp [h.total], ?_⟩
  rintro ⟨n, hn⟩
  cases n with
  | zero => simp at hn
  | succ n =>
    have hfront := h.count_take_le n
    have hlast : (([.closeParen] : List Token).take (n - xs.length)).count .closeParen ≤ 1 :=
      List.count_le_length.trans (List.length_take_le' _ _)
    rw [List.take_succ_cons, List.take_append, List.count_cons_self,
      List.count_cons_of_ne (by decide), List.count_append, List.count_append] at hn
    omega

/-- In `Balanced` tokens an `(` is closed by those behind it: `Closes ys`. -/
theorem closes_of_open (h : Balanced (xs ++ .openParen :: ys)) : Closes ys := by
  have hfront := h.count_take_le xs.length
  have htotal := h.total
  rw [List.take_left] at hfront
  rw [List.count_append, List.count_append, List.count_cons_self,
    List.count_cons_of_ne (by decide : Token.openParen ≠ .closeParen)] at htotal
  refine ⟨ys.length, ?_⟩
  rw [List.take_length]
  omega

end Balanced

namespace Derivation

variable {r : Rule}

/-- Unless `r.isStarred`, a derivation has some token. -/
theorem tokens_ne_nil (d : Derivation r) (hr : r.isStarred = false) : d.tokens ≠ [] := by
  obtain ⟨x, hx, -⟩ := (d.exists_level_eq_nesting 0).resolve_left fun h => by
    rw [hr] at h
    exact Bool.false_ne_true h.1
  rw [← d.map_fst_placed 0]
  exact List.ne_nil_of_mem (List.mem_map_of_mem hx)

/-- No derived token is `.endOfInput`. -/
theorem ne_endOfInput_of_mem (d : Derivation r) {t : Token} (ht : t ∈ d.tokens) : t ≠ .endOfInput := by
  induction d with
  | disjunction first others ihf iho | conjunction first others ihf iho =>
    exact (List.mem_append.1 ht).elim ihf iho
  | orNil | andNil => cases ht
  | orCons next others ihn iho | andCons next others ihn iho =>
    rcases List.mem_cons.1 ht with rfl | ht
    · nofun
    · exact (List.mem_append.1 ht).elim ihn iho
  | not operand ih =>
    rcases List.mem_cons.1 ht with rfl | ht
    · nofun
    · exact ih ht
  | plain operand ih => exact ih ht
  | identifier | literal =>
    rw [List.mem_singleton.1 ht]
    nofun
  | group inner ih =>
    rcases List.mem_cons.1 ht with rfl | ht
    · nofun
    rcases List.mem_append.1 ht with ht | ht
    · exact ih ht
    · rw [List.mem_singleton.1 ht]
      nofun

/-- The last token is not `.not`: a negation has an operand behind it. -/
theorem getLast?_tokens_ne (d : Derivation r) : d.tokens.getLast? ≠ some .not := by
  induction d with
  | disjunction first others ihf iho | conjunction first others ihf iho =>
    rw [tokens, List.getLast?_append]
    -- The last token is that of `others`, unless these derive nothing.
    cases h : others.tokens.getLast? with
    | none => exact ihf
    | some t =>
      rw [h] at iho
      exact iho
  | orNil | andNil => simp [tokens]
  | orCons next others ihn iho | andCons next others ihn iho =>
    rw [tokens, List.getLast?_cons, List.getLast?_append]
    cases h : others.tokens.getLast? with
    | some t =>
      rw [h] at iho
      exact iho
    | none =>
      cases h' : next.tokens.getLast? with
      | some t =>
        rw [h'] at ihn
        exact ihn
      | none => simp
  | not operand ih =>
    obtain ⟨t, ts, hts⟩ := List.exists_cons_of_ne_nil (operand.tokens_ne_nil rfl)
    rw [tokens, hts, List.getLast?_cons_cons, ← hts]
    exact ih
  | plain operand ih => exact ih
  | identifier | literal => simp [tokens]
  | group inner ih =>
    rw [tokens, ← List.cons_append, List.getLast?_concat]
    simp

/-- **Parentheses.** The tokens of a derivation are `Balanced`. -/
theorem balanced (d : Derivation r) : Balanced d.tokens := by
  induction d with
  | disjunction first others ihf iho | conjunction first others ihf iho => exact ihf.append iho
  | orNil | andNil => exact .nil
  | orCons next others ihn iho | andCons next others ihn iho => exact (ihn.append iho).cons nofun nofun
  | not operand ih => exact ih.cons nofun nofun
  | plain operand ih => exact ih
  | identifier | literal => exact Balanced.nil.cons nofun nofun
  | group inner ih => exact ih.group

end Derivation

end BoolCalc.Grammar
