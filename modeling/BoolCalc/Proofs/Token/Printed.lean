import BoolCalc.Normalize
import BoolCalc.Proofs.Grammar.Canonical
import BoolCalc.Proofs.Token.Lexemes
import Mathlib.Data.List.SplitBy

namespace BoolCalc

/-!
# Text that is printed from tokens

* `normalizeChars_word`, `normalizeChars_sign` : normalization word by word;
* `Printed` : characters put together from words, blanks and parentheses, and the tokens they stand for;
* `Printed.lexes`, `Printed.normalizeChars_eq` : such characters make these tokens, and normalization
  leaves them alone;
* `printed_render` : the canonical text of a tree is printed from the tokens of its canonical derivation.
-/

variable {bang : Bool} {c : Char} {cs word rest : List Char} {ts us : List Token}

/-! ### Normalization word by word -/

/-- `normalizeChars` respells a whole `word`, and goes on behind it. -/
theorem normalizeChars_word (hne : word ≠ []) (hword : ∀ c ∈ word, Text.isWordChar c = true)
    (hrest : EndsWord rest) : normalizeChars (word ++ rest) = respell word ++ normalizeChars rest := by
  have hchain : word.IsChain fun a b => (Text.isWordChar a && Text.isWordChar b) = true :=
    List.Pairwise.isChain <| List.pairwise_of_forall_mem_list fun a ha b hb => by
      rw [hword a ha, hword b hb, Bool.and_self]
  have hsplit : segments (word ++ rest) = [word] ++ segments rest := by
    rw [segments, List.splitBy_append, List.splitBy_of_isChain hne hchain]
    · rfl
    · intro x _ y hy
      rw [hrest y hy, Bool.and_false]
  rw [normalizeChars, hsplit, List.flatMap_append, List.flatMap_singleton]
  rfl

theorem length_of_ofWord? {k : Keyword} (h : Keyword.ofWord? word = some k) :
    word.length = k.canonical.toList.length := by
  have hsame := List.find?_some h
  have hlength := congrArg List.length (beq_iff_eq.1 hsame)
  simpa [Text.lowerAscii] using hlength.symm

theorem normalizeChars_sign (hc : Text.isWordChar c = false) :
    normalizeChars (c :: cs) = c :: normalizeChars cs := by
  have hsplit : segments (c :: cs) = [[c]] ++ segments cs := by
    have happend : c :: cs = [c] ++ cs := rfl
    rw [happend, segments, List.splitBy_append, List.splitBy_of_isChain (List.cons_ne_nil c []) (by simp)]
    · rfl
    · rintro x ⟨⟩ y _
      exact Bool.and_eq_false_imp.2 fun h => absurd (hc.symm.trans h) Bool.false_ne_true
  have hstays : respell [c] = [c] := by
    rw [respell]
    split
    · next k hk =>
      -- No keyword is a single character.
      have hlength := length_of_ofWord? hk
      rw [List.length_singleton] at hlength
      cases k <;> exact absurd hlength (by decide)
    · rfl
  rw [normalizeChars, hsplit, List.flatMap_append, List.flatMap_singleton, hstays]
  rfl

/-! ### Words, blanks and parentheses -/

/-- `Printed cs ts`: `cs` is put together from words in normalized spelling, blanks and parentheses, and stands for
`ts`. -/
inductive Printed : List Char → List Token → Prop where
  | nil : Printed [] []
  | blank {cs : List Char} {ts : List Token} : Printed cs ts → Printed (' ' :: cs) ts
  | openParen {cs : List Char} {ts : List Token} : Printed cs ts → Printed ('(' :: cs) (.openParen :: ts)
  | closeParen {cs : List Char} {ts : List Token} : Printed cs ts → Printed (')' :: cs) (.closeParen :: ts)
  | word {word cs : List Char} {ts : List Token} :
      IsWord word → respell word = word → EndsWord cs → Printed cs ts →
      Printed (word ++ cs) (Token.ofWord word :: ts)

/-- `Printed` characters make their tokens, in both dialects. -/
theorem Printed.lexes (h : Printed cs ts) : Lexes bang cs ts := by
  induction h with
  | nil => exact .nil
  | blank _ ih => exact .blank (by decide) ih
  | @openParen cs ts _ ih => exact .token (l := ⟨.openParen, [], cs⟩) (by decide) rfl ih
  | @closeParen cs ts _ ih => exact .token (l := ⟨.closeParen, [], cs⟩) (by decide) rfl ih
  | @word word cs ts hword _ hrest _ ih =>
    obtain ⟨c, more, rfl, hstart⟩ := hword.start
    have hblank := Text.isBlank_eq_false (Text.isWordChar_of_isWordStart hstart)
    exact .token hblank (lexeme_word hword hrest) ih

/-- `normalizeChars` leaves `Printed` characters alone. -/
theorem Printed.normalizeChars_eq (h : Printed cs ts) : normalizeChars cs = cs := by
  induction h with
  | nil => rfl
  | blank _ ih | openParen _ ih | closeParen _ ih =>
    rw [normalizeChars_sign (by decide), ih]
  | @word word cs ts hword hnormal hrest _ ih =>
    obtain ⟨c, more, rfl, -⟩ := hword.start
    rw [normalizeChars_word (List.cons_ne_nil c more) hword.chars hrest, hnormal, ih]

/-- The same for `normalize`. -/
theorem Printed.normalize_text {text : String} (h : Printed text.toList ts) :
    (normalize text).value.text = text := by
  have hnormal : (normalize text).value.text = String.ofList (normalizeChars text.toList) := rfl
  rw [hnormal, h.normalizeChars_eq, String.ofList_toList]

/-! ### Canonical texts -/

/-- A name in front of `Printed` characters. -/
theorem Printed.name {name : String} (hname : IsName name.toList) (hrest : EndsWord cs) (h : Printed cs ts) :
    Printed (name.toList ++ cs) (.identifier name :: ts) := by
  have hnormal : respell name.toList = name.toList := by rw [respell, hname.free]
  have htoken : Token.ofWord name.toList = .identifier name := by
    rw [Token.ofWord, hname.free, String.ofList_toList]
  have := Printed.word hname.toIsWord hnormal hrest h
  rwa [htoken] at this

/-- `k.canonical` in front of `Printed` characters. -/
theorem Printed.keyword (k : Keyword) (hrest : EndsWord cs) (h : Printed cs ts) :
    Printed (k.canonical.toList ++ cs) (Token.ofKeyword k :: ts) := by
  have htoken : Token.ofWord k.canonical.toList = Token.ofKeyword k := by cases k <;> decide
  have hnormal : respell k.canonical.toList = k.canonical.toList := by cases k <;> decide
  have hword : IsWord k.canonical.toList := by
    cases k <;> exact ⟨⟨_, _, rfl, by decide⟩, List.all_eq_true.1 (by decide), by decide⟩
  rw [← htoken]
  exact .word hword hnormal hrest h

theorem toList_render_not (e : Expr) :
    (Expr.not e).render.toList = Keyword.not.canonical.toList ++ ' ' :: e.render.toList := by
  simp [Expr.render, Keyword.canonical]

theorem toList_render_and (l r : Expr) : (Expr.and l r).render.toList =
    '(' :: (l.render.toList ++ ' ' ::
      (Keyword.and.canonical.toList ++ ' ' :: (r.render.toList ++ [')']))) := by
  simp [Expr.render, Keyword.canonical]

theorem toList_render_or (l r : Expr) : (Expr.or l r).render.toList =
    '(' :: (l.render.toList ++ ' ' ::
      (Keyword.or.canonical.toList ++ ' ' :: (r.render.toList ++ [')']))) := by
  simp [Expr.render, Keyword.canonical]

/-- **The canonical text.** If the variables of `e` have names, `e.render` in front of printed characters is
printed, from the tokens of `e.canonicalUnary`. -/
theorem printed_render {e : Expr} (hnames : ∀ name ∈ e.names, IsName name.toList) (hrest : EndsWord cs)
    (h : Printed cs ts) : Printed (e.render.toList ++ cs) (e.canonicalUnary.tokens ++ ts) := by
  have hblank : ∀ cs, EndsWord (' ' :: cs) := fun cs => endsWord_cons (by decide)
  have hclose : ∀ cs, EndsWord (')' :: cs) := fun cs => endsWord_cons (by decide)
  -- The characters behind are arbitrary, so that the text is put together from its end.
  induction e generalizing cs ts with
  | «variable» name => exact .name (hnames name (List.mem_singleton_self name)) hrest h
  | literal value =>
    cases value with
    | true => exact .keyword .true hrest h
    | false => exact .keyword .false hrest h
  | not e ih =>
    have hoperand := ih hnames hrest h
    rw [toList_render_not, List.append_assoc]
    exact .keyword .not (hblank _) (.blank hoperand)
  | and l r ihl ihr =>
    have hr := ihr (fun n hn => hnames n (List.mem_append_right _ hn)) (hclose cs) (.closeParen h)
    have hand := Printed.keyword .and (hblank _) (.blank hr)
    have hl := ihl (fun n hn => hnames n (List.mem_append_left _ hn)) (hblank _) (.blank hand)
    rw [toList_render_and, Expr.tokens_and]
    simpa [Token.ofKeyword] using Printed.openParen hl
  | or l r ihl ihr =>
    have hr := ihr (fun n hn => hnames n (List.mem_append_right _ hn)) (hclose cs) (.closeParen h)
    have hor := Printed.keyword .or (hblank _) (.blank hr)
    have hl := ihl (fun n hn => hnames n (List.mem_append_left _ hn)) (hblank _) (.blank hor)
    rw [toList_render_or, Expr.tokens_or]
    simpa [Token.ofKeyword] using Printed.openParen hl

end BoolCalc
