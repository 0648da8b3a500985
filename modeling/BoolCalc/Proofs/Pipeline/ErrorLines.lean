import BoolCalc.Proofs.Pipeline.Effects
import BoolCalc.Proofs.Pipeline.ErrorPlaces
import BoolCalc.Proofs.Text.Lines

namespace BoolCalc

/-!
# Errors as a reader is shown them

* `Underlines` : the token that stands behind some characters of a text, and the carets under it;
* `Underlines.caretCount_eq` : the span of the token has these carets;
* `Span.render_eq` : what is shown for a span, from the line around it;
* `Pipeline.compile_error_render` : **rendering**, a syntax error is shown under the line of the text that was given,
  with carets under the offending token.
-/

/-- `Underlines bang before behind t carets`: the token `t` stands at the front of `behind`, and has `carets`
carets, one for each character of its lexeme. The end of input stands behind all characters, and has one. -/
inductive Underlines (bang : Bool) (before : List Char) : List Char → Spanned Token → Nat → Prop where
  | lexeme {word rest : List Char} {t : Token} (h : IsLexeme bang word t) :
      Underlines bang before (word ++ rest) ⟨t, ⟨.after before, .after (before ++ word)⟩⟩ word.length
  | ending : Underlines bang before [] ⟨.endOfInput, .point (.after before)⟩ 1

variable {bang : Bool} {before behind : List Char} {t : Spanned Token} {carets : Nat}

theorem StandsBehind.exists_underlines (h : StandsBehind bang before behind t) :
    ∃ carets, Underlines bang before behind t carets := by
  cases h with
  | lexeme hword => exact ⟨_, .lexeme hword⟩
  | ending => exact ⟨1, .ending⟩

namespace Underlines

theorem start_eq (h : Underlines bang before behind t carets) : t.span.start = .after before := by
  cases h <;> rfl

/-- `caretCount` is the number of characters of the lexeme, in which no line ends. -/
theorem caretCount_eq (h : Underlines bang before behind t carets) : t.span.caretCount = carets := by
  cases h with
  | @lexeme word rest t hword =>
    have hline : '\n' ∉ word := fun hmem => absurd (hword.isBlank_of_mem _ hmem) (by decide)
    have hpos : 0 < word.length := by
      obtain ⟨c, cs, rfl⟩ := hword.exists_cons
      exact Nat.succ_pos _
    obtain ⟨hstay, hcolumn⟩ := Position.column_advanceOver (p := Position.start.advanceOver before) hline
    rw [← Position.advanceOver_append, Position.start_advanceOver, Position.start_advanceOver] at hstay hcolumn
    rw [Span.caretCount, if_pos hstay.symm, hcolumn, Nat.add_sub_cancel_left]
    exact Nat.max_eq_left hpos
  | ending => simp [Span.caretCount, Span.point]

end Underlines

/-- The rows that are shown for an error: the `message`, the place, an empty row, the line `shown` with its
`number`, and the carets behind `indent` blanks. -/
def errorRows (message : String) (number indent : Nat) (shown : String) (carets : Nat) : List String :=
  let gutter := toString number
  let padding := Text.repeated gutter.length ' '
  ["error: " ++ message,
    padding ++ "--> " ++ gutter ++ ":" ++ toString (indent + 1),
    padding ++ " |",
    gutter ++ " | " ++ shown,
    padding ++ " | " ++ Text.repeated indent ' ' ++ Text.repeated carets '^']

/-- `Span.render` for a span that starts behind `before`, with the `LineAround` this place. -/
theorem Span.render_eq {s : Span} {text : String} {shown : List Char} (l : LineAround before behind)
    (htext : text.toList = before ++ behind) (hshown : Text.Shown l.line l.later shown) (hs : s.start = .after before)
    (message : String) :
    s.render text message = String.join
      ((errorRows message (l.earlier.length + 1) l.head.length (String.ofList shown) s.caretCount).map
        (· ++ "\n")) := by
  obtain ⟨hline, hcolumn⟩ := l.after_eq
  have hfirst := l.firstLine_eq hshown htext hs
  unfold Span.render
  rw [hfirst, hs, Position.display, hline, hcolumn, Nat.add_sub_cancel]
  have hbar : " |\n" = " |" ++ "\n" := rfl
  have hstring (x : String) : toString x = x := rfl
  simp only [errorRows, hbar, hstring, List.map_cons, List.map_nil, String.join_cons, String.join_nil,
    String.append_assoc, String.append_empty]

namespace Pipeline

/-- **Rendering.** Let `compile` fail with the syntax error `e`. There is a token `t` of `text`, or its end, that
`e` blames and that stands between the characters `before` and `behind`. With the line `l` around this place,
`e.span.render text message` are the `errorRows` of:
* the number of `l`, one more than there are lines before it,
* as many blanks as `l` has characters in front of `t`,
* one caret for each character of `t`, or one at the end of input. -/
theorem compile_error_render (p : Preferences) (text message : String) (m : Memory) (request : Option String)
    {e : ParseError} (h : ((compile p text).run request m).1 = .error (.parse e)) :
    ∃ (t : Spanned Token) (before behind shown : List Char) (l : LineAround before behind) (carets : Nat),
      text.toList = before ++ behind ∧ Syntax.Blames e t ∧ Underlines p.lexical.acceptBang before behind t carets ∧
      Text.Shown l.line l.later shown ∧
      e.span.render text message = String.join
        ((errorRows message (l.earlier.length + 1) l.head.length (String.ofList shown) carets).map (· ++ "\n")) := by
  have htree := treeOf_of_compile_eq_error h
  rw [treeOf_eq_reading] at htree
  rcases CacheKey.exists_locates_of_reading htree with ⟨n, hlong⟩ | ⟨before, behind, htext, hlocates⟩
  · cases hlong
  · cases hlocates with
    | @token _ t _ hstands hblames =>
      obtain ⟨carets, hunderlines⟩ := hstands.exists_underlines
      obtain ⟨l⟩ := nonempty_lineAround before behind
      obtain ⟨shown, hshown⟩ := Text.exists_shown l.line l.later_ends
      refine ⟨t, before, behind, shown, l, carets, htext, hblames, hunderlines, hshown, ?_⟩
      have hstart : e.span.start = .after before := by rw [hblames.span_eq, hunderlines.start_eq]
      rw [Span.render_eq l htext hshown hstart message, hblames.span_eq, hunderlines.caretCount_eq]

/-- The text `é`, line end, `and ñ && b`, line end. -/
def twoLines : String := "é\r\nand ñ && b\r\n"

/-- The tokens of `twoLines`. -/
def twoLinesTokens : TokenStream where
  body := [⟨.identifier "é", ⟨⟨0, 1, 1⟩, ⟨2, 1, 2⟩⟩⟩, ⟨.and, ⟨⟨4, 2, 1⟩, ⟨7, 2, 4⟩⟩⟩,
    ⟨.identifier "ñ", ⟨⟨8, 2, 5⟩, ⟨10, 2, 6⟩⟩⟩, ⟨.reserved "&&", ⟨⟨11, 2, 7⟩, ⟨13, 2, 9⟩⟩⟩,
    ⟨.identifier "b", ⟨⟨14, 2, 10⟩, ⟨15, 2, 11⟩⟩⟩]
  final := .point ⟨17, 3, 1⟩

/-- The error of `twoLines` is about `&&`, which stands behind six characters of its line. -/
def operatorError : ParseError := .trailingInput "'&&'" ⟨⟨11, 2, 7⟩, ⟨13, 2, 9⟩⟩

theorem treeOf_twoLines : treeOf .strict twoLines = .error (.parse operatorError) := by
  have htokens : (tokenize { acceptBang := true } twoLines).value = .ok twoLinesTokens :=
    tokenize_eq_ok_iff.2 ⟨by decide +kernel, ⟨17, 3, 1⟩, by decide +kernel, by decide +kernel⟩
  have hfits : Syntax.Fits 0 (twoLinesTokens.body.take 3)
      (.disjunction (.conjunction (.plain (.identifier "é")) (.andCons (.plain (.identifier "ñ")) .andNil)) .orNil) :=
    ⟨rfl, by decide⟩
  have hparse : (parse twoLinesTokens).value = .error operatorError :=
    Syntax.parse_eq_error_iff.2 ⟨twoLinesTokens.body.take 3, twoLinesTokens.body.drop 3, rfl, .after hfits rfl rfl⟩
  have htext : treeOf .strict twoLines = CacheKey.reading ⟨true, twoLines⟩ := treeOf_eq_reading _ _
  rw [htext, CacheKey.reading, htokens]
  show (parse twoLinesTokens).value.mapError PipelineError.parse = _
  rw [hparse]
  rfl

/-- Two carets under `&&`, behind six blanks. -/
theorem compile_error_render_twoLines :
    ((compile .strict twoLines).run none {}).1 = .error (.parse operatorError) ∧
    operatorError.span.render twoLines "m" = "error: m\n --> 2:7\n  |\n2 | and ñ && b\n  |       ^^\n" ∧
    ∃ (t : Spanned Token) (before behind shown : List Char) (l : LineAround before behind) (carets : Nat),
      twoLines.toList = before ++ behind ∧ Syntax.Blames operatorError t ∧ Underlines true before behind t carets ∧
      Text.Shown l.line l.later shown ∧
      operatorError.span.render twoLines "m" = String.join
        ((errorRows "m" (l.earlier.length + 1) l.head.length (String.ofList shown) carets).map (· ++ "\n")) := by
  have hrun := (Work.meets_run (meets_compile .strict twoLines) (m := {}) nofun none).1
  rw [treeOf_twoLines] at hrun
  have herror : ((compile .strict twoLines).run none {}).1 = .error (.parse operatorError) := by
    generalize ((compile .strict twoLines).run none {}).1 = result at hrun
    cases result with
    | error e => exact congrArg _ (Except.error.inj hrun)
    | ok object => cases hrun
  exact ⟨herror, by decide +kernel, compile_error_render .strict twoLines "m" {} none herror⟩

end Pipeline

end BoolCalc
