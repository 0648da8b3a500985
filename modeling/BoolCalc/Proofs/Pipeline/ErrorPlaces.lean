import BoolCalc.Proofs.Grammar.Failures
import BoolCalc.Proofs.Pipeline.KeywordSpelling
import BoolCalc.Proofs.Token.Failures

namespace BoolCalc

/-!
# Where errors are

* `StandsBehind` : a token stands in a text behind some characters;
* `Locates` : an error is about the place between two parts of a text;
* `CacheKey.exists_locates_of_reading` : an error of reading is about a place of the text, unless the text is too
  long;
* `Pipeline.evaluate_error_position` : **places**, the position that is reported for an expression is a place of
  the text that was given, where the offending token or character stands.

The error is computed on the normalized text. This has the same tokens with the same spans.
-/

/-- `t` stands behind the characters `before` of a text: `behind` begins with a lexeme of it, and its span is that
of the lexeme. The end of input stands behind all characters. -/
inductive StandsBehind (bang : Bool) (before : List Char) : List Char → Spanned Token → Prop where
  | lexeme {word rest : List Char} {t : Token} (h : IsLexeme bang word t) :
      StandsBehind bang before (word ++ rest) ⟨t, ⟨.after before, .after (before ++ word)⟩⟩
  | ending : StandsBehind bang before [] ⟨.endOfInput, .point (.after before)⟩

/-- The error is about the place between `before` and `behind`. It has the offset of this place, and where it has a
line and a column they are those of the place. -/
inductive Locates (bang : Bool) (before : List Char) : List Char → PipelineError → Prop where
  /-- No token starts with the character `c`. -/
  | character {c : Char} {rest : List Char} (hnone : ∀ more t, ¬IsLexeme bang (c :: more) t) :
      Locates bang before (c :: rest) (.lex (.invalidCharacter c (Position.after before).offset
        (Position.after before).line (Position.after before).column))
  /-- A word starts at the place, with a digit. -/
  | digitFirst {c : Char} {more rest : List Char} (hchars : ∀ d ∈ c :: more, Text.isWordChar d = true)
      (hrest : EndsWord rest) (hdigit : Text.isAsciiDigit c = true) :
      Locates bang before (c :: more ++ rest)
        (.lex (.invalidIdentifier (String.ofList (c :: more)) (Position.after before).offset))
  /-- A word starts at the place, with more than `Limits.identifier` bytes. -/
  | tooLong {c : Char} {more rest : List Char} (hchars : ∀ d ∈ c :: more, Text.isWordChar d = true)
      (hrest : EndsWord rest) (hstart : Text.isWordStart c = true)
      (hlong : Limits.identifier < Text.byteLength (c :: more)) :
      Locates bang before (c :: more ++ rest)
        (.lex (.identifierTooLong (Text.byteLength (c :: more)) (Position.after before).offset))
  /-- There are `Limits.tokens` tokens before the place, and more than blanks behind it. -/
  | tooMany {c : Char} {rest : List Char} {ts : List Token} (hblank : Text.isBlank c = false)
      (hlexes : Lexes bang before ts) (hcount : ts.length = Limits.tokens) :
      Locates bang before (c :: rest) (.lex (.tooManyTokens (Position.after before).offset))
  /-- The token `t` that a syntax error blames stands at the place. -/
  | token {behind : List Char} {t : Spanned Token} {e : ParseError} (hstands : StandsBehind bang before behind t)
      (hblames : Syntax.Blames e t) : Locates bang before behind (.parse e)

variable {bang : Bool} {before behind : List Char} {err : PipelineError}

theorem StandsBehind.start_eq {t : Spanned Token} (h : StandsBehind bang before behind t) :
    t.span.start = .after before := by
  cases h <;> rfl

/-- The reported position is the offset of the place, `Text.byteLength before`. -/
theorem Locates.position_eq (h : Locates bang before behind err) :
    err.report.position = some (Text.byteLength before) := by
  cases h with
  | @token _ t e hstands hblames =>
    have hstart : e.span.start = .after before := by rw [hblames.span_eq, hstands.start_eq]
    show some e.span.start.offset = _
    rw [hstart]
    rfl
  | character | digitFirst | tooLong | tooMany => rfl

/-! ### Errors of reading -/

namespace CacheKey

variable {key : CacheKey}

/-- `reading` fails with the error of `tokenize` or of `parse`. -/
theorem reading_eq_error (h : key.reading = .error err) :
    (∃ e, (tokenize { acceptBang := key.bang } key.text).value = .error e ∧ err = .lex e) ∨
      ∃ s e, (tokenize { acceptBang := key.bang } key.text).value = .ok s ∧ (parse s).value = .error e ∧
        err = .parse e := by
  unfold reading at h
  cases htokens : (tokenize { acceptBang := key.bang } key.text).value with
  | error e =>
    rw [htokens] at h
    cases h
    exact .inl ⟨e, rfl, rfl⟩
  | ok s =>
    rw [htokens, Except.mapError, Except.bind] at h
    cases hparse : (parse s).value with
    | error e =>
      rw [hparse] at h
      cases h
      exact .inr ⟨s, e, rfl, hparse, rfl⟩
    | ok tree =>
      rw [hparse] at h
      cases h

/-- If `scan` stops, its error `Locates` the place where it stopped. -/
theorem exists_locates_of_scan {f : LexFailure} {cs : List Char} (h : (scan bang 0 .start cs).ending = .error f) :
    ∃ before behind, cs = before ++ behind ∧ Locates bang before behind (.lex f.error) := by
  obtain ⟨before, c, behind, ts, rfl, hlexes, hfailure⟩ := scan_eq_error h (Nat.zero_le _)
  refine ⟨before, c :: behind, rfl, ?_⟩
  rw [Position.start_advanceOver] at hfailure
  rcases hfailure with ⟨hblank, hcount, herror⟩ | ⟨fault, hfault, herror⟩
  · rw [herror]
    rw [Nat.zero_add] at hcount
    exact .tooMany hblank hlexes hcount
  · rw [herror]
    cases hfault with
    | character hnone => exact .character hnone
    | digitFirst hcs hchars hrest hdigit =>
      subst hcs
      exact .digitFirst hchars hrest hdigit
    | tooLong hcs hchars hrest hstart hlong =>
      subst hcs
      exact .tooLong hchars hrest hstart hlong

/-- If `parse` fails, its error `Locates` the token it blames. -/
theorem exists_locates_of_parse {text : String} {s : TokenStream} {e : ParseError}
    (htokens : (tokenize { acceptBang := bang } text).value = .ok s) (h : (parse s).value = .error e) :
    ∃ before behind, text.toList = before ++ behind ∧ Locates bang before behind (.parse e) := by
  obtain ⟨t, ht, hblames⟩ := Syntax.exists_blames_of_parse h
  have hlexer : (Lexer.tokenize { preferences := { acceptBang := bang } } text).value.1 = .ok s := htokens
  rcases ht with hmem | rfl
  · obtain ⟨before, word, rest, htext, hword, hspan⟩ := Lexer.exists_lexeme_of_mem hlexer hmem
    have ht : t = ⟨t.value, ⟨.after before, .after (before ++ word)⟩⟩ := by rw [← hspan]
    rw [ht] at hblames
    exact ⟨before, word ++ rest, by rw [htext, List.append_assoc], .token (.lexeme hword) hblames⟩
  · -- The end of input stands behind the whole text.
    have hlast : s.last = ⟨.endOfInput, .point (.after text.toList)⟩ := by
      rw [TokenStream.last, Lexer.final_of_tokenize hlexer]
    rw [hlast] at hblames
    exact ⟨text.toList, [], (List.append_nil _).symm, .token .ending hblames⟩

/-- If `reading` fails, the error `Locates` a place of the text, unless the text is too long. -/
theorem exists_locates_of_reading (h : key.reading = .error err) :
    (∃ n, err = .lex (.expressionTooLong n)) ∨
      ∃ before behind, key.text.toList = before ++ behind ∧ Locates key.bang before behind err := by
  rcases reading_eq_error h with ⟨e, htokens, rfl⟩ | ⟨s, e, htokens, hparse, rfl⟩
  · rw [tokenize_eq_ite] at htokens
    split at htokens
    · cases htokens
      exact .inl ⟨_, rfl⟩
    · right
      unfold Scan.result at htokens
      split at htokens
      · cases htokens
      · next f hending =>
        cases htokens
        exact exists_locates_of_scan hending
  · exact .inr (exists_locates_of_parse htokens hparse)

end CacheKey

/-! ### Errors of a call -/

namespace Pipeline

/-- **Places.** Let `evaluate` fail with `err`.
* If a position is reported, it is the offset of a place between `before` and `behind` in the text that was given,
  and `err` is about this place (`Locates`): the offending character or token stands there, or it is the end of the
  text. All lines and columns in `err` are those of the place, and at the end of a span those behind the lexeme.
* No position is reported exactly if the text is too long, or the error is one of `bind` or `evaluate`. -/
theorem evaluate_error_position (p : Preferences) (elapsed : Nat) (text values : String) {m : Memory} (hm : m.Sound)
    (request : Option String) {err : PipelineError}
    (h : ((evaluate p elapsed text values).run request m).1 = .error err) :
    (∀ offset, err.report.position = some offset →
      ∃ before behind, text.toList = before ++ behind ∧ Text.byteLength before = offset ∧
        Text.dropBytes? offset text.toList = some behind ∧ Locates p.lexical.acceptBang before behind err) ∧
    (err.report.position = none ↔
      (∃ n, err = .lex (.expressionTooLong n)) ∨ (∃ e, err = .binding e) ∨ ∃ e, err = .evaluation e) := by
  have hanswer : answerOf p text values = .error err := by
    rw [← h]
    exact (Work.meets_run (meets_evaluate p elapsed text values) hm request).1.symm
  constructor
  · intro offset hoffset
    -- Only an error of reading has a position, and it is one of the text itself, not of the normalized one.
    rcases answerOf_eq_error hanswer with htree | ⟨e, rfl⟩ | ⟨e, rfl⟩
    · rw [treeOf_eq_reading] at htree
      rcases CacheKey.exists_locates_of_reading htree with ⟨n, rfl⟩ | ⟨before, behind, htext, hlocates⟩
      · cases hoffset
      · rw [hlocates.position_eq] at hoffset
        cases hoffset
        refine ⟨before, behind, htext, rfl, ?_, hlocates⟩
        rw [show text.toList = before ++ behind from htext]
        exact Text.dropBytes?_append
    · cases hoffset
    · cases hoffset
  · -- Which errors have a position does not depend on the call.
    cases err with
    | lex e => cases e <;> simp [PipelineError.report, PipelineError.position?]
    | parse e => simp [PipelineError.report, PipelineError.position?]
    | binding e => simp [PipelineError.report, PipelineError.position?]
    | evaluation e => simp [PipelineError.report, PipelineError.position?]

/-- In `é aNd`, line feed, `$b` no token starts with `$`, which stands behind seven bytes at the start of the second
line. -/
theorem evaluate_error_position_dollar :
    let err : PipelineError := .lex (.invalidCharacter '$' 7 2 1)
    Memory.Sound {} ∧ ((evaluate .strict 0 "é aNd\n$b" "").run none {}).1 = .error err ∧
      err.report.position = some 7 ∧ ∃ before, "é aNd\n$b".toList = before ++ "$b".toList ∧
        Locates true before "$b".toList err := by
  intro err
  have hm : Memory.Sound {} := nofun
  have herr : ((evaluate .strict 0 "é aNd\n$b" "").run none {}).1 = .error err := by decide +kernel
  obtain ⟨before, behind, htext, -, hdrop, hlocates⟩ :=
    (evaluate_error_position .strict 0 "é aNd\n$b" "" hm none herr).1 7 rfl
  have hbehind : Text.dropBytes? 7 "é aNd\n$b".toList = some "$b".toList := by decide
  obtain rfl := Option.some.inj (hdrop.symm.trans hbehind)
  exact ⟨hm, herr, rfl, before, htext, hlocates⟩

end Pipeline

end BoolCalc
