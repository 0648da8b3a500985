import BoolCalc.Proofs.Binding.Reference
import BoolCalc.Proofs.Evaluation.Walk
import BoolCalc.Proofs.Pipeline.Always
import BoolCalc.Proofs.Pipeline.CanonicalText
import BoolCalc.Proofs.Pipeline.Milestones
import BoolCalc.Proofs.Text.OneLine
import BoolCalc.Proofs.Token.Failures

namespace BoolCalc

open Text

/-!
# The lines of the events of an evaluation

* `Log.Event.oneLine_line` : when the line of an event has no line break;
* `Log.Event.Framed` : no line break stands in the code or the context of an event, so that there is one in its line
  exactly if there is one in its message or its mark;
* `IsLexeme.oneLine_display`, `oneLine_message_of_scan`, `Syntax.worded_of_parse` : what is shown of an expression;
* `Parameters.oneLine_message_of_bind` : what is shown of a parameter string;
* `Pipeline.ReadsOneLine` : no line break is shown of a parameter string;
* `Pipeline.Quoting` : only a parameter string may bring a line break into the events;
* `Pipeline.quoting_told` : the events of an evaluation, stage by stage.
-/

/-! ### Lines -/

namespace Log

/-- `c.put key value` has the pair `(key, value)` and pairs of `c` only. -/
theorem Context.mem_of_mem_put {key value : String} {c : Context} {pair : String × String}
    (h : pair ∈ c.put key value) : pair = (key, value) ∨ pair ∈ c := by
  induction c with
  | nil => exact .inl (List.mem_singleton.1 h)
  | cons first rest ih =>
    obtain ⟨k, v⟩ := first
    unfold Context.put at h
    split at h
    · exact (List.mem_cons.1 h).imp_right (List.mem_cons_of_mem _)
    · split at h
      · exact List.mem_cons.1 h
      · rcases List.mem_cons.1 h with rfl | h
        · exact .inr List.mem_cons_self
        · exact (ih h).imp_right (List.mem_cons_of_mem _)

theorem Context.mem_put (key value : String) (c : Context) : (key, value) ∈ c.put key value := by
  induction c with
  | nil => exact List.mem_cons_self
  | cons first rest ih =>
    obtain ⟨k, v⟩ := first
    unfold Context.put
    split
    · exact List.mem_cons_self
    · split
      · exact List.mem_cons_self
      · exact List.mem_cons_of_mem _ ih

/-- Neither a key nor a value of `c` has a line break. -/
def Context.IsOneLine (c : Context) : Prop := ∀ pair ∈ c, OneLine pair.1 ∧ OneLine pair.2

theorem Context.isOneLine_nil : Context.IsOneLine [] := List.forall_mem_nil _

theorem Context.IsOneLine.cons {c : Context} (h : c.IsOneLine) {key value : String} (hkey : OneLine key)
    (hvalue : OneLine value) : Context.IsOneLine ((key, value) :: c) := List.forall_mem_cons.2 ⟨⟨hkey, hvalue⟩, h⟩

/-- The same with a number `n` for the value. -/
theorem Context.IsOneLine.count {c : Context} (h : c.IsOneLine) {key : String} (hkey : OneLine key) (n : Nat) :
    Context.IsOneLine ((key, toString n) :: c) := h.cons hkey (oneLine_nat n)

theorem Context.IsOneLine.put {c : Context} (h : c.IsOneLine) {key value : String} (hkey : OneLine key)
    (hvalue : OneLine value) : (c.put key value).IsOneLine := by
  intro pair hpair
  rcases mem_of_mem_put hpair with rfl | hpair
  · exact ⟨hkey, hvalue⟩
  · exact h pair hpair

namespace Event

variable {e : Event} {code : Code} {message : String} {pairs : List (String × String)}

/-- `spanText` shows numbers only. -/
theorem oneLine_spanText (e : Event) : OneLine e.spanText := by
  unfold spanText
  split
  · simp only [Position.display, oneLine_append, oneLine_toString, oneLine_nat, true_and, and_true]
    decide
  · decide

/-- `contextText` has a line break exactly if the context has one. -/
theorem oneLine_contextText : OneLine e.contextText ↔ e.context.IsOneLine := by
  unfold contextText
  split
  · next h =>
    rw [List.isEmpty_iff.1 h]
    exact iff_of_true (by decide) Context.isOneLine_nil
  · have hfixed : OneLine " (" ∧ OneLine "=" ∧ OneLine ")" := by decide
    rw [oneLine_append, oneLine_append, oneLine_intercalate (by decide), List.forall_mem_map]
    simp only [oneLine_append, hfixed, true_and, and_true, Context.IsOneLine]

/-- Neither the code of `e` nor its context has a line break. -/
structure Framed (e : Event) : Prop where
  code : OneLine e.code.text
  context : e.context.IsOneLine

/-- **The line of an event** has no line break exactly if the event is `Framed` and its message has none. -/
theorem oneLine_line : OneLine e.line ↔ e.Framed ∧ OneLine e.message := by
  have htag : OneLine e.level.tag := by cases e.level <;> decide
  have hframed : e.Framed ↔ OneLine e.code.text ∧ e.context.IsOneLine :=
    ⟨fun h => ⟨h.code, h.context⟩, fun h => ⟨h.1, h.2⟩⟩
  have hfixed : OneLine "[" ∧ OneLine "] " ∧ OneLine " - " := by decide
  unfold line
  simp only [oneLine_append, oneLine_toString, oneLine_contextText, oneLine_spanText, htag, hframed, hfixed, and_true,
    true_and]
  exact and_right_comm

theorem Framed.withContexts (h : e.Framed) (hpairs : Context.IsOneLine pairs) : (e.withContexts pairs).Framed := by
  induction pairs generalizing e with
  | nil => exact h
  | cons pair pairs ih =>
    obtain ⟨⟨hkey, hvalue⟩, hrest⟩ := List.forall_mem_cons.1 hpairs
    exact ih ⟨h.code, h.context.put hkey hvalue⟩ hrest

/-- **Marks.** The line of a `Framed` event with a mark has no line break exactly if neither the mark nor the
message has one. -/
theorem Framed.oneLine_forRequest (h : e.Framed) (request : Option String) :
    OneLine (e.forRequest request).line ↔ (∀ name ∈ request, OneLine name) ∧ OneLine e.message := by
  rw [oneLine_line]
  cases request with
  | none => exact and_congr_left' (iff_of_true h nofun)
  | some name =>
    refine and_congr_left' ⟨fun hframed => ?_, fun hname => ⟨h.code, h.context.put (by decide) (hname name rfl)⟩⟩
    intro mark hmark
    obtain rfl := Option.some.inj hmark
    exact (hframed.context _ (Context.mem_put "request" _ e.context)).2

/-- `withContexts` with keys and values that have no line break. -/
theorem oneLine_withContexts (h : e.Framed) (hmessage : OneLine e.message) (hpairs : Context.IsOneLine pairs) :
    (e.withContexts pairs).Framed ∧ OneLine (e.withContexts pairs).message := by
  refine ⟨h.withContexts hpairs, ?_⟩
  rw [withContexts_eq]
  exact hmessage

/-- `stage` without line breaks. -/
theorem oneLine_stage (hcode : OneLine code.text) (hmessage : OneLine message) (hpairs : Context.IsOneLine pairs) :
    (stage code message pairs).Framed ∧ OneLine (stage code message pairs).message :=
  oneLine_withContexts (e := debugWithCode code message) ⟨hcode, Context.isOneLine_nil⟩ hmessage hpairs

/-- `failure` is framed, whatever its message. -/
theorem framed_failure (hcode : OneLine code.text) (message : String) (span : Option Span)
    (hpairs : Context.IsOneLine pairs) : (failure code message span pairs).Framed :=
  Framed.withContexts ⟨hcode, Context.isOneLine_nil⟩ hpairs

theorem oneLine_failure (hcode : OneLine code.text) (hmessage : OneLine message) (span : Option Span)
    (hpairs : Context.IsOneLine pairs) :
    (failure code message span pairs).Framed ∧ OneLine (failure code message span pairs).message :=
  oneLine_withContexts (e := (error code (shortened message)).withSpan span) ⟨hcode, Context.isOneLine_nil⟩
    (hmessage.truncate _) hpairs

end Event

end Log

/-! ### What is shown of an expression -/

/-- `t.display` has no line break, for no lexeme has one. -/
theorem IsLexeme.oneLine_display {bang : Bool} {word : List Char} {t : Token} (h : IsLexeme bang word t) :
    OneLine t.display := by
  cases h with
  | openParen | closeParen | not => decide
  | single hc | doubled hc => rcases hc with rfl | rfl <;> decide
  | @word c cs _ hstart hchars hspells =>
    cases hspells with
    | @keyword k => cases k <;> decide
    | name =>
      have hword : OneLine (String.ofList (c :: cs)) :=
        oneLine_word (List.forall_mem_cons.2 ⟨isWordChar_of_isWordStart hstart, hchars⟩)
      simp only [Token.display, oneLine_append, oneLine_toString, hword, and_true]
      decide

/-- The message of a lexical fault has no line break: its first character `c` is no blank. -/
theorem LexFault.Holds.oneLine_message {bang : Bool} {c : Char} {cs : List Char} {fault : LexFault}
    (h : fault.Holds bang c cs) (hc : isBlank c = false) (p : Position) : OneLine (fault.toError c p).message := by
  cases h with
  | character =>
    have hchar : OneLine (toString c) := by
      refine oneLine_char ?_ ?_
      all_goals
        rintro rfl
        revert hc
        decide
    unfold toError LexError.message
    simp only [oneLine_append, oneLine_toString, oneLine_nat, hchar, and_true]
    decide
  | @digitFirst more _ _ hchars =>
    have hword : OneLine (String.ofList (c :: more)) := oneLine_word hchars
    unfold toError LexError.message
    simp only [oneLine_append, oneLine_toString, oneLine_nat, hword, and_true]
    decide
  | tooLong =>
    unfold toError LexError.message
    simp only [oneLine_append, oneLine_toString, oneLine_nat, and_true]
    decide

/-- The same for every failure of `scan`. -/
theorem oneLine_message_of_scan {bang : Bool} {cs : List Char} {p : Position} {f : LexFailure}
    (h : (scan bang 0 p cs).ending = .error f) : OneLine f.error.message := by
  obtain ⟨before, c, behind, -, hc, -, hstop⟩ := exists_stop_of_scan h (Nat.zero_le _)
  rcases hstop with ⟨-, herror⟩ | ⟨-, fault, hfault, herror⟩
  · rw [herror]
    unfold LexError.message
    simp only [oneLine_append, oneLine_toString, oneLine_nat, and_true]
    decide
  · rw [herror]
    exact (holds_of_lexeme hfault).oneLine_message hc _

namespace ParseError

variable {e : ParseError} {t : Spanned Token}

/-- Neither `e.expected` nor `e.found` has a line break. -/
structure Worded (e : ParseError) : Prop where
  expected : OneLine e.expected
  found : OneLine e.found

theorem Worded.oneLine_message (h : e.Worded) : OneLine e.message := by
  cases e with
  | unexpectedToken words found span =>
    have hwords : OneLine words := h.expected
    have hfound : OneLine found := h.found
    unfold message
    simp only [oneLine_append, oneLine_toString, oneLine_nat, hwords, hfound, and_true]
    decide
  | trailingInput found span =>
    have hfound : OneLine found := h.found
    unfold message
    simp only [oneLine_append, oneLine_toString, oneLine_nat, hfound, and_true]
    decide
  | emptyExpression => exact (by decide : OneLine "Empty expression")
  | unclosedParenthesis | unopenedParenthesis | tooDeep =>
    unfold message
    simp only [oneLine_append, oneLine_toString, oneLine_nat, and_true]
    decide

theorem worded_unexpectedToken {words : String} (hwords : OneLine words) (ht : OneLine t.value.display) (span : Span) :
    (unexpectedToken words t.value.display span).Worded := ⟨hwords, ht⟩

theorem worded_unopenedParenthesis (span : Span) : (unopenedParenthesis span).Worded where
  expected := (by decide : OneLine continuationWords)
  found := (by decide : OneLine "')'")

theorem worded_tooDeep (span : Span) : (tooDeep span).Worded where
  expected := (by decide : OneLine "less deeply nested expression")
  found := (by decide : OneLine "nesting limit")

end ParseError

namespace Syntax

variable {t : Spanned Token} {before : List (Spanned Token)} {e : ParseError}

theorem worded_operandError (depth : Nat) (ht : OneLine t.value.display) : (operandError depth t).Worded := by
  unfold operandError
  split
  · split
    · exact ParseError.worded_unopenedParenthesis _
    · exact ParseError.worded_unexpectedToken (by decide) ht _
  · exact ParseError.worded_unexpectedToken (by decide) ht _

theorem worded_closingError (opener : Span) (ht : OneLine t.value.display) : (closingError opener t).Worded := by
  unfold closingError
  split
  · exact ⟨(by decide : OneLine "')'"), ht⟩
  · exact ParseError.worded_unexpectedToken (by decide) ht _

theorem worded_afterError (ht : OneLine t.value.display) : (afterError t).Worded := by
  unfold afterError
  split
  · exact ParseError.worded_unopenedParenthesis _
  · exact ⟨(by decide : OneLine ParseError.continuationWords), ht⟩

/-- If a rule `FailsAt t` and `t.display` has no line break, the error has none. -/
theorem FailsAt.worded {r : Grammar.Rule} {depth : Nat} (h : FailsAt t r depth before e)
    (ht : OneLine t.value.display) : e.Worded := by
  induction h with
  | orFirst _ ih | orNext _ ih | andFirst _ ih | andNext _ ih | plain _ ih => exact ih
  | orOthers _ _ ih | orLater _ _ ih | andOthers _ _ ih | andLater _ _ ih | negated _ _ ih | grouped _ _ ih => exact ih
  | deepNegation | deepGroup => exact ParseError.worded_tooDeep t.span
  | operand => exact worded_operandError _ ht
  | closing => exact worded_closingError _ ht

/-- **Streams.** The same for `parse` of tokens without line breaks. -/
theorem worded_of_parse {s : TokenStream} (h : (parse s).value = .error e)
    (hs : ∀ t ∈ s.body, OneLine t.value.display) : e.Worded := by
  obtain ⟨before, tail, hbody, hrefused⟩ := parse_eq_error_iff.1 h
  have ht : OneLine (headToken s.final tail).value.display := by
    rcases headToken_mem_or s.final tail with hmem | hend
    · exact hs _ (hbody ▸ List.mem_append_right before hmem)
    · rw [hend]
      exact (by decide : OneLine "end of input")
  cases hrefused with
  | empty => exact ⟨(by decide : OneLine ParseError.operandWords), (by decide : OneLine "end of input")⟩
  | inside _ hfails => exact hfails.worded ht
  | after => exact worded_afterError ht

end Syntax

/-! ### What is shown of a parameter string -/

namespace Parameters

variable {p : Preferences.Binding} {raw : String}

/-- The characters of a `part` are among those of `sep.intercalate parts`. -/
theorem subset_intercalate {sep part : List Char} {parts : List (List Char)} (h : part ∈ parts) :
    part ⊆ sep.intercalate parts := by
  induction parts with
  | nil => cases h
  | cons first parts ih =>
    cases parts with
    | nil =>
      rw [List.mem_singleton.1 h, List.intercalate_singleton]
      exact List.Subset.refl _
    | cons next parts =>
      rw [List.intercalate_cons_cons]
      intro c hc
      rcases List.mem_cons.1 h with rfl | h
      · exact List.mem_append_left _ (List.mem_append_left _ hc)
      · exact List.mem_append_right _ (ih h hc)

/-- What is read of a name or a value is a part of what is `written`. -/
theorem Cleans.subset {written cs : List Char} (h : Cleans p written cs) : cs ⊆ written := by
  cases h with
  | kept => exact List.Subset.refl _
  | trimmed =>
    intro c hc
    exact List.mem_append_left _ (List.mem_append_right _ hc)

/-- A fault of a `segment` without line breaks has a message without. -/
theorem IsFault.oneLine_message {index : Nat} {segment : List Char} {err : BindingError}
    (h : IsFault p index segment err) (hsegment : OneLine (String.ofList segment)) : OneLine err.message := by
  cases h with
  | missingSeparator =>
    unfold BindingError.message
    simp only [oneLine_append, oneLine_toString, oneLine_nat, hsegment, and_true]
    decide
  | emptyName =>
    unfold BindingError.message
    simp only [oneLine_append, oneLine_toString, oneLine_nat, and_true]
    decide
  -- Both texts of the message are what cleaning leaves of a stretch of the segment.
  | @invalidBoolean rawName rawValue name value hsplit hname hne hvalue hnone =>
    obtain ⟨rfl, -⟩ := hsplit
    rw [oneLine_ofList] at hsegment
    have hnameLine : OneLine name := fun c hc => hsegment c (List.mem_append_left _ (hname.subset hc))
    have hvalueLine : OneLine value := fun c hc =>
      hsegment c (List.mem_append_right _ (List.mem_cons_of_mem _ (hvalue.subset hc)))
    unfold BindingError.message
    simp only [oneLine_append, oneLine_toString, hnameLine, hvalueLine, and_true]
    decide

/-- **Parameter strings.** If `raw` has no line break, the error of `bind` has none. -/
theorem oneLine_message_of_bind {err : BindingError} (h : (bind p raw).value = .error err) (hraw : OneLine raw) :
    OneLine err.message := by
  obtain ⟨meaning, hmeaning⟩ := exists_meaning p raw
  have hvalue := value_of_meaning hmeaning
  rw [h] at hvalue
  subst hvalue
  cases hmeaning with
  | tooLong | tooMany =>
    unfold BindingError.message
    simp only [oneLine_append, oneLine_toString, oneLine_nat, and_true]
    decide
  | @fault before behind segment _ _ _ _ hsegments _ _ hfault =>
    refine hfault.oneLine_message (oneLine_ofList.2 fun c hc => hraw c ?_)
    rw [← hsegments.joined]
    exact subset_intercalate (List.mem_append_right before List.mem_cons_self) hc

end Parameters

/-! ### Stages -/

section MapError

variable {α δ ε : Type}

theorem mapError_eq_ok {x : Except ε α} {f : ε → δ} {a : α} : x.mapError f = .ok a ↔ x = .ok a := by
  cases x <;> simp [Except.mapError]

theorem mapError_eq_error {x : Except ε α} {f : ε → δ} {e : δ} :
    x.mapError f = .error e ↔ ∃ e', x = .error e' ∧ f e' = e := by
  cases x <;> simp [Except.mapError]

end MapError

theorem PipelineError.oneLine_code (e : PipelineError) : OneLine e.code.text := by
  unfold code
  cases e with
  | lex e =>
    show OneLine e.code.text
    unfold LexError.code
    split <;> decide
  | parse e =>
    show OneLine e.code.text
    unfold ParseError.code
    split <;> decide
  | binding e =>
    show OneLine e.code.text
    unfold BindingError.code
    split <;> decide
  | evaluation e =>
    show OneLine e.code.text
    unfold EvaluationError.code
    split <;> decide

/-- `reading` never fails with an error of `bind`. -/
theorem CacheKey.reading_ne_binding {key : CacheKey} (err : BindingError) : key.reading ≠ .error (.binding err) := by
  unfold reading
  intro h
  rcases Syntax.bind_eq_error.1 h with h | ⟨tokens, -, h⟩
  all_goals
    obtain ⟨e, -, he⟩ := mapError_eq_error.1 h
    cases he

namespace Pipeline

variable {p : Preferences} {α β ε : Type}

/-- If `result` is an error of `bind`, the part of its message that is logged has no line break. -/
def ReadsOneLine (result : Except PipelineError α) : Prop :=
  ∀ err : BindingError, result = .error (.binding err) → OneLine (Log.Event.shortened err.message)

/-- No line break stands in the code or the context of an event of `x`, and none in a message but that of an error
of `bind`. -/
structure Quoting (x : Log.Logged (Except PipelineError α)) : Prop where
  framed : ∀ e ∈ x.events, e.Framed
  messages : (∀ e ∈ x.events, OneLine e.message) ↔ ReadsOneLine x.value

theorem Quoting.cons {x : Log.Logged (Except PipelineError α)} {e : Log.Event} (h : Quoting x)
    (he : e.Framed ∧ OneLine e.message) : Quoting ⟨x.value, e :: x.events⟩ where
  framed := List.forall_mem_cons.2 ⟨he.1, h.framed⟩
  messages := List.forall_mem_cons.trans ((and_iff_right he.2).trans h.messages)

/-- `Quoting` for a result with one event. -/
theorem quoting_noting {a : α} {e : Log.Event} (he : e.Framed ∧ OneLine e.message) :
    Quoting (.noting (.ok a) e) where
  framed := List.forall_mem_singleton.2 he.1
  messages := by
    refine iff_of_true (List.forall_mem_singleton.2 he.2) fun err herr => ?_
    cases herr

/-- A stage that does not read the parameter string (`hf`) and has no line breaks. -/
theorem quoting_mapError {x : Log.Logged (Except ε α)} {f : ε → PipelineError}
    (hevents : ∀ e ∈ x.events, e.Framed ∧ OneLine e.message) (hf : ∀ e err, f e ≠ .binding err) :
    Quoting (x.mapError f) where
  framed := fun e he => (hevents e he).1
  messages := by
    refine iff_of_true (fun e he => (hevents e he).2) fun err herr => ?_
    obtain ⟨e, -, he⟩ := mapError_eq_error.1 herr
    exact absurd he (hf e err)

/-- `Quoting` for one stage behind another. -/
theorem Quoting.andThen {x : Log.Logged (Except PipelineError α)} {f : α → Log.Logged (Except PipelineError β)}
    (h : Quoting x) (hf : ∀ a, x.value = .ok a → Quoting (f a)) : Quoting (x.andThen f) := by
  cases hx : x.value with
  | error err =>
    rw [Log.Logged.andThen_of_error hx]
    refine ⟨h.framed, h.messages.trans ?_⟩
    rw [hx]
    exact forall_congr' fun e => imp_congr_left (by simp)
  | ok a =>
    -- The first stage has no line breaks, so that all of them are those of the second.
    have hfirst : ∀ e ∈ x.events, OneLine e.message := h.messages.2 fun err herr => by cases hx.symm.trans herr
    have hsecond := hf a hx
    rw [Log.Logged.andThen_of_ok hx]
    refine ⟨List.forall_mem_append.2 ⟨h.framed, hsecond.framed⟩, ?_⟩
    rw [← hsecond.messages, List.forall_mem_append]
    exact and_iff_right hfirst

theorem quoting_tokenize (p : Preferences.Lexical) (text : String) :
    Quoting ((tokenize p text).mapError PipelineError.lex) := by
  refine quoting_mapError ?_ nofun
  unfold tokenize Lexer.tokenize
  dsimp only
  split
  · exact List.forall_mem_singleton.2 (Log.Event.oneLine_failure (by decide) (by decide) _
      ((Log.Context.isOneLine_nil.count (by decide) _).count (by decide) _))
  · split
    · exact List.forall_mem_singleton.2 (Log.Event.oneLine_stage (by decide) (by decide)
        (((Log.Context.isOneLine_nil.count (by decide) _).count (by decide) _).count (by decide) _))
    · next f h =>
      refine List.forall_mem_singleton.2 ?_
      have hmessage := oneLine_message_of_scan h
      have hcode := (PipelineError.lex f.error).oneLine_code
      unfold Lexer.failureEvent
      split
      · exact Log.Event.oneLine_failure hcode (by decide) _ (Log.Context.isOneLine_nil.count (by decide) _)
      · exact Log.Event.oneLine_failure hcode hmessage _ Log.Context.isOneLine_nil

theorem quoting_parse {tokens : TokenStream} (htokens : ∀ t ∈ tokens.body, OneLine t.value.display) :
    Quoting ((parse tokens).mapError PipelineError.parse) := by
  refine quoting_mapError (List.forall_mem_singleton.2 ?_) nofun
  have hworded {e : ParseError} (h : (Syntax.parseTokens tokens.final tokens.body).result = .error e) : e.Worded :=
    Syntax.worded_of_parse h htokens
  unfold Syntax.Parse.event
  split
  · exact Log.Event.oneLine_stage (by decide) (by decide)
      ((Log.Context.isOneLine_nil.count (by decide) _).count (by decide) _)
  · next e h =>
    have hcode := (PipelineError.parse e).oneLine_code
    exact Log.Event.oneLine_failure hcode (hworded h).oneLine_message _
      ((Log.Context.isOneLine_nil.cons (by decide) (hworded h).found).cons (by decide) (hworded h).expected)

/-- `bind` is the one stage whose message quotes the parameter string. -/
theorem quoting_bind (p : Preferences.Binding) (values : String) :
    Quoting ((bind p values).mapError PipelineError.binding) := by
  unfold bind
  dsimp only
  cases h : Parameters.read p values with
  | ok b =>
    obtain ⟨hframed, hmessage⟩ := Log.Event.oneLine_stage (by decide : OneLine Log.Code.bindingComplete.text)
      (by decide : OneLine "Binding completed")
      (Log.Context.isOneLine_nil.count (by decide : OneLine "bindings") b.size)
    refine ⟨List.forall_mem_singleton.2 hframed, iff_of_true (List.forall_mem_singleton.2 hmessage) ?_⟩
    intro err herr
    cases herr
  | error err =>
    refine ⟨List.forall_mem_singleton.2 (Log.Event.framed_failure (PipelineError.binding err).oneLine_code _ _
      (Log.Context.isOneLine_nil.count (by decide) _)), ?_⟩
    refine List.forall_mem_singleton.trans ?_
    rw [Log.Event.failure_eq]
    refine ⟨fun hmessage e he => ?_, fun h => h err rfl⟩
    obtain rfl : err = e := PipelineError.binding.inj (Except.error.inj he)
    exact hmessage

/-- `evaluate` names a variable of `tree`, so these must have no line break. -/
theorem quoting_value (p : Preferences.Evaluation) {tree : Expr} (htree : ∀ name ∈ tree.names, OneLine name)
    (b : Bindings) : Quoting ((BoolCalc.evaluate p tree b).mapError PipelineError.evaluation) := by
  refine quoting_mapError ?_ nofun
  unfold BoolCalc.evaluate
  dsimp only
  split
  · next value _ =>
    have hvalue : OneLine (Expr.boolText value) := by cases value <;> decide
    exact List.forall_mem_singleton.2 (Log.Event.oneLine_stage (by decide) (by decide)
      ((Log.Context.isOneLine_nil.count (by decide) _).cons (by decide) hvalue))
  · next err h =>
    have hcode := (PipelineError.evaluation err).oneLine_code
    refine List.forall_mem_singleton.2 ?_
    cases err with
    | tooDeep =>
      have hmessage : OneLine EvaluationError.tooDeep.message := by decide
      exact Log.Event.oneLine_failure hcode hmessage _
        (Log.Context.isOneLine_nil.cons (by decide) (by decide : OneLine "-"))
    | unboundVariable name =>
      -- The variable is one of the tree.
      rw [← Evaluation.evaluate_value_eq_run, evaluate_eq_unbound_iff] at h
      have hname := htree name (List.mem_of_find?_eq_some h)
      have hmessage : OneLine (EvaluationError.unboundVariable name).message := by
        unfold EvaluationError.message
        simp only [oneLine_append, oneLine_toString, hname, and_true]
        decide
      exact Log.Event.oneLine_failure hcode hmessage _ (Log.Context.isOneLine_nil.cons (by decide) hname)

/-! ### Calls -/

variable {expression values : String} {cached : Bool} {found : Option Expr}

/-- `toldTree` comes to `treeOf`, with or without a tree from the cache. -/
theorem toldTree_value (hfound : (keyOf p expression).MayHold cached found) :
    (toldTree p expression found).value = treeOf p expression := by
  rw [toldTree_eq rfl]
  cases found with
  | none => exact toldReading_value p _
  | some tree => exact (hfound tree rfl).2.symm

/-- `told` comes to `answerOf`. -/
theorem told_value (hfound : (keyOf p expression).MayHold cached found) (elapsed : Nat) (values : String) :
    (told p elapsed expression values found).value = answerOf p expression values := by
  rw [told, Log.Logged.andThen_value, toldTree_value hfound, answerOf]
  refine congrArg (Except.bind (treeOf p expression)) (funext fun tree => ?_)
  rw [toldAnswer, Log.Logged.andThen_value]
  refine congrArg (Except.bind _) (funext fun b => ?_)
  rw [Log.Logged.andThen_value]
  rfl

theorem quoting_toldTree (p : Preferences) (expression : String) (found : Option Expr) :
    Quoting (toldTree p expression found) := by
  have hnormal := Log.Event.oneLine_stage (by decide : OneLine Log.Code.normalizationComplete.text)
    (by decide : OneLine "Expression normalized")
    ((Log.Context.isOneLine_nil.count (by decide : OneLine "rewrites") (normalize expression).value.changes).count
      (by decide : OneLine "length") expression.utf8ByteSize)
  rw [toldTree_eq rfl]
  cases found with
  | some tree =>
    exact (quoting_noting (Log.Event.oneLine_stage (by decide) (by decide)
      (Log.Context.isOneLine_nil.count (by decide) _))).cons hnormal
  | none =>
    refine Quoting.cons ?_ hnormal
    refine (quoting_tokenize p.lexical _).andThen fun tokens htokens => quoting_parse fun t ht => ?_
    -- What stands in a place of the stream is a lexeme of the text.
    have hvalue : (tokenize p.lexical (normalize expression).value.text).value = .ok tokens :=
      mapError_eq_ok.1 htokens
    obtain ⟨-, word, -, -, hword, -⟩ := Lexer.exists_lexeme_of_mem (l := { preferences := p.lexical }) hvalue ht
    exact hword.oneLine_display

/-- **Evaluations.** Only a parameter string that cannot be read brings a line break into the events of `told`. -/
theorem quoting_told (hfound : (keyOf p expression).MayHold cached found) (elapsed : Nat) (values : String) :
    Quoting (told p elapsed expression values found) := by
  refine (quoting_toldTree p expression found).andThen fun tree htree => ?_
  rw [toldTree_value hfound] at htree
  have hnames : ∀ name ∈ tree.names, OneLine name := by
    intro name hname
    rw [← String.ofList_toList (s := name)]
    exact oneLine_word (CacheKey.isName_of_reading htree hname).chars
  refine (quoting_bind p.binding values).andThen fun b _ => ?_
  refine (quoting_value p.evaluation hnames b).andThen fun result _ => ?_
  have hresult : OneLine (Expr.boolText result) := by cases result <;> decide
  exact quoting_noting (Log.Event.oneLine_stage (by decide) (by decide)
    ((Log.Context.isOneLine_nil.count (by decide) _).cons (by decide) hresult))

/-- If `answerOf` is an error of `bind`, `bind` fails with it. -/
theorem bind_of_answerOf {err : BindingError} (h : answerOf p expression values = .error (.binding err)) :
    (bind p.binding values).value = .error err := by
  rcases Syntax.bind_eq_error.1 h with h | ⟨tree, -, h⟩
  · exact absurd h (CacheKey.reading_ne_binding err)
  · rcases Syntax.bind_eq_error.1 h with h | ⟨b, -, h⟩
    · obtain ⟨e, he, heq⟩ := mapError_eq_error.1 h
      rw [he, PipelineError.binding.inj heq]
    · rcases Syntax.bind_eq_error.1 h with h | ⟨result, -, h⟩
      · obtain ⟨e, -, he⟩ := mapError_eq_error.1 h
        cases he
      · cases h

/-- If `values` has no line break, neither has the logged part of an error of `bind`. -/
theorem readsOneLine_of_oneLine (p : Preferences) (expression : String) (hvalues : OneLine values) :
    ReadsOneLine (answerOf p expression values) := fun _ herr =>
  (Parameters.oneLine_message_of_bind (bind_of_answerOf herr) hvalues).truncate _

end Pipeline

end BoolCalc
