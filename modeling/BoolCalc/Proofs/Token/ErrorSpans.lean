import BoolCalc.Proofs.Text.Offsets
import BoolCalc.Proofs.Token.Lexing

namespace BoolCalc

/-!
# The spans of logged failures

* `LexFailure.Sound`, `sound_of_scan` : the span of a failure starts at its offset, and no scan fails because of the
  length of the text;
* `LexError.shownOffset?` : where the span of the event about a failure starts, if it has one;
* `Lexer.errorEvents_tokenize` : **spans**, the errors that are logged about a text, with the starts of their spans;
* `Lexer.errorSpans_parentheses` : a token too many is logged with its span even when no positions are wanted.
-/

variable {bang : Bool} {c : Char} {cs : List Char} {count : Nat} {p : Position} {f : LexFailure}

/-! ### Failures of a scan -/

/-- The span of `f` starts at the offset of its error, which is not `.expressionTooLong`. -/
structure LexFailure.Sound (f : LexFailure) : Prop where
  start_offset : f.span.start.offset = f.error.offset
  inText : ∀ n, f.error ≠ .expressionTooLong n

theorem LexFault.sound_toError (fault : LexFault) (c : Char) (p : Position) :
    LexFailure.Sound ⟨fault.toError c p, .ofChar p c⟩ := by
  cases fault <;> exact ⟨rfl, nofun⟩

/-- `scan` at a character with no room for one more token. -/
theorem sound_of_scan_full (hc : Text.isBlank c = false) (hfull : Limits.tokens ≤ count)
    (h : (scan bang count p (c :: cs)).ending = .error f) : f.Sound := by
  rw [scan_full hc hfull] at h
  cases h
  exact ⟨rfl, nofun⟩

/-- **Failures.** If `scan` fails with `f`, then `f` is `Sound`. -/
theorem sound_of_scan (h : (scan bang count p cs).ending = .error f) : f.Sound := by
  induction cs using scanInduction bang generalizing count p with
  | nil =>
    rw [scan_nil] at h
    cases h
  | blank c cs hc ih =>
    rw [scan_blank hc] at h
    exact ih h
  | fault c cs fault hc hl =>
    rcases Nat.lt_or_ge count Limits.tokens with hfew | hfull
    · rw [scan_fault hc hfew hl] at h
      cases h
      exact fault.sound_toError c p
    · exact sound_of_scan_full hc hfull h
  | token c cs l hc hl ih =>
    rcases Nat.lt_or_ge count Limits.tokens with hfew | hfull
    · rw [scan_token hc hfew hl] at h
      exact ih h
    · exact sound_of_scan_full hc hfull h

/-! ### Logged errors -/

/-- Where the span of the event about an error starts, if the event has a span. The preference for `positions`
matters for the errors of single tokens only. -/
def LexError.shownOffset? (positions : Bool) : LexError → Option Nat
  | .expressionTooLong _ => none
  | .tooManyTokens offset => some offset
  | e => if positions then some e.offset else none

namespace Lexer

/-- `failureEvent` is an error with the code of `f`, and its span, if it has one, starts where `f` is. -/
theorem failureEvent_parts (preferences : Preferences.Lexical) (hf : f.Sound) :
    let e := failureEvent preferences f
    e.isError = true ∧ e.code = f.error.code ∧
      e.span.map (·.start.offset) = f.error.shownOffset? preferences.includePositions := by
  obtain ⟨error, span⟩ := f
  obtain ⟨hstart, hinText⟩ := hf
  -- The span of a failure of a single token is there if positions are wanted.
  have hchosen : Option.map (·.start.offset) (if preferences.includePositions then some span else none) =
      if preferences.includePositions then some error.offset else none := by
    rw [← hstart]
    split <;> rfl
  cases error with
  | expressionTooLong n => exact absurd rfl (hinText n)
  | tooManyTokens offset => exact ⟨rfl, rfl, congrArg some hstart⟩
  | invalidCharacter | invalidIdentifier | identifierTooLong => exact ⟨rfl, rfl, hchosen⟩

/-- The one event of a text that is scanned up to the failure `f`. -/
theorem events_of_failure {l : Lexer} {text : String} (hshort : text.utf8ByteSize ≤ Limits.expression)
    (h : (scan l.preferences.acceptBang 0 .start text.toList).ending = .error f) :
    (l.tokenize text).events = [failureEvent l.preferences f] := by
  unfold tokenize
  dsimp only
  rw [if_neg (Nat.not_lt.2 hshort), h]
  rfl

/-- **Spans.** The errors among the events of `l.tokenize text`, each with its code and the offset where its span
starts. If `text` has tokens there are none, else exactly one, with the code of the error `e` and the offset
`e.shownOffset?`:
* none for a text that is too long;
* that of the token for one too many, whatever the preferences say;
* that of any other error if and only if `includePositions`. -/
theorem errorEvents_tokenize (l : Lexer) (text : String) :
    ((l.tokenize text).events.filter Log.Event.isError).map (fun e => (e.code, e.span.map (·.start.offset))) =
      match (l.tokenize text).value.1 with
      | .ok _ => []
      | .error e => [(e.code, e.shownOffset? l.preferences.includePositions)] := by
  unfold tokenize
  dsimp only
  split
  · rfl
  · cases hending : (scan l.preferences.acceptBang 0 .start text.toList).ending with
    | ok q => rfl
    | error f =>
      obtain ⟨herror, hcode, hspan⟩ := failureEvent_parts l.preferences (sound_of_scan hending)
      show List.map _ (List.filter _ [failureEvent l.preferences f]) = [_]
      rw [List.filter_cons, if_pos herror]
      exact congrArg (fun part => [part]) (Prod.ext hcode hspan)

/-! ### A token too many -/

/-- Among `(` only, the first one too many is at fault. -/
theorem scan_parentheses (k : Nat) (hcount : count + k = Limits.tokens) :
    (scan bang count p (List.replicate (k + 1) '(')).ending =
      .error ⟨.tooManyTokens (p.offset + k), .point ⟨p.offset + k, p.line, p.column + k⟩⟩ := by
  have hblank : Text.isBlank '(' = false := by decide
  induction k generalizing count p with
  | zero =>
    have hfull : Limits.tokens ≤ count := by omega
    rw [List.replicate_succ, scan_full hblank hfull]
    rfl
  | succ k ih =>
    have hopen : lexeme bang '(' (List.replicate (k + 1) '(') = .ok ⟨.openParen, [], List.replicate (k + 1) '('⟩ := rfl
    have hadvance : p.advanceOver ['('] = ⟨p.offset + 1, p.line, p.column + 1⟩ := rfl
    rw [List.replicate_succ, scan_token hblank (by omega) hopen, ih (by omega), hadvance]
    simp only [Nat.add_assoc, Nat.add_comm 1 k]

/-- `Limits.tokens` times `(`, and one more. -/
def parentheses : String := String.ofList (List.replicate (Limits.tokens + 1) '(')

theorem parentheses_short : parentheses.utf8ByteSize ≤ Limits.expression := by
  have hbytes (n : Nat) : Text.byteLength (List.replicate n '(') = n := by
    induction n with
    | zero => rfl
    | succ n ih => rw [List.replicate_succ, Text.byteLength_cons, ih, Nat.add_comm]; rfl
  rw [← Text.byteLength_toList, parentheses, String.toList_ofList, hbytes]
  decide

/-- Without `includePositions`, the `(` too many is logged with its span all the same. -/
theorem errorSpans_parentheses :
    let l : Lexer := { preferences := { includePositions := false } }
    ((l.tokenize parentheses).events.filter Log.Event.isError).map Log.Event.span =
      [some (.point ⟨10000, 1, 10001⟩)] := by
  intro l
  have hending : (scan true 0 .start parentheses.toList).ending =
      .error ⟨.tooManyTokens 10000, .point ⟨10000, 1, 10001⟩⟩ := by
    rw [parentheses, String.toList_ofList, scan_parentheses _ (Nat.zero_add _)]
    rfl
  rw [events_of_failure parentheses_short hending]
  rfl

end Lexer

end BoolCalc
