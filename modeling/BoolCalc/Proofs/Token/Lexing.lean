import BoolCalc.Proofs.Text.Decimal
import BoolCalc.Token.Lexer

namespace BoolCalc

/-!
# Which characters make which tokens

* `IsWord`, `IsName` : the words of a text, and those that can name a variable;
* `Lexes` : characters and the tokens they make, without positions and limits;
* `scanInduction` : induction over a text as it is scanned;
* `scan_of_lexes` : such characters are scanned into these tokens, unless there are too many of them;
* `lexes_of_scan` : no other characters are scanned to their end;
* `tokenize_eq_ok_iff` : when a text has tokens;
* `Lexes.isBlank_of_mem`, `Lexes.isName` : without tokens there are blanks only; identifiers are names of variables.
-/

/-! ### Words -/

namespace Text

/-- A code point in some `ranges` is one of those they go through. -/
theorem mem_of_inRanges {ranges : List (Nat × Nat)} {n : Nat} (h : inRanges ranges n = true) :
    n ∈ ranges.flatMap fun r => List.range' r.1 (r.2 + 1 - r.1) := by
  obtain ⟨r, hr, hn⟩ := List.any_eq_true.1 h
  simp only [Bool.and_eq_true, decide_eq_true_eq] at hn
  refine List.mem_flatMap.2 ⟨r, hr, List.mem_range'_1.2 ⟨hn.1, ?_⟩⟩
  omega

theorem isBlank_eq_false {c : Char} (h : isWordChar c = true) : isBlank c = false := by
  have hblanks : ∀ n ∈ blankRanges.flatMap (fun r => List.range' r.1 (r.2 + 1 - r.1)),
      isWordChar (Char.ofNat n) = false := by decide +kernel
  rw [Bool.eq_false_iff]
  intro hblank
  have hc := hblanks c.toNat (mem_of_inRanges hblank)
  rw [Char.ofNat_toNat, h] at hc
  exact Bool.noConfusion hc

end Text

/-- `word` is a word that is not too long. -/
structure IsWord (word : List Char) : Prop where
  start : ∃ c cs, word = c :: cs ∧ Text.isWordStart c = true
  chars : ∀ c ∈ word, Text.isWordChar c = true
  short : Text.byteLength word ≤ Limits.identifier

theorem IsWord.ne_nil {word : List Char} (h : IsWord word) : word ≠ [] := by
  obtain ⟨c, cs, rfl, -⟩ := h.start
  exact List.cons_ne_nil c cs

/-- `word` can name a variable: it is no keyword. -/
structure IsName (word : List Char) : Prop extends IsWord word where
  free : Keyword.ofWord? word = none

/-! ### Characters and tokens -/

/-- The characters make the tokens, one `lexeme` after the other. Blanks make none. -/
inductive Lexes (bang : Bool) : List Char → List Token → Prop where
  | nil : Lexes bang [] []
  | blank {c : Char} {cs : List Char} {ts : List Token} :
      Text.isBlank c = true → Lexes bang cs ts → Lexes bang (c :: cs) ts
  | token {c : Char} {cs : List Char} {l : Lexeme} {ts : List Token} :
      Text.isBlank c = false → lexeme bang c cs = .ok l → Lexes bang l.rest ts →
      Lexes bang (c :: cs) (l.token :: ts)

variable {bang : Bool} {c : Char} {cs rest : List Char} {ts : List Token} {count : Nat} {p : Position}

/-! ### Equations of the scan -/

theorem scan_nil : scan bang count p [] = ⟨[], .ok p⟩ := by rw [scan]

theorem scan_blank (h : Text.isBlank c = true) :
    scan bang count p (c :: cs) = scan bang count (p.advance c) cs := by
  rw [scan, if_pos h]

theorem scan_full (h : Text.isBlank c = false) (hcount : Limits.tokens ≤ count) :
    scan bang count p (c :: cs) = ⟨[], .error ⟨.tooManyTokens p.offset, .point p⟩⟩ := by
  rw [scan, if_neg (Bool.eq_false_iff.1 h), if_pos hcount]

theorem scan_token {l : Lexeme} (h : Text.isBlank c = false) (hcount : count < Limits.tokens)
    (hl : lexeme bang c cs = .ok l) :
    scan bang count p (c :: cs) =
      ⟨⟨l.token, ⟨p, p.advanceOver (c :: l.more)⟩⟩ ::
        (scan bang (count + 1) (p.advanceOver (c :: l.more)) l.rest).tokens,
       (scan bang (count + 1) (p.advanceOver (c :: l.more)) l.rest).ending⟩ := by
  rw [scan, if_neg (Bool.eq_false_iff.1 h), if_neg (Nat.not_le.2 hcount)]
  split
  · next fault hfault => rw [hl] at hfault; cases hfault
  · next l' hl' =>
    obtain rfl := Except.ok.inj (hl.symm.trans hl')
    rfl

theorem scan_fault {fault : LexFault} (h : Text.isBlank c = false) (hcount : count < Limits.tokens)
    (hfault : lexeme bang c cs = .error fault) :
    scan bang count p (c :: cs) = ⟨[], .error ⟨fault.toError c p, .ofChar p c⟩⟩ := by
  rw [scan, if_neg (Bool.eq_false_iff.1 h), if_neg (Nat.not_le.2 hcount)]
  split
  · next fault' hfault' =>
    obtain rfl := Except.error.inj (hfault.symm.trans hfault')
    rfl
  · next l hl => rw [hfault] at hl; cases hl

/-- Induction over a text as `scan` goes through it: a blank and then the others, or the first token and then those
behind it. -/
theorem scanInduction {P : List Char → Prop} (bang : Bool) (nil : P [])
    (blank : ∀ c cs, Text.isBlank c = true → P cs → P (c :: cs))
    (fault : ∀ c cs fault, Text.isBlank c = false → lexeme bang c cs = .error fault → P (c :: cs))
    (token : ∀ c cs l, Text.isBlank c = false → lexeme bang c cs = .ok l → P l.rest → P (c :: cs))
    (cs : List Char) : P cs := by
  -- What follows a token is no tail of the list, so that the length has to decrease.
  induction hn : cs.length using Nat.strongRecOn generalizing cs with
  | ind n ih =>
    subst hn
    cases cs with
    | nil => exact nil
    | cons c cs =>
      cases hc : Text.isBlank c with
      | true => exact blank c cs hc (ih _ (Nat.lt_succ_self _) cs rfl)
      | false =>
        cases hl : lexeme bang c cs with
        | error f => exact fault c cs f hc hl
        | ok l => exact token c cs l hc hl (ih _ (Nat.lt_succ_of_le (lexeme_rest_length_le hl)) l.rest rfl)

/-- **The scan of a text that has tokens.** If `cs` makes `ts`, these are the tokens of `scan`, unless they are too
many; then it fails with `.tooManyTokens`. -/
theorem scan_of_lexes (h : Lexes bang cs ts) (count : Nat) (p : Position) :
    (count + ts.length ≤ Limits.tokens → (scan bang count p cs).tokens.map Spanned.value = ts ∧
      ∃ q, (scan bang count p cs).ending = .ok q) ∧
    (count ≤ Limits.tokens → Limits.tokens < count + ts.length → ∃ offset span,
      (scan bang count p cs).ending = .error ⟨.tooManyTokens offset, span⟩) := by
  induction h generalizing count p with
  | nil =>
    rw [scan_nil]
    exact ⟨fun _ => ⟨rfl, p, rfl⟩, fun h h' => absurd h (Nat.not_le.2 h')⟩
  | blank hc _ ih =>
    rw [scan_blank hc]
    exact ih count _
  | @token c cs l ts hc hl _ ih =>
    rcases Nat.lt_or_ge count Limits.tokens with hlt | hge
    · obtain ⟨hfew, hmany⟩ := ih (count + 1) (p.advanceOver (c :: l.more))
      rw [scan_token hc hlt hl, List.length_cons, Nat.add_comm ts.length, ← Nat.add_assoc]
      refine ⟨fun h => ?_, fun _ => hmany hlt⟩
      obtain ⟨htokens, hending⟩ := hfew h
      exact ⟨congrArg (l.token :: ·) htokens, hending⟩
    · rw [scan_full hc hge, List.length_cons]
      exact ⟨fun h => absurd h (by omega), fun _ _ => ⟨_, _, rfl⟩⟩

/-- **A scan that comes to its end.** If `ending` is `.ok q`, the characters make the tokens that were scanned. -/
theorem lexes_of_scan {q : Position} (h : (scan bang count p cs).ending = .ok q) :
    Lexes bang cs ((scan bang count p cs).tokens.map Spanned.value) := by
  induction cs using scanInduction bang generalizing count p with
  | nil =>
    rw [scan_nil]
    exact .nil
  | blank c cs hc ih =>
    rw [scan_blank hc] at h ⊢
    exact .blank hc (ih h)
  -- A scan that succeeds meets no fault and does not run out of tokens.
  | fault c cs fault hc hl =>
    rcases Nat.lt_or_ge count Limits.tokens with hfew | hfull
    · rw [scan_fault hc hfew hl] at h
      cases h
    · rw [scan_full hc hfull] at h
      cases h
  | token c cs l hc hl ih =>
    rcases Nat.lt_or_ge count Limits.tokens with hfew | hfull
    · rw [scan_token hc hfew hl] at h ⊢
      exact .token hc hl (ih h)
    · rw [scan_full hc hfull] at h
      cases h

/-! ### The tokens of a text -/

/-- What a scan comes to: the stream of its `tokens` if `ending` is `.ok`, else its error. -/
def Scan.result (s : Scan) : Except LexError TokenStream :=
  match s.ending with
  | .ok q => .ok { body := s.tokens, final := .point q }
  | .error f => .error f.error

theorem Scan.result_eq_ok_iff {scan : Scan} {s : TokenStream} : scan.result = .ok s ↔
    ∃ q, scan.ending = .ok q ∧ s = { body := scan.tokens, final := .point q } := by
  rw [result]
  cases scan.ending with
  | error f => simp
  | ok q => simp [eq_comm]

/-- `l.tokenize` is the `result` of `scan` for a text within `Limits.expression`, whatever `l` has read before. -/
theorem Lexer.tokenize_fst (l : Lexer) (text : String) :
    (l.tokenize text).value.1 =
      if Limits.expression < text.utf8ByteSize then .error (.expressionTooLong text.utf8ByteSize)
      else (scan l.preferences.acceptBang 0 .start text.toList).result := by
  unfold Lexer.tokenize Scan.result
  dsimp only
  split
  · rfl
  · cases (scan l.preferences.acceptBang 0 .start text.toList).ending <;> rfl

/-- **Tokens.** `l.tokenize text` is a stream if `text` is within `Limits.expression` and `scan` comes to its end. -/
theorem Lexer.tokenize_eq_ok_iff (l : Lexer) {text : String} {s : TokenStream} :
    (l.tokenize text).value.1 = .ok s ↔ text.utf8ByteSize ≤ Limits.expression ∧
      ∃ q, (scan l.preferences.acceptBang 0 .start text.toList).ending = .ok q ∧
        s = { body := (scan l.preferences.acceptBang 0 .start text.toList).tokens, final := .point q } := by
  rw [l.tokenize_fst, ← Nat.not_lt, ← Scan.result_eq_ok_iff]
  by_cases hlong : Limits.expression < text.utf8ByteSize <;> simp [hlong]

/-- The same for `tokenize` as a function of the preferences. -/
theorem tokenize_eq_ite (p : Preferences.Lexical) (text : String) :
    (tokenize p text).value =
      if Limits.expression < text.utf8ByteSize then .error (.expressionTooLong text.utf8ByteSize)
      else (scan p.acceptBang 0 .start text.toList).result :=
  Lexer.tokenize_fst { preferences := p } text

/-- `tokenize` of `text` is the stream `s` exactly if `text` is within `Limits.expression` and `scan` comes to its
end with `s`. -/
theorem tokenize_eq_ok_iff {text : String} {s : TokenStream} :
    (tokenize { acceptBang := bang } text).value = .ok s ↔
      text.utf8ByteSize ≤ Limits.expression ∧ ∃ q, (scan bang 0 .start text.toList).ending = .ok q ∧
        s = { body := (scan bang 0 .start text.toList).tokens, final := .point q } := by
  exact Lexer.tokenize_eq_ok_iff { preferences := { acceptBang := bang } }

/-- What the token of `lexeme` is: a sign, or a word. -/
theorem lexeme_cases {l : Lexeme} (h : lexeme bang c cs = .ok l) :
    (l.token = .openParen ∨ l.token = .closeParen ∨ l.token = .not ∨
      ∃ operator, l.token = .reserved operator) ∨
    (Text.isWordStart c = true ∧ l.more = cs.takeWhile Text.isWordChar ∧
      Text.byteLength (c :: l.more) ≤ Limits.identifier ∧ l.token = Token.ofWord (c :: l.more)) := by
  -- `operatorLexeme` answers with a connective whether the sign is doubled or single.
  have hop : ∃ operator, (operatorLexeme c cs).token = .reserved operator := by
    unfold operatorLexeme
    split
    · split <;> exact ⟨_, rfl⟩
    · exact ⟨_, rfl⟩
  unfold lexeme at h
  split at h
  · cases h; exact .inl (.inl rfl)
  split at h
  · cases h; exact .inl (.inr (.inl rfl))
  split at h
  · cases h; exact .inl (.inr (.inr (.inl rfl)))
  split at h
  · cases h; exact .inl (.inr (.inr (.inr hop)))
  split at h
  · -- A word: this is the only branch in which the limit on names is asked.
    next hstart =>
    unfold wordLexeme at h
    dsimp only at h
    split at h
    · cases h
    · next hshort => cases h; exact .inr ⟨hstart, rfl, Nat.le_of_not_lt hshort, rfl⟩
  split at h <;> cases h

/-- An `.identifier` of `lexeme` is a name. -/
theorem isName_of_lexeme {l : Lexeme} {name : String} (h : lexeme bang c cs = .ok l)
    (ht : l.token = .identifier name) : IsName name.toList := by
  rcases lexeme_cases h with (htoken | htoken | htoken | ⟨op, htoken⟩) | ⟨hstart, hmore, hshort, htoken⟩
  all_goals rw [ht] at htoken
  iterate 4 cases htoken
  rw [Token.ofWord] at htoken
  cases hfree : Keyword.ofWord? (c :: l.more) with
  | some k => rw [hfree] at htoken; cases k <;> cases htoken
  | none =>
    rw [hfree] at htoken
    obtain rfl := Token.identifier.inj htoken
    rw [String.toList_ofList]
    refine ⟨⟨⟨c, l.more, rfl, hstart⟩, fun d hd => ?_, hshort⟩, hfree⟩
    rcases List.mem_cons.1 hd with rfl | hd
    · exact Text.isWordChar_of_isWordStart hstart
    · rw [hmore] at hd
      exact List.all_eq_true.1 List.all_takeWhile d hd

/-- If `cs` makes no tokens, all its characters are blanks. -/
theorem Lexes.isBlank_of_mem (h : Lexes bang cs []) : ∀ d ∈ cs, Text.isBlank d = true := by
  generalize hts : ([] : List Token) = ts at h
  induction h with
  | nil => nofun
  | blank hc _ ih => exact List.forall_mem_cons.2 ⟨hc, ih hts⟩
  | token => cases hts

/-- Every identifier among `ts` is a name. -/
theorem Lexes.isName (h : Lexes bang cs ts) {name : String} (hname : .identifier name ∈ ts) :
    IsName name.toList := by
  induction h with
  | nil => cases hname
  | blank _ _ ih => exact ih hname
  | token _ hl _ ih =>
    rcases List.mem_cons.1 hname with heq | hmem
    · exact isName_of_lexeme hl heq.symm
    · exact ih hmem

/-- No characters make an `.endOfInput`. -/
theorem Lexes.ne_endOfInput (h : Lexes bang cs ts) {t : Token} (ht : t ∈ ts) : t ≠ .endOfInput := by
  induction h with
  | nil => cases ht
  | blank _ _ ih => exact ih ht
  | @token c cs l ts _ hl _ ih =>
    rcases List.mem_cons.1 ht with rfl | hmem
    · rcases lexeme_cases hl with (htoken | htoken | htoken | ⟨op, htoken⟩) | ⟨-, -, -, htoken⟩
      all_goals rw [htoken]
      iterate 4 nofun
      rw [Token.ofWord]
      split <;> nofun
    · exact ih hmem

end BoolCalc
