import BoolCalc.Proofs.Token.Lexemes

namespace BoolCalc

/-!
# Exclamation marks

* `spellBang` : a text with a NOT for every exclamation mark;
* `LexError.unplaced`, `Scan.unplaced` : failures and scans that have lost their places;
* `lexeme_spellBang` : the first token is the same in both spellings;
* `scan_spellBang` : **NOT**, where an exclamation mark means NOT, a text is scanned as its other spelling is,
  except for the places;
* `not_mem_of_lexes` : where it means nothing, no text with an exclamation mark has tokens;
* `scan_eq_of_not_mem` : a text without exclamation marks is scanned alike, whether they mean something or not.

A NOT stands between blanks, so it does not become part of a word beside it.
-/

/-- `cs` with ` NOT ` for every `!`. -/
def spellBang (cs : List Char) : List Char :=
  cs.flatMap fun c => if c = '!' then " NOT ".toList else [c]

variable {bang : Bool} {c : Char} {cs ds : List Char} {count : Nat} {p q : Position}

/-! ### The other spelling -/

theorem spellBang_bang : spellBang ('!' :: cs) = ' ' :: 'N' :: 'O' :: 'T' :: ' ' :: spellBang cs := rfl

theorem spellBang_cons (hc : c ≠ '!') : spellBang (c :: cs) = c :: spellBang cs := by
  rw [spellBang, List.flatMap_cons, if_neg hc]
  rfl

theorem spellBang_append : spellBang (cs ++ ds) = spellBang cs ++ spellBang ds := List.flatMap_append

/-- A word has no `!`. -/
theorem spellBang_word (h : ∀ d ∈ cs, Text.isWordChar d = true) : spellBang cs = cs := by
  induction cs with
  | nil => rfl
  | cons d cs ih =>
    obtain ⟨hd, hcs⟩ := List.forall_mem_cons.1 h
    rw [spellBang_cons (ne_of_isWordChar hd (by decide)), ih hcs]

/-- `EndsWord` is the same for `spellBang cs`, where a blank stands for `!`. -/
theorem EndsWord.spellBang (h : EndsWord cs) : EndsWord (spellBang cs) := by
  cases cs with
  | nil => exact endsWord_nil
  | cons d cs =>
    by_cases hd : d = '!'
    · rw [hd, spellBang_bang]
      exact endsWord_cons (by decide)
    · rw [spellBang_cons hd]
      exact endsWord_cons (h d rfl)

theorem byteLength_le_spellBang (cs : List Char) : Text.byteLength cs ≤ Text.byteLength (spellBang cs) := by
  induction cs with
  | nil => exact Nat.le_refl _
  | cons c cs ih =>
    by_cases hc : c = '!'
    · have hsize : '!'.utf8Size = ' '.utf8Size := by decide
      rw [hc, spellBang_bang]
      simp only [Text.byteLength_cons, hsize]
      omega
    · rw [spellBang_cons hc, Text.byteLength_cons, Text.byteLength_cons]
      omega

/-! ### The first token -/

/-- With `bang`, `!` is the token `.not`. -/
theorem lexeme_bang : lexeme true '!' cs = .ok ⟨.not, [], cs⟩ := lexeme_sign (by decide)

/-- `operatorLexeme` takes the same characters in front of `spellBang cs`. -/
theorem operatorLexeme_spellBang (hc : c = '&' ∨ c = '|') : operatorLexeme c (spellBang cs) =
    { operatorLexeme c cs with rest := spellBang (operatorLexeme c cs).rest } := by
  have hbang : c ≠ '!' := by rcases hc with rfl | rfl <;> decide
  by_cases hhead : cs.head? = some c
  · obtain ⟨ds, rfl⟩ := List.head?_eq_some_iff.1 hhead
    rw [spellBang_cons hbang, operatorLexeme_doubled, operatorLexeme_doubled]
  · have hhead' : (spellBang cs).head? ≠ some c := by
      cases cs with
      | nil => exact hhead
      | cons d ds =>
        by_cases hd : d = '!'
        · rw [hd, spellBang_bang]
          show some ' ' ≠ some c
          rcases hc with rfl | rfl <;> decide
        · rwa [spellBang_cons hd]
    rw [operatorLexeme_single hhead', operatorLexeme_single hhead]

/-- **The first token.** Behind a first character `c` that is no `!`, `lexeme` takes the same characters, or fails
alike. -/
theorem lexeme_spellBang (hc : c ≠ '!') : lexeme true c (spellBang cs) =
    (lexeme true c cs).map fun l => { l with rest := spellBang l.rest } := by
  cases hword : Text.isWordChar c with
  | true =>
    obtain ⟨more, rest, rfl, hmore, hrest⟩ := exists_more cs
    have hchars : ∀ d ∈ c :: more, Text.isWordChar d = true := List.forall_mem_cons.2 ⟨hword, hmore⟩
    -- The word ends in the same place, since a mark is no part of it and neither is a blank.
    rw [spellBang_append, spellBang_word hmore, lexeme_of_run hchars hrest.spellBang, lexeme_of_run hchars hrest]
    split
    · split <;> rfl
    · split <;> rfl
  | false =>
    have hbang : ¬(c = '!' ∧ true = true) := not_and_of_not_left _ hc
    rw [lexeme_sign hword, lexeme_sign hword, if_neg hbang, if_neg hbang]
    split
    · rfl
    split
    · rfl
    split
    · next hoperator =>
      rw [operatorLexeme_spellBang hoperator]
      rfl
    · rfl

/-! ### Scans without places -/

/-- The error without its offset, line and column. -/
def LexError.unplaced : LexError → LexError
  | .invalidCharacter c _ _ _ => .invalidCharacter c 0 0 0
  | .invalidIdentifier text _ => .invalidIdentifier text 0
  | .identifierTooLong length _ => .identifierTooLong length 0
  | .expressionTooLong length => .expressionTooLong length
  | .tooManyTokens _ => .tooManyTokens 0

/-- The tokens of a scan that comes to its end, without their spans, or else its error without its place. -/
def Scan.unplaced (s : Scan) : Except LexError (List Token) :=
  match s.ending with
  | .ok _ => .ok (s.tokens.map Spanned.value)
  | .error f => .error f.error.unplaced

theorem unplaced_scan_full (h : Text.isBlank c = false) (hcount : Limits.tokens ≤ count) :
    (scan bang count p (c :: cs)).unplaced = .error (.tooManyTokens 0) := by
  rw [scan_full h hcount]
  rfl

theorem unplaced_scan_token {l : Lexeme} (h : Text.isBlank c = false) (hcount : count < Limits.tokens)
    (hl : lexeme bang c cs = .ok l) : (scan bang count p (c :: cs)).unplaced =
      (scan bang (count + 1) (p.advanceOver (c :: l.more)) l.rest).unplaced.map (l.token :: ·) := by
  rw [scan_token h hcount hl]
  unfold Scan.unplaced
  dsimp only
  split <;> rfl

theorem unplaced_scan_fault {fault : LexFault} (h : Text.isBlank c = false) (hcount : count < Limits.tokens)
    (hfault : lexeme bang c cs = .error fault) :
    (scan bang count p (c :: cs)).unplaced = .error (fault.toError c .start).unplaced := by
  rw [scan_fault h hcount hfault]
  cases fault <;> rfl

/-! ### Exclamation marks that mean NOT -/

/-- ` NOT ` is scanned as the token `.not`, if there is room for one more. -/
theorem unplaced_scan_not : (scan bang count p (' ' :: 'N' :: 'O' :: 'T' :: ' ' :: cs)).unplaced =
    if Limits.tokens ≤ count then .error (.tooManyTokens 0)
    else (scan bang (count + 1) (p.advanceOver " NOT ".toList) cs).unplaced.map (Token.not :: ·) := by
  have hblank : Text.isBlank ' ' = true := by decide
  have hfront : Text.isBlank 'N' = false := by decide
  have hword : IsWord ['N', 'O', 'T'] :=
    ⟨⟨'N', ['O', 'T'], rfl, by decide⟩, List.all_eq_true.1 (by decide), by decide⟩
  have hends : EndsWord (' ' :: cs) := endsWord_cons (by decide)
  have hl : lexeme bang 'N' ('O' :: 'T' :: ' ' :: cs) = .ok ⟨.not, ['O', 'T'], ' ' :: cs⟩ := lexeme_word hword hends
  rw [scan_blank hblank]
  split
  · next hfull => exact unplaced_scan_full hfront hfull
  · next hfew =>
    rw [unplaced_scan_token hfront (Nat.lt_of_not_le hfew) hl, scan_blank hblank]
    rfl

/-- **NOT.** With `bang`, `cs` and `spellBang cs` are scanned into the same tokens, or fail alike up to the place. -/
theorem scan_spellBang (cs : List Char) (count : Nat) (p q : Position) :
    (scan true count p (spellBang cs)).unplaced = (scan true count q cs).unplaced := by
  -- The positions drift apart from the first mark on, so `p` and `q` are generalized separately.
  induction cs using scanInduction true generalizing count p q with
  | nil =>
    rw [spellBang, List.flatMap_nil, scan_nil, scan_nil]
    rfl
  | blank c cs hblank ih =>
    have hc : c ≠ '!' := by
      rintro rfl
      exact absurd hblank (by decide)
    rw [spellBang_cons hc, scan_blank hblank, scan_blank hblank]
    exact ih _ _ _
  | fault c cs fault hblank hl =>
    have hc : c ≠ '!' := by
      rintro rfl
      cases lexeme_bang.symm.trans hl
    have hl' : lexeme true c (spellBang cs) = .error fault := by
      rw [lexeme_spellBang hc, hl]
      rfl
    rw [spellBang_cons hc]
    -- The same failure on both sides: the fault, or one token too many.
    rcases Nat.lt_or_ge count Limits.tokens with hfew | hfull
    · rw [unplaced_scan_fault hblank hfew hl, unplaced_scan_fault hblank hfew hl']
    · rw [unplaced_scan_full hblank hfull, unplaced_scan_full hblank hfull]
  | token c cs l hblank hl ih =>
    by_cases hc : c = '!'
    · -- The mark is one token, and so is the NOT.
      subst hc
      obtain rfl := Except.ok.inj (lexeme_bang.symm.trans hl)
      rw [spellBang_bang, unplaced_scan_not]
      split
      · next hfull => rw [unplaced_scan_full hblank hfull]
      · next hfew => rw [unplaced_scan_token hblank (Nat.lt_of_not_le hfew) hl, ih]
    · have hl' : lexeme true c (spellBang cs) = .ok { l with rest := spellBang l.rest } := by
        rw [lexeme_spellBang hc, hl]
        rfl
      rw [spellBang_cons hc]
      rcases Nat.lt_or_ge count Limits.tokens with hfew | hfull
      · rw [unplaced_scan_token hblank hfew hl, unplaced_scan_token hblank hfew hl', ih]
      · rw [unplaced_scan_full hblank hfull, unplaced_scan_full hblank hfull]

/-! ### Exclamation marks that mean nothing -/

/-- Without `bang`, no lexeme has a `!`. -/
theorem IsLexeme.not_mem {word : List Char} {t : Token} (h : IsLexeme false word t) : '!' ∉ word := by
  cases h with
  | openParen | closeParen => decide
  | not hbang => cases hbang
  | single hc | doubled hc => rcases hc with rfl | rfl <;> decide
  | word hstart hchars =>
    intro hmem
    rcases List.mem_cons.1 hmem with hc | hmem
    · exact ne_of_isWordChar (Text.isWordChar_of_isWordStart hstart) (by decide) hc.symm
    · exact ne_of_isWordChar (hchars _ hmem) (by decide) rfl

/-- Without `bang`, characters that make tokens have no `!`. -/
theorem not_mem_of_lexes {ts : List Token} (h : Lexes false cs ts) : '!' ∉ cs := by
  induction h with
  | nil => exact List.not_mem_nil
  | @blank c cs ts hc _ ih =>
    have hne : '!' ≠ c := by
      rintro rfl
      exact absurd hc (by decide)
    exact List.not_mem_cons_of_ne_of_not_mem hne ih
  | @token c cs l ts _ hl _ ih =>
    have hlexeme := (longest_of_lexeme hl).1.not_mem
    rw [← lexeme_append hl, ← List.cons_append, List.mem_append]
    exact not_or.2 ⟨hlexeme, ih⟩

/-! ### No exclamation marks -/

/-- `lexeme` depends on `bang` for `!` only. -/
theorem lexeme_eq_of_ne (hc : c ≠ '!') (bang bang' : Bool) : lexeme bang c cs = lexeme bang' c cs := by
  rw [lexeme, lexeme, if_neg (not_and_of_not_left _ hc), if_neg (not_and_of_not_left _ hc)]

/-- `scan` of characters without `!` does not depend on `bang`. -/
theorem scan_eq_of_not_mem (h : '!' ∉ cs) (bang bang' : Bool) : scan bang count p cs = scan bang' count p cs := by
  induction cs using scanInduction bang generalizing count p with
  | nil => rw [scan_nil, scan_nil]
  | blank c cs hblank ih =>
    rw [scan_blank hblank, scan_blank hblank]
    exact ih (List.not_mem_of_not_mem_cons h)
  | fault c cs fault hblank hl =>
    have hl' := (lexeme_eq_of_ne (Ne.symm (List.ne_of_not_mem_cons h)) bang' bang).trans hl
    rcases Nat.lt_or_ge count Limits.tokens with hfew | hfull
    · rw [scan_fault hblank hfew hl, scan_fault hblank hfew hl']
    · rw [scan_full hblank hfull, scan_full hblank hfull]
  | token c cs l hblank hl ih =>
    have hl' := (lexeme_eq_of_ne (Ne.symm (List.ne_of_not_mem_cons h)) bang' bang).trans hl
    have hrest : '!' ∉ l.rest := fun hmem =>
      List.not_mem_of_not_mem_cons h (lexeme_append hl ▸ List.mem_append_right l.more hmem)
    rcases Nat.lt_or_ge count Limits.tokens with hfew | hfull
    · rw [scan_token hblank hfew hl, scan_token hblank hfew hl', ih hrest]
    · rw [scan_full hblank hfull, scan_full hblank hfull]

end BoolCalc
