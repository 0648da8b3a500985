import BoolCalc.Proofs.Token.LexicalGrammar

namespace BoolCalc

/-!
# Where a scan fails

* `lexeme_eq_append` : a token is read alike when fewer characters follow it;
* `LexFault.Holds`, `holds_of_lexeme` : what the characters at a fault are;
* `exists_stop_of_scan`, `scan_eq_error` : a scan that fails has passed over tokens, and stands at one too many or
  at a fault;
* `Lexer.tokenize_eq_error` : **first failure**, the text before the place of a failure has the tokens that were
  recognised, and the text from there on fails alike;
* `Lexer.exists_lexeme_of_mem`, `Lexer.slice_of_identifier`, `Lexer.final_of_tokenize` : each token of a text stands
  where a lexeme of it does, an identifier where its name is written, and the end of input behind the text.
-/

variable {bang : Bool} {c : Char} {cs rest behind : List Char} {count : Nat} {p : Position}

/-! ### Tokens passed over -/

/-- If a lexeme is the `Longest` in front of `rest ++ behind`, it is so in front of `rest`. -/
theorem Longest.of_append {lexeme : List Char} (h : Longest bang lexeme (rest ++ behind)) :
    Longest bang lexeme rest := by
  rintro more others rfl hne
  exact h more (others ++ behind) (List.append_assoc more others behind) hne

/-- `lexeme` takes the same characters when fewer follow them. -/
theorem lexeme_eq_append {l : Lexeme} (h : lexeme bang c cs = .ok l) (hrest : l.rest = rest ++ behind) :
    lexeme bang c (l.more ++ rest) = .ok { l with rest := rest } := by
  obtain ⟨-, hlexeme, hshort, hlongest⟩ := lexeme_eq_ok_iff.1 h
  rw [hrest] at hlongest
  exact lexeme_eq_ok_iff.2 ⟨rfl, hlexeme, hshort, hlongest.of_append⟩

/-! ### Faults -/

/-- What the characters `c :: cs` at a fault are. -/
inductive LexFault.Holds (bang : Bool) (c : Char) (cs : List Char) : LexFault → Prop where
  /-- No lexeme starts with `c`. -/
  | character (hnone : ∀ more t, ¬IsLexeme bang (c :: more) t) : Holds bang c cs .character
  | digitFirst {more rest : List Char} (hcs : cs = more ++ rest)
      (hchars : ∀ d ∈ c :: more, Text.isWordChar d = true) (hrest : EndsWord rest)
      (hdigit : Text.isAsciiDigit c = true) : Holds bang c cs (.digitFirst (c :: more))
  /-- A word has more than `Limits.identifier` bytes. -/
  | tooLong {more rest : List Char} (hcs : cs = more ++ rest)
      (hchars : ∀ d ∈ c :: more, Text.isWordChar d = true) (hrest : EndsWord rest)
      (hstart : Text.isWordStart c = true) (hlong : Limits.identifier < Text.byteLength (c :: more)) :
      Holds bang c cs (.tooLong (Text.byteLength (c :: more)))

/-- The case of `holds_of_lexeme` in which `c` is no word character. -/
theorem holds_of_sign {fault : LexFault} (hc : Text.isWordChar c = false)
    (h : lexeme bang c cs = .error fault) : fault.Holds bang c cs := by
  rw [lexeme_sign hc] at h
  -- Each kind of sign is tried, and none of them starts with the character.
  split at h
  · cases h
  next hopen =>
  split at h
  · cases h
  next hclose =>
  split at h
  · cases h
  next hbang =>
  split at h
  · cases h
  next hoperator =>
  cases h
  apply LexFault.Holds.character
  intro more t ht
  rcases ht.of_sign hc with h | h | h | h
  · exact hopen h.1
  · exact hclose h.1
  · exact hbang h.1
  · exact hoperator h.1

/-- If `lexeme` fails with a `fault`, the characters are as it says. -/
theorem holds_of_lexeme {fault : LexFault} (h : lexeme bang c cs = .error fault) : fault.Holds bang c cs := by
  by_cases hc : Text.isWordChar c = true
  · -- `c` belongs to a run of word characters, and `lexeme` decides about the whole run.
    obtain ⟨more, rest, rfl, hmore, hrest⟩ := exists_more cs
    have hchars : ∀ d ∈ c :: more, Text.isWordChar d = true := List.forall_mem_cons.2 ⟨hc, hmore⟩
    rw [lexeme_of_run hchars hrest] at h
    by_cases hstart : Text.isWordStart c = true
    · rw [if_pos hstart] at h
      split at h
      · next hlong =>
        cases h
        exact .tooLong rfl hchars hrest hstart hlong
      · cases h
    · rw [if_neg hstart] at h
      split at h
      · next hdigit =>
        cases h
        exact .digitFirst rfl hchars hrest hdigit
      · -- A numeral that is no digit: it may stand in a word, but not at its start.
        cases h
        apply LexFault.Holds.character
        intro more t ht
        exact hstart (ht.of_isWordChar hc).1
  · exact holds_of_sign (Bool.not_eq_true _ ▸ hc) h

/-! ### Failures -/

/-- **Where a scan stops.** A scan that fails stops at a character `c` that is no blank. The characters `before` it
are scanned to their end, into the same tokens. Either these are `Limits.tokens`, and the error is `.tooManyTokens`,
or they are fewer, and `lexeme` fails at `c`. -/
theorem exists_stop_of_scan {f : LexFailure} (h : (scan bang count p cs).ending = .error f)
    (hcount : count ≤ Limits.tokens) : ∃ before c behind, cs = before ++ c :: behind ∧ Text.isBlank c = false ∧
      scan bang count p before = ⟨(scan bang count p cs).tokens, .ok (p.advanceOver before)⟩ ∧
      (count + (scan bang count p cs).tokens.length = Limits.tokens ∧
          f.error = .tooManyTokens (p.advanceOver before).offset ∨
        count + (scan bang count p cs).tokens.length < Limits.tokens ∧ ∃ fault,
          lexeme bang c behind = .error fault ∧ f.error = fault.toError c (p.advanceOver before)) := by
  -- With as many tokens as allowed before it, the scan stops at its first character that is no blank.
  have hfullStop {c : Char} {cs : List Char} {count : Nat} {p : Position}
      (h : (scan bang count p (c :: cs)).ending = .error f) (hcount : count ≤ Limits.tokens)
      (hc : Text.isBlank c = false) (hfull : Limits.tokens ≤ count) :
      (scan bang count p (c :: cs)).tokens = [] ∧ count = Limits.tokens ∧ f.error = .tooManyTokens p.offset := by
    rw [scan_full hc hfull] at h ⊢
    cases h
    exact ⟨rfl, Nat.le_antisymm hcount hfull, rfl⟩
  induction cs using scanInduction bang generalizing count p with
  | nil =>
    rw [scan_nil] at h
    cases h
  | blank c cs hc ih =>
    rw [scan_blank hc] at h ⊢
    obtain ⟨before, d, behind, rfl, hd, hbefore, hfailure⟩ := ih h hcount
    refine ⟨c :: before, d, behind, rfl, hd, ?_, hfailure⟩
    rw [scan_blank hc, hbefore, Position.advanceOver_cons]
  | fault c cs fault hc hl =>
    refine ⟨[], c, cs, rfl, hc, ?_⟩
    rcases Nat.lt_or_ge count Limits.tokens with hfew | hfull
    · rw [scan_fault hc hfew hl] at h ⊢
      cases h
      exact ⟨scan_nil, .inr ⟨hfew, fault, hl, rfl⟩⟩
    · obtain ⟨htokens, hall, herror⟩ := hfullStop h hcount hc hfull
      rw [htokens]
      exact ⟨scan_nil, .inl ⟨hall, herror⟩⟩
  | token c cs l hc hl ih =>
    rcases Nat.lt_or_ge count Limits.tokens with hfew | hfull
    · rw [scan_token hc hfew hl] at h ⊢
      obtain ⟨before, d, behind, hrest, hd, hbefore, hfailure⟩ := ih h hfew
      have hsplit : c :: cs = (c :: l.more ++ before) ++ d :: behind := by
        rw [← lexeme_append hl, hrest, List.cons_append, List.cons_append, List.append_assoc]
      -- What is cut off behind the token does not change it.
      have hl' : lexeme bang c (l.more ++ before) = .ok { l with rest := before } := lexeme_eq_append hl hrest
      refine ⟨c :: l.more ++ before, d, behind, hsplit, hd, ?_, ?_⟩
      · rw [List.cons_append, scan_token hc hfew hl', hbefore, ← List.cons_append, Position.advanceOver_append]
      · rw [Position.advanceOver_append, List.length_cons, Nat.add_comm (List.length _), ← Nat.add_assoc]
        exact hfailure
    · obtain ⟨htokens, hall, herror⟩ := hfullStop h hcount hc hfull
      rw [htokens]
      exact ⟨[], c, cs, rfl, hc, scan_nil, .inl ⟨hall, herror⟩⟩

/-- **The scan of characters with a failure.** The characters `before` the place make tokens `ts`. Either these are
as many as allowed and another one would follow, or a `fault` holds of the characters at the place. -/
theorem scan_eq_error {f : LexFailure} (h : (scan bang count p cs).ending = .error f)
    (hcount : count ≤ Limits.tokens) : ∃ before c behind ts, cs = before ++ c :: behind ∧ Lexes bang before ts ∧
      (Text.isBlank c = false ∧ count + ts.length = Limits.tokens ∧
          f.error = .tooManyTokens (p.advanceOver before).offset ∨
        ∃ fault : LexFault, fault.Holds bang c behind ∧ f.error = fault.toError c (p.advanceOver before)) := by
  obtain ⟨before, c, behind, hcs, hc, hbefore, hfailure⟩ := exists_stop_of_scan h hcount
  have hlexes : Lexes bang before ((scan bang count p before).tokens.map Spanned.value) :=
    lexes_of_scan (congrArg Scan.ending hbefore)
  refine ⟨before, c, behind, _, hcs, hlexes, ?_⟩
  rw [hbefore, List.length_map]
  rcases hfailure with ⟨hall, herror⟩ | ⟨-, fault, hl, herror⟩
  · exact .inl ⟨hc, hall, herror⟩
  · exact .inr ⟨fault, holds_of_lexeme hl, herror⟩

/-- The error `e` with the offset, the line and the column of `p`. -/
def LexError.movedTo (p : Position) : LexError → LexError
  | .invalidCharacter c _ _ _ => .invalidCharacter c p.offset p.line p.column
  | .invalidIdentifier text _ => .invalidIdentifier text p.offset
  | .identifierTooLong length _ => .identifierTooLong length p.offset
  | .expressionTooLong length => .expressionTooLong length
  | .tooManyTokens _ => .tooManyTokens p.offset

theorem LexFault.movedTo_toError (fault : LexFault) (c : Char) (p q : Position) :
    (fault.toError c p).movedTo q = fault.toError c q := by
  cases fault <;> rfl

theorem LexFault.toError_ne_tooManyTokens (fault : LexFault) (c : Char) (p : Position) (offset : Nat) :
    fault.toError c p ≠ .tooManyTokens offset := by
  cases fault <;> nofun

namespace Lexer

variable {l : Lexer}

/-- If `text` has no tokens, it is too long or its scan fails. -/
theorem exists_failure {text : String} {e : LexError} (h : (l.tokenize text).value.1 = .error e)
    (hlong : ∀ n, e ≠ .expressionTooLong n) : Text.byteLength text.toList ≤ Limits.expression ∧
      ∃ f, (scan l.preferences.acceptBang 0 .start text.toList).ending = .error f ∧ e = f.error := by
  rw [l.tokenize_fst] at h
  split at h
  · cases h
    exact absurd rfl (hlong _)
  · next hshort =>
    rw [Text.byteLength_toList]
    refine ⟨Nat.le_of_not_lt hshort, ?_⟩
    unfold Scan.result at h
    split at h
    · cases h
    · next f hending =>
      cases h
      exact ⟨f, hending, rfl⟩

/-- `tokenize` of `cs` within the limit is the `scan`. -/
theorem tokenize_ofList (l : Lexer) (hshort : Text.byteLength cs ≤ Limits.expression) :
    (l.tokenize (String.ofList cs)).value.1 = (scan l.preferences.acceptBang 0 .start cs).result := by
  rw [l.tokenize_fst, ← Text.byteLength_toList, String.toList_ofList, if_neg (Nat.not_lt.2 hshort)]

/-- **First failure.** Let `l.tokenize text` fail with `e`, which is not `.expressionTooLong`. The failure is at a
character `c` that is no blank, and `e.offset` is the offset of the place between `before` and `c`.
* All places in `e` are those that the characters `before` lead to.
* `before` is read into exactly the tokens that were `recognised`.
* These are `Limits.tokens` exactly if `e` is `.tooManyTokens`.
* Otherwise the text from `c` on fails in the same way, at its start. -/
theorem tokenize_eq_error (l : Lexer) {text : String} {e : LexError} (h : (l.tokenize text).value.1 = .error e)
    (hlong : ∀ n, e ≠ .expressionTooLong n) :
    let recognised := (scan l.preferences.acceptBang 0 .start text.toList).tokens
    ∃ before c behind, text.toList = before ++ c :: behind ∧ Text.isBlank c = false ∧
      e.offset = Text.byteLength before ∧ Text.dropBytes? e.offset text.toList = some (c :: behind) ∧
      e = e.movedTo (Position.start.advanceOver before) ∧
      (l.tokenize (String.ofList before)).value.1 =
        .ok { body := recognised, final := .point (Position.start.advanceOver before) } ∧
      (recognised.length = Limits.tokens ↔ ∃ offset, e = .tooManyTokens offset) ∧
      ((∀ offset, e ≠ .tooManyTokens offset) →
        (l.tokenize (String.ofList (c :: behind))).value.1 = .error (e.movedTo .start)) := by
  intro recognised
  -- The failure is one of the scan, which stops at a character `c` with its tokens before it.
  obtain ⟨hshort, f, hending, rfl⟩ := exists_failure h hlong
  obtain ⟨before, c, behind, htext, hc, hbefore, hfailure⟩ := exists_stop_of_scan hending (Nat.zero_le _)
  rw [Nat.zero_add] at hfailure
  have hoffset : f.error.offset = Text.byteLength before := by
    rw [← Position.offset_start_advanceOver]
    rcases hfailure with ⟨-, herror⟩ | ⟨-, fault, -, herror⟩
    · rw [herror]
      rfl
    · rw [herror]
      cases fault <;> rfl
  have hlength : Text.byteLength before + Text.byteLength (c :: behind) ≤ Limits.expression := by
    rwa [← Text.byteLength_append, ← htext]
  have hdrop : Text.dropBytes? f.error.offset text.toList = some (c :: behind) := by
    rw [hoffset, htext]
    exact Text.dropBytes?_append
  -- A shorter text is within the limit as well.
  have hread : (l.tokenize (String.ofList before)).value.1 =
      .ok { body := recognised, final := .point (Position.start.advanceOver before) } := by
    rw [l.tokenize_ofList (by omega), hbefore]
    rfl
  refine ⟨before, c, behind, htext, hc, hoffset, hdrop, ?_⟩
  rcases hfailure with ⟨hall, herror⟩ | ⟨hfew, fault, hl, herror⟩
  · rw [herror]
    exact ⟨rfl, hread, ⟨fun _ => ⟨_, rfl⟩, fun _ => hall⟩, fun hne => absurd rfl (hne _)⟩
  · have hcount : recognised.length = Limits.tokens ↔ ∃ offset, f.error = .tooManyTokens offset := by
      rw [herror]
      exact ⟨fun hall => absurd hall (Nat.ne_of_lt hfew),
        fun ⟨offset, heq⟩ => absurd heq (fault.toError_ne_tooManyTokens _ _ _)⟩
    refine ⟨?_, hread, hcount, fun _ => ?_⟩
    · rw [herror, fault.movedTo_toError]
    · -- At the start of a text there are no tokens yet, so that the limit on them does not matter.
      have hnone : 0 < Limits.tokens := by decide
      rw [l.tokenize_ofList (by omega), scan_fault hc hnone hl, herror, fault.movedTo_toError]
      rfl

/-- In `é`, line feed, `&&&1x` a word starts with a digit, behind `&&` and `&`. -/
theorem tokenize_eq_error_digit :
    let l : Lexer := { preferences := {} }
    let e : LexError := .invalidIdentifier "1x" 6
    (l.tokenize "é\n&&&1x").value.1 = .error e ∧ (∀ n, e ≠ .expressionTooLong n) ∧
      ∃ before c behind, "é\n&&&1x".toList = before ++ c :: behind ∧ String.ofList before = "é\n&&&" ∧
        (l.tokenize (String.ofList before)).value.1 = .ok
          { body := (scan true 0 .start "é\n&&&1x".toList).tokens, final := .point ⟨6, 2, 4⟩ } ∧
        (l.tokenize (String.ofList (c :: behind))).value.1 = .error (.invalidIdentifier "1x" 0) := by
  intro l e
  have h : (l.tokenize "é\n&&&1x").value.1 = .error e := by decide +kernel
  have hlong : ∀ n, e ≠ .expressionTooLong n := nofun
  obtain ⟨before, c, behind, htext, -, -, hdrop, -, hread, -, hagain⟩ := l.tokenize_eq_error h hlong
  have hbehind : Text.dropBytes? 6 "é\n&&&1x".toList = some ['1', 'x'] := by decide
  obtain ⟨rfl, rfl⟩ := List.cons.inj (Option.some.inj (hdrop.symm.trans hbehind))
  have hbefore : before = "é\n&&&".toList := List.append_cancel_right htext.symm
  subst hbefore
  exact ⟨h, hlong, _, _, _, htext, by decide, hread, hagain nofun⟩

end Lexer

/-! ### Tokens in a text -/

/-- Each piece of a cutting has a lexeme of its token (`IsLexeme`). -/
theorem Cuts.isLexeme_of_mem {xs : List Piece} {x : Piece} (h : Cuts bang cs xs) (hx : x ∈ xs) :
    IsLexeme bang x.lexeme x.token := by
  induction h with
  | blanks => cases hx
  | piece _ hlexeme _ _ _ ih =>
    rcases List.mem_cons.1 hx with rfl | hmem
    · exact hlexeme
    · exact ih hmem

/-- The tokens of `text` are `Placed` where the lexemes of some pieces stand. -/
theorem Lexer.exists_placed {l : Lexer} {text : String} {s : TokenStream}
    (h : (l.tokenize text).value.1 = .ok s) :
    ∃ xs, Cuts l.preferences.acceptBang text.toList xs ∧ Placed text xs s := by
  obtain ⟨-, q, hending, -⟩ := l.tokenize_eq_ok_iff.1 h
  obtain ⟨xs, hcuts, -⟩ := cuts_of_lexes (lexes_of_scan hending)
  obtain ⟨-, -, rfl⟩ := (Lexer.tokenize_eq_ok_iff_of_cuts hcuts).1 h
  exact ⟨xs, hcuts, placed_of_cuts hcuts⟩

/-- Each token of `text` stands where a lexeme of it does. -/
theorem Lexer.exists_lexeme_of_mem {l : Lexer} {text : String} {s : TokenStream}
    (h : (l.tokenize text).value.1 = .ok s) {t : Spanned Token} (ht : t ∈ s.body) :
    ∃ before word behind, text.toList = before ++ word ++ behind ∧
      IsLexeme l.preferences.acceptBang word t.value ∧
        t.span = ⟨.after before, .after (before ++ word)⟩ := by
  obtain ⟨xs, hcuts, hplaced⟩ := Lexer.exists_placed h
  obtain ⟨i, hi, hget⟩ := List.mem_iff_getElem.1 ht
  obtain ⟨x, hx⟩ : ∃ x, xs[i]? = some x := ⟨_, List.getElem?_eq_getElem (hplaced.length ▸ hi)⟩
  obtain ⟨before, behind, span, -, htext, hbody, hstart, -, hstop, -, -⟩ := hplaced.span i _ hx
  have hsame : t = ⟨x.token, span⟩ := by
    rw [← hget]
    exact Option.some.inj ((List.getElem?_eq_getElem hi).symm.trans hbody)
  rw [hsame]
  refine ⟨before, x.lexeme, behind, htext, hcuts.isLexeme_of_mem (List.mem_of_getElem? hx), ?_⟩
  rw [← Position.start_advanceOver, ← Position.start_advanceOver, ← hstart, ← hstop]

/-- An identifier is written in `text` where its span says. -/
theorem Lexer.slice_of_identifier {l : Lexer} {text name : String} {s : TokenStream}
    (h : (l.tokenize text).value.1 = .ok s) {t : Spanned Token} (ht : t ∈ s.body)
    (hname : t.value = .identifier name) : t.span.slice text = name := by
  obtain ⟨before, word, behind, htext, hword, hspan⟩ := Lexer.exists_lexeme_of_mem h ht
  rw [hname] at hword
  have hslice : Text.slice? (Position.after before).offset (Position.after (before ++ word)).offset
      (before ++ word ++ behind) = some word := Text.slice?_append
  rw [hspan, Span.slice, htext, hslice]
  exact hword.eq_of_identifier

/-- The spans of `s.body` start one behind the other. -/
theorem Lexer.pairwise_start_lt {l : Lexer} {text : String} {s : TokenStream}
    (h : (l.tokenize text).value.1 = .ok s) :
    s.body.Pairwise fun t u => t.span.start.offset < u.span.start.offset := by
  obtain ⟨xs, -, hplaced⟩ := Lexer.exists_placed h
  refine hplaced.disjoint.imp_of_mem fun ht _ hle => ?_
  exact Nat.lt_of_lt_of_le (hplaced.nonempty _ ht) hle

/-- The end of input stands behind the whole `text`. -/
theorem Lexer.final_of_tokenize {l : Lexer} {text : String} {s : TokenStream}
    (h : (l.tokenize text).value.1 = .ok s) : s.final = .point (.after text.toList) := by
  obtain ⟨xs, -, hplaced⟩ := Lexer.exists_placed h
  rw [hplaced.final, Position.start_advanceOver]

end BoolCalc
