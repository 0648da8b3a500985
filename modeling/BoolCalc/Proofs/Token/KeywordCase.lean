import BoolCalc.Proofs.Token.Printed

namespace BoolCalc

/-!
# The case of keywords

* `Text.toLower_invariant` : what does not depend on the case of ASCII letters: lengths, positions, classes
  of characters;
* `Recased` : characters that differ at most in the case of whole words that are keywords;
* `recased_normalizeChars`, `recased_normalize` : normalization changes no more than that;
* `Recased.normalizeChars_eq` : and brings such characters together;
* `Recased.scan_eq` : such characters are scanned alike, with the same spans and the same failures.

A word may stand where no word can start, after digits of other scripts, say. Then the scan fails at its first
character, and the word is no keyword.
-/

/-! ### Letters and their case -/

namespace Text

/-- The characters from `A` to `Z`. -/
def capitals : List Char := (List.range' 65 26).map Char.ofNat

/-- `toLower` changes `capitals` only. -/
theorem toLower_eq_or_mem (c : Char) : c.toLower = c ∨ c ∈ capitals := by
  by_cases h : c.val ≥ 'A'.val ∧ c.val ≤ 'Z'.val
  · right
    have hlow : 65 ≤ c.toNat := h.1
    have hhigh : c.toNat ≤ 90 := h.2
    have hmem : c.toNat ∈ List.range' 65 26 := List.mem_range'_1.2 ⟨hlow, by omega⟩
    exact List.mem_map.2 ⟨c.toNat, hmem, Char.ofNat_toNat c⟩
  · exact .inl (dif_neg h)

/-- A function `f` that is the same for every one of the `capitals` and its lower case does not depend on the case
at all. The hypothesis can be decided. -/
theorem toLower_invariant [DecidableEq α] {f : Char → α}
    (h : (capitals.all fun c => decide (f c.toLower = f c)) = true) (c : Char) : f c.toLower = f c := by
  rcases toLower_eq_or_mem c with hsame | hcapital
  · rw [hsame]
  · exact of_decide_eq_true (List.all_eq_true.1 h c hcapital)

theorem utf8Size_toLower (c : Char) : c.toLower.utf8Size = c.utf8Size :=
  toLower_invariant (by decide) c

theorem isWordStart_toLower (c : Char) : isWordStart c.toLower = isWordStart c :=
  toLower_invariant (by decide) c

theorem isWordChar_toLower (c : Char) : isWordChar c.toLower = isWordChar c :=
  toLower_invariant (by decide) c

theorem lowerAscii_lowerAscii (cs : List Char) : lowerAscii (lowerAscii cs) = lowerAscii cs := by
  unfold lowerAscii
  rw [List.map_map]
  refine List.map_congr_left fun c _ => ?_
  exact toLower_invariant (f := Char.toLower) (by decide) c

theorem byteLength_lowerAscii (cs : List Char) : byteLength (lowerAscii cs) = byteLength cs := by
  induction cs with
  | nil => rfl
  | cons c cs ih =>
    show byteLength (c.toLower :: lowerAscii cs) = _
    rw [byteLength_cons, byteLength_cons, utf8Size_toLower, ih]

end Text

theorem Position.advance_toLower (p : Position) (c : Char) : p.advance c.toLower = p.advance c := by
  have hline : (c.toLower == '\n') = (c == '\n') := Text.toLower_invariant (f := (· == '\n')) (by decide) c
  have hfeed : c.toLower = '\n' ↔ c = '\n' := by rw [← beq_iff_eq, hline, beq_iff_eq]
  simp only [advance, hfeed, Text.utf8Size_toLower]

/-- The position behind `cs` does not depend on the case of its letters. -/
theorem Position.advanceOver_lowerAscii (p : Position) (cs : List Char) :
    p.advanceOver (Text.lowerAscii cs) = p.advanceOver cs := by
  induction cs generalizing p with
  | nil => rfl
  | cons c cs ih =>
    show (p.advance c.toLower).advanceOver (Text.lowerAscii cs) = _
    rw [advance_toLower, ih, advanceOver_cons]

/-! ### Keywords -/

namespace Keyword

variable {k : Keyword} {v w : List Char}

/-- A spelling of `k` is `k.canonical` up to the case of letters. -/
theorem lowerAscii_of_ofWord? (h : ofWord? w = some k) :
    Text.lowerAscii w = Text.lowerAscii k.canonical.toList := by
  exact (beq_iff_eq.1 (ofWord?_eq_some_iff.1 h)).symm

theorem ofWord?_canonical (k : Keyword) : ofWord? k.canonical.toList = some k := by
  cases k <;> decide

theorem isWord_of_ofWord? (h : ofWord? w = some k) : IsWord w := by
  have hlower := lowerAscii_of_ofWord? h
  have hall : (Text.lowerAscii k.canonical.toList).all Text.isWordStart = Bool.true := by
    cases k <;> decide
  have hstarts := List.all_eq_true.1 hall
  have hchars : ∀ c ∈ w, Text.isWordStart c = Bool.true := by
    intro c hc
    rw [← Text.isWordStart_toLower]
    exact hstarts _ (hlower ▸ List.mem_map_of_mem hc)
  have hne : w ≠ [] := by
    rintro rfl
    cases k <;> exact absurd hlower (by decide)
  obtain ⟨c, cs, rfl⟩ := List.exists_cons_of_ne_nil hne
  refine ⟨⟨c, cs, rfl, hchars c List.mem_cons_self⟩, fun d hd => ?_, ?_⟩
  · exact Text.isWordChar_of_isWordStart (hchars d hd)
  · rw [← Text.byteLength_lowerAscii, hlower]
    cases k <;> decide

/-- `Position.advanceOver` two spellings of a keyword ends at the same position. -/
theorem advanceOver_eq (hv : ofWord? v = some k) (hw : ofWord? w = some k) (p : Position) :
    p.advanceOver v = p.advanceOver w := by
  rw [← p.advanceOver_lowerAscii v, ← p.advanceOver_lowerAscii w, lowerAscii_of_ofWord? hv,
    lowerAscii_of_ofWord? hw]

end Keyword

/-- `respell` does not change which keyword a word spells. -/
theorem ofWord?_respell (w : List Char) : Keyword.ofWord? (respell w) = Keyword.ofWord? w := by
  rw [respell]
  split
  · next k hk => rw [hk, Keyword.ofWord?_canonical]
  · rfl

/-! ### Characters up to the case of keywords -/

/-- `cs` and `ds` differ at most in the case of the letters of whole words that are keywords. A sign and a word
stay, and a keyword has any two spellings. -/
inductive Recased : List Char → List Char → Prop where
  | nil : Recased [] []
  | sign {c : Char} {cs ds : List Char} :
      Text.isWordChar c = false → Recased cs ds → Recased (c :: cs) (c :: ds)
  | word {w cs ds : List Char} :
      w ≠ [] → (∀ c ∈ w, Text.isWordChar c = true) → EndsWord cs → Recased cs ds →
      Recased (w ++ cs) (w ++ ds)
  | keyword {k : Keyword} {v w cs ds : List Char} :
      Keyword.ofWord? v = some k → Keyword.ofWord? w = some k → EndsWord cs → Recased cs ds →
      Recased (v ++ cs) (w ++ ds)

variable {bang : Bool} {c : Char} {cs ds : List Char} {count : Nat} {p : Position}

/-- `EndsWord` fails before a run of word characters. -/
theorem not_endsWord_append {w : List Char} (hne : w ≠ []) (hword : ∀ c ∈ w, Text.isWordChar c = true) :
    ¬EndsWord (w ++ cs) := by
  obtain ⟨c, rest, rfl⟩ := List.exists_cons_of_ne_nil hne
  intro h
  exact Bool.false_ne_true ((h c rfl).symm.trans (hword c List.mem_cons_self))

/-- `EndsWord` is the same for both. -/
theorem Recased.endsWord (h : Recased cs ds) (hcs : EndsWord cs) : EndsWord ds := by
  cases h with
  | nil => exact endsWord_nil
  | sign hc _ => exact endsWord_cons hc
  | word hne hword _ _ => exact absurd hcs (not_endsWord_append hne hword)
  | keyword hv _ _ _ =>
    have hword := Keyword.isWord_of_ofWord? hv
    exact absurd hcs (not_endsWord_append hword.ne_nil hword.chars)

/-! ### Normalization -/

/-- `cs` is empty, or begins with a sign, or with a run of word characters. -/
theorem exists_run (cs : List Char) : cs = [] ∨ (∃ c rest, cs = c :: rest ∧ Text.isWordChar c = false) ∨
    ∃ w rest, cs = w ++ rest ∧ w ≠ [] ∧ (∀ c ∈ w, Text.isWordChar c = true) ∧ EndsWord rest := by
  cases cs with
  | nil => exact .inl rfl
  | cons c rest =>
    right
    cases hc : Text.isWordChar c with
    | false => exact .inl ⟨c, rest, rfl, hc⟩
    | true =>
      obtain ⟨more, behind, rfl, hmore, hbehind⟩ := exists_more rest
      have hword : ∀ d ∈ c :: more, Text.isWordChar d = true := List.forall_mem_cons.2 ⟨hc, hmore⟩
      exact .inr ⟨c :: more, behind, rfl, List.cons_ne_nil c more, hword, hbehind⟩

/-- Induction over `cs` by way of its signs and its words. -/
theorem runInduction {P : List Char → Prop} (nil : P [])
    (sign : ∀ c rest, Text.isWordChar c = false → P rest → P (c :: rest))
    (word : ∀ w rest, w ≠ [] → (∀ c ∈ w, Text.isWordChar c = true) → EndsWord rest → P rest → P (w ++ rest))
    (cs : List Char) : P cs := by
  induction hn : cs.length using Nat.strongRecOn generalizing cs with
  | ind n ih =>
    subst hn
    rcases exists_run cs with rfl | ⟨c, rest, rfl, hc⟩ | ⟨w, rest, rfl, hne, hword, hrest⟩
    · exact nil
    · exact sign c rest hc (ih _ (Nat.lt_succ_self _) rest rfl)
    · have hlt : rest.length < (w ++ rest).length := by
        have := List.length_pos_of_ne_nil hne
        rw [List.length_append]
        omega
      exact word w rest hne hword hrest (ih _ hlt rest rfl)

/-- **Normalization** changes no more than the case of keywords: `normalizeChars cs` is `Recased`. -/
theorem recased_normalizeChars (cs : List Char) : Recased cs (normalizeChars cs) := by
  induction cs using runInduction with
  | nil => exact .nil
  | sign c rest hc ih =>
    rw [normalizeChars_sign hc]
    exact .sign hc ih
  | word w rest hne hword hrest ih =>
    rw [normalizeChars_word hne hword hrest]
    cases hk : Keyword.ofWord? w with
    | some k => exact .keyword hk (by rw [ofWord?_respell, hk]) hrest ih
    | none =>
      have hsame : respell w = w := by rw [respell, hk]
      rw [hsame]
      exact .word hne hword hrest ih

/-- The same for `normalize text`. -/
theorem recased_normalize (text : String) : Recased text.toList (normalize text).value.text.toList := by
  show Recased text.toList (String.ofList (normalizeChars text.toList)).toList
  rw [String.toList_ofList]
  exact recased_normalizeChars text.toList

/-- `Recased` characters are normalized alike. -/
theorem Recased.normalizeChars_eq (h : Recased cs ds) : normalizeChars cs = normalizeChars ds := by
  induction h with
  | nil => rfl
  | sign hc _ ih => rw [normalizeChars_sign hc, normalizeChars_sign hc, ih]
  | word hne hword hends hrest ih =>
    rw [normalizeChars_word hne hword hends, normalizeChars_word hne hword (hrest.endsWord hends), ih]
  | @keyword k v w cs ds hv hw hends hrest ih =>
    have hvword := Keyword.isWord_of_ofWord? hv
    have hwword := Keyword.isWord_of_ofWord? hw
    have hsame : respell v = respell w := by rw [respell, respell, hv, hw]
    rw [normalizeChars_word hvword.ne_nil hvword.chars hends,
      normalizeChars_word hwword.ne_nil hwword.chars (hrest.endsWord hends), hsame, ih]

/-! ### The scan -/

/-- `c :: cs` and `d :: ds` begin with tokens that are alike, in front of characters that are `Recased`, or fail
alike. -/
inductive BeginAlike (bang : Bool) (c d : Char) (cs ds : List Char) : Prop where
  | token (l l' : Lexeme) : lexeme bang c cs = .ok l → lexeme bang d ds = .ok l' → l.token = l'.token →
      (∀ p : Position, p.advanceOver (c :: l.more) = p.advanceOver (d :: l'.more)) →
      Recased l.rest l'.rest → BeginAlike bang c d cs ds
  | fault (fault : LexFault) : lexeme bang c cs = .error fault → lexeme bang d ds = .error fault → c = d →
      BeginAlike bang c d cs ds

/-- A sign `c` that is doubled in front of `cs` is doubled in front of `ds`. -/
theorem Recased.doubled_or_single (h : Recased cs ds) (hc : Text.isWordChar c = false) :
    (∃ cs' ds', cs = c :: cs' ∧ ds = c :: ds' ∧ Recased cs' ds') ∨
      cs.head? ≠ some c ∧ ds.head? ≠ some c := by
  have hword : ∀ {w : List Char} (rest : List Char), w ≠ [] → (∀ d ∈ w, Text.isWordChar d = true) →
      (w ++ rest).head? ≠ some c := by
    intro w rest hne hchars
    obtain ⟨d, more, rfl⟩ := List.exists_cons_of_ne_nil hne
    intro hd
    exact ne_of_isWordChar (hchars d List.mem_cons_self) hc (Option.some.inj hd)
  cases h with
  | nil => exact .inr ⟨nofun, nofun⟩
  | @sign d cs ds hd hrest =>
    by_cases heq : d = c
    · subst heq
      exact .inl ⟨cs, ds, rfl, rfl, hrest⟩
    · exact .inr ⟨fun h => heq (Option.some.inj h), fun h => heq (Option.some.inj h)⟩
  | word hne hchars _ _ => exact .inr ⟨hword _ hne hchars, hword _ hne hchars⟩
  | keyword hv hw _ _ =>
    have hv := Keyword.isWord_of_ofWord? hv
    have hw := Keyword.isWord_of_ofWord? hw
    exact .inr ⟨hword _ hv.ne_nil hv.chars, hword _ hw.ne_nil hw.chars⟩

/-- The sign `c` in front of both. -/
theorem Recased.beginAlike_sign (h : Recased cs ds) (hc : Text.isWordChar c = false) :
    BeginAlike bang c c cs ds := by
  have hcs : lexeme bang c cs = _ := lexeme_sign hc
  have hds : lexeme bang c ds = _ := lexeme_sign hc
  by_cases hopen : c = '('
  · rw [if_pos hopen] at hcs hds
    exact .token _ _ hcs hds rfl (fun _ => rfl) h
  by_cases hclose : c = ')'
  · rw [if_neg hopen, if_pos hclose] at hcs hds
    exact .token _ _ hcs hds rfl (fun _ => rfl) h
  by_cases hbang : c = '!' ∧ bang = true
  · rw [if_neg hopen, if_neg hclose, if_pos hbang] at hcs hds
    exact .token _ _ hcs hds rfl (fun _ => rfl) h
  by_cases hoperator : c = '&' ∨ c = '|'
  · rw [if_neg hopen, if_neg hclose, if_neg hbang, if_pos hoperator] at hcs hds
    -- `Recased` keeps signs as they are, so both texts double the sign or neither does.
    rcases h.doubled_or_single hc with ⟨cs', ds', rfl, rfl, hrest⟩ | ⟨hhead, hhead'⟩
    · rw [operatorLexeme_doubled] at hcs hds
      exact .token _ _ hcs hds rfl (fun _ => rfl) hrest
    · rw [operatorLexeme_single hhead] at hcs
      rw [operatorLexeme_single hhead'] at hds
      exact .token _ _ hcs hds rfl (fun _ => rfl) h
  · rw [if_neg hopen, if_neg hclose, if_neg hbang, if_neg hoperator] at hcs hds
    exact .fault _ hcs hds rfl

/-- The same word `c :: more` in front of both. -/
theorem Recased.beginAlike_word {more : List Char} (h : Recased cs ds)
    (hword : ∀ d ∈ c :: more, Text.isWordChar d = true) (hends : EndsWord cs) :
    BeginAlike bang c c (more ++ cs) (more ++ ds) := by
  have hcs : lexeme bang c (more ++ cs) = _ := lexeme_of_run hword hends
  have hds : lexeme bang c (more ++ ds) = _ := lexeme_of_run hword (h.endsWord hends)
  by_cases hstart : Text.isWordStart c = true
  · by_cases hlong : Limits.identifier < Text.byteLength (c :: more)
    · rw [if_pos hstart, if_pos hlong] at hcs hds
      exact .fault _ hcs hds rfl
    · rw [if_pos hstart, if_neg hlong] at hcs hds
      exact .token _ _ hcs hds rfl (fun _ => rfl) h
  · rw [if_neg hstart] at hcs hds
    by_cases hdigit : Text.isAsciiDigit c = true
    · rw [if_pos hdigit] at hcs hds
      exact .fault _ hcs hds rfl
    · rw [if_neg hdigit] at hcs hds
      exact .fault _ hcs hds rfl

/-- Two spellings of `k` in front of them. -/
theorem Recased.beginAlike_keyword {k : Keyword} {d : Char} {more more' : List Char} (h : Recased cs ds)
    (hv : Keyword.ofWord? (c :: more) = some k) (hw : Keyword.ofWord? (d :: more') = some k)
    (hends : EndsWord cs) : BeginAlike bang c d (more ++ cs) (more' ++ ds) := by
  have hcs : lexeme bang c (more ++ cs) = _ := lexeme_word (Keyword.isWord_of_ofWord? hv) hends
  have hds : lexeme bang d (more' ++ ds) = _ := lexeme_word (Keyword.isWord_of_ofWord? hw) (h.endsWord hends)
  have htoken : Token.ofWord (c :: more) = Token.ofWord (d :: more') := by
    rw [Token.ofWord_of_keyword hv, Token.ofWord_of_keyword hw]
  exact .token _ _ hcs hds htoken (Keyword.advanceOver_eq hv hw) h

/-- Texts that `BeginAlike` are scanned alike, if what is behind the first token is. -/
theorem BeginAlike.scan_eq {d : Char} (h : BeginAlike bang c d cs ds) (hc : Text.isBlank c = false)
    (hd : Text.isBlank d = false)
    (hrest : ∀ rest rest' count p, Recased rest rest' → rest.length ≤ cs.length →
      scan bang count p rest = scan bang count p rest') :
    scan bang count p (c :: cs) = scan bang count p (d :: ds) := by
  rcases Nat.lt_or_ge count Limits.tokens with hcount | hfull
  · cases h with
    | token l l' hl hl' htoken hposition hrecased =>
      have hothers := fun p => hrest _ _ (count + 1) p hrecased (lexeme_rest_length_le hl)
      rw [scan_token hc hcount hl, scan_token hd hcount hl', htoken, hposition, hothers]
    | fault fault hl hl' heq =>
      subst heq
      rw [scan_fault hc hcount hl, scan_fault hd hcount hl']
  · rw [scan_full hc hfull, scan_full hd hfull]

/-- **The scan** is the same for `Recased` characters: the tokens and their spans, or the failure and its position. -/
theorem Recased.scan_eq (h : Recased cs ds) : scan bang count p cs = scan bang count p ds := by
  -- On the length, since a token takes a whole word, which is more than one constructor of `Recased` may say.
  induction hn : cs.length using Nat.strongRecOn generalizing cs ds count p with
  | ind n ih =>
    subst hn
    cases h with
    | nil => rfl
    | @sign c cs ds hc hrest =>
      cases hblank : Text.isBlank c with
      | true =>
        rw [scan_blank hblank, scan_blank hblank]
        exact ih _ (Nat.lt_succ_self _) hrest rfl
      | false =>
        exact (hrest.beginAlike_sign hc).scan_eq hblank hblank fun rest rest' count p hr hle =>
          ih _ (Nat.lt_succ_of_le hle) hr rfl
    | @word w cs ds hne hword hends hrest =>
      obtain ⟨c, more, rfl⟩ := List.exists_cons_of_ne_nil hne
      have hblank := Text.isBlank_eq_false (hword c List.mem_cons_self)
      exact (hrest.beginAlike_word hword hends).scan_eq hblank hblank fun rest rest' count p hr hle =>
        ih _ (Nat.lt_succ_of_le hle) hr rfl
    | @keyword k v w cs ds hv hw hends hrest =>
      have hvword := Keyword.isWord_of_ofWord? hv
      have hwword := Keyword.isWord_of_ofWord? hw
      obtain ⟨c, more, rfl⟩ := List.exists_cons_of_ne_nil hvword.ne_nil
      obtain ⟨d, more', rfl⟩ := List.exists_cons_of_ne_nil hwword.ne_nil
      have hblank := Text.isBlank_eq_false (hvword.chars c List.mem_cons_self)
      have hblank' := Text.isBlank_eq_false (hwword.chars d List.mem_cons_self)
      exact (hrest.beginAlike_keyword hv hw hends).scan_eq hblank hblank' fun rest rest' count p hr hle =>
        ih _ (Nat.lt_succ_of_le hle) hr rfl

theorem Recased.byteLength_eq (h : Recased cs ds) : Text.byteLength cs = Text.byteLength ds := by
  induction h with
  | nil => rfl
  | sign _ _ ih => rw [Text.byteLength_cons, Text.byteLength_cons, ih]
  | word _ _ _ _ ih => rw [Text.byteLength_append, Text.byteLength_append, ih]
  | @keyword k v w cs ds hv hw _ _ ih =>
    have hlength : Text.byteLength v = Text.byteLength w := by
      rw [← Text.byteLength_lowerAscii v, ← Text.byteLength_lowerAscii w, Keyword.lowerAscii_of_ofWord? hv,
        Keyword.lowerAscii_of_ofWord? hw]
    rw [Text.byteLength_append, Text.byteLength_append, hlength, ih]

/-- `Recased` texts have the same tokens, or the same error. -/
theorem Recased.tokenize_eq {text text' : String} (h : Recased text.toList text'.toList) (l : Lexer) :
    (l.tokenize text).value.1 = (l.tokenize text').value.1 := by
  have hlength : text.utf8ByteSize = text'.utf8ByteSize := by
    rw [← Text.byteLength_toList, ← Text.byteLength_toList, h.byteLength_eq]
  rw [l.tokenize_fst, l.tokenize_fst, hlength, h.scan_eq]

end BoolCalc
