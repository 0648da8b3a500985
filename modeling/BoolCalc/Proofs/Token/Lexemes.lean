import BoolCalc.Proofs.Text.Offsets
import BoolCalc.Proofs.Token.Lexing

namespace BoolCalc

/-!
# The token at the front of a text

* `EndsWord` : characters with which no word goes on;
* `lexeme_of_run`, `lexeme_word` : the token of a text that begins with a word;
* `lexeme_sign`, `operatorLexeme_doubled`, `operatorLexeme_single` : the token of a text that begins with a
  sign;
* `Spells`, `IsLexeme` : the words and the lexemes of each token, however long they are;
* `Longest` : a lexeme is as long as the characters behind it allow;
* `lexeme_eq_ok_iff` : **longest lexemes**, the token at the front is that of the longest lexeme, which must
  not be too long.
-/

/-- No word goes on with `cs`. -/
def EndsWord (cs : List Char) : Prop := ∀ c ∈ cs.head?, Text.isWordChar c = false

theorem endsWord_nil : EndsWord [] := fun _ h => by cases h

theorem endsWord_cons {c : Char} {cs : List Char} (h : Text.isWordChar c = false) : EndsWord (c :: cs) := by
  rintro _ ⟨⟩
  exact h

variable {bang : Bool} {c : Char} {cs rest word : List Char} {t : Token}

/-! ### Words -/

def Token.ofKeyword : Keyword → Token
  | .and => .and
  | .or => .or
  | .not => .not
  | .true => .literal true
  | .false => .literal false

/-- `Token.ofWord` of a word that spells `k`. -/
theorem Token.ofWord_of_keyword {k : Keyword} (h : Keyword.ofWord? word = some k) :
    Token.ofWord word = Token.ofKeyword k := by
  rw [Token.ofWord, h]
  cases k <;> rfl

theorem ne_of_isWordChar {d : Char} (hc : Text.isWordChar c = true) (hd : Text.isWordChar d = false) :
    c ≠ d := by
  rintro rfl
  exact Bool.false_ne_true (hd.symm.trans hc)

/-- A run of word characters is taken as a whole. It makes a token if it starts with `isWordStart` and is within
`Limits.identifier`. -/
theorem lexeme_of_run (hword : ∀ d ∈ c :: cs, Text.isWordChar d = true) (hrest : EndsWord rest) :
    lexeme bang c (cs ++ rest) =
      if Text.isWordStart c then
        if Limits.identifier < Text.byteLength (c :: cs) then .error (.tooLong (Text.byteLength (c :: cs)))
        else .ok ⟨Token.ofWord (c :: cs), cs, rest⟩
      else if Text.isAsciiDigit c then .error (.digitFirst (c :: cs))
      else .error .character := by
  have hc := hword c List.mem_cons_self
  have hmore : ∀ d ∈ cs, Text.isWordChar d = true := fun d hd => hword d (List.mem_cons_of_mem c hd)
  have hoperator : ¬(c = '&' ∨ c = '|') :=
    not_or.2 ⟨ne_of_isWordChar hc (by decide), ne_of_isWordChar hc (by decide)⟩
  have hbang : ¬(c = '!' ∧ bang = true) := not_and_of_not_left _ (ne_of_isWordChar hc (by decide))
  rw [lexeme, if_neg (ne_of_isWordChar hc (by decide)), if_neg (ne_of_isWordChar hc (by decide)), if_neg hbang,
    if_neg hoperator, wordLexeme, Text.takeWhile_run hmore hrest, Text.dropWhile_run hmore hrest]

/-- `lexeme` takes a word as a whole. -/
theorem lexeme_word (hword : IsWord (c :: cs)) (hrest : EndsWord rest) :
    lexeme bang c (cs ++ rest) = .ok ⟨Token.ofWord (c :: cs), cs, rest⟩ := by
  obtain ⟨⟨_, _, ⟨rfl, rfl⟩, hstart⟩, hchars, hshort⟩ := hword
  rw [lexeme_of_run hchars hrest, if_pos hstart, if_neg (Nat.not_lt.2 hshort)]

/-- `cs` is a run of word characters, possibly empty, and others behind it. -/
theorem exists_more (cs : List Char) : ∃ word rest, cs = word ++ rest ∧
    (∀ d ∈ word, Text.isWordChar d = true) ∧ EndsWord rest :=
  Text.exists_leading_run Text.isWordChar cs

/-! ### Signs -/

theorem Text.isWordChar_of_isAsciiDigit (h : Text.isAsciiDigit c = true) : Text.isWordChar c = true := by
  have hle : c.toNat ≤ '9'.toNat := by
    simp only [Text.isAsciiDigit, Bool.and_eq_true, decide_eq_true_eq] at h
    exact h.2
  have hascii : c.toNat < 0x80 := Nat.lt_of_le_of_lt hle (by decide)
  have hnumeric : Text.isNumeric c = true := by rwa [Text.isNumeric, if_pos hascii]
  simp only [Text.isWordChar, Text.isAlphanumeric, hnumeric, Bool.or_true, Bool.true_or]

/-- `lexeme` at a character `c` that belongs to no word: a token, if it is one of the signs. -/
theorem lexeme_sign (hc : Text.isWordChar c = false) : lexeme bang c cs =
    if c = '(' then .ok ⟨.openParen, [], cs⟩
    else if c = ')' then .ok ⟨.closeParen, [], cs⟩
    else if c = '!' ∧ bang = true then .ok ⟨.not, [], cs⟩
    else if c = '&' ∨ c = '|' then .ok (operatorLexeme c cs)
    else .error .character := by
  have hstart : ¬Text.isWordStart c = true := fun h =>
    Bool.false_ne_true (hc.symm.trans (Text.isWordChar_of_isWordStart h))
  have hdigit : ¬Text.isAsciiDigit c = true := fun h =>
    Bool.false_ne_true (hc.symm.trans (Text.isWordChar_of_isAsciiDigit h))
  rw [lexeme, if_neg hstart, if_neg hdigit]

/-- `operatorLexeme` takes two of the same character. -/
theorem operatorLexeme_doubled : operatorLexeme c (c :: cs) = ⟨.reserved (String.ofList [c, c]), [c], cs⟩ := by
  rw [operatorLexeme, if_pos rfl]

theorem operatorLexeme_single (h : cs.head? ≠ some c) :
    operatorLexeme c cs = ⟨.reserved (String.ofList [c]), [], cs⟩ := by
  cases cs with
  | nil => rfl
  | cons d ds =>
    have hd : d ≠ c := by
      rintro rfl
      exact h rfl
    rw [operatorLexeme, if_neg hd]

/-! ### Lexemes -/

/-- `word` spells the token: that of a `Keyword`, in any case of its letters, or `.identifier word`. -/
inductive Spells : List Char → Token → Prop where
  | keyword {k : Keyword} {word : List Char} :
      Text.sameLetters k.canonical.toList word = true → Spells word (Token.ofKeyword k)
  | name {word : List Char} :
      (∀ k : Keyword, Text.sameLetters k.canonical.toList word = false) →
      Spells word (.identifier (String.ofList word))

/-- The characters are a lexeme of the token. `!` is one if `bang` says so. -/
inductive IsLexeme (bang : Bool) : List Char → Token → Prop where
  | openParen : IsLexeme bang ['('] .openParen
  | closeParen : IsLexeme bang [')'] .closeParen
  | not : bang = true → IsLexeme bang ['!'] .not
  | single {c : Char} : c = '&' ∨ c = '|' → IsLexeme bang [c] (.reserved (String.ofList [c]))
  | doubled {c : Char} : c = '&' ∨ c = '|' → IsLexeme bang [c, c] (.reserved (String.ofList [c, c]))
  | word {c : Char} {cs : List Char} {t : Token} :
      Text.isWordStart c = true → (∀ d ∈ cs, Text.isWordChar d = true) → Spells (c :: cs) t →
      IsLexeme bang (c :: cs) t

/-- A lexeme is as long as `rest` allows: with more of these characters it is none. -/
def Longest (bang : Bool) (lexeme rest : List Char) : Prop :=
  ∀ more behind : List Char, rest = more ++ behind → more ≠ [] → ∀ t, ¬IsLexeme bang (lexeme ++ more) t

/-- `Keyword.ofWord?` in terms of `sameLetters`: no two keywords have the same letters. -/
theorem Keyword.ofWord?_eq_some_iff {k : Keyword} :
    Keyword.ofWord? word = some k ↔ Text.sameLetters k.canonical.toList word = Bool.true := by
  refine ⟨fun h => ?_, fun h => ?_⟩
  · have hsame := List.find?_some h
    exact hsame
  have hword : Text.lowerAscii word = Text.lowerAscii k.canonical.toList := (beq_iff_eq.1 h).symm
  have hsame : ∀ j : Keyword, Text.sameLetters j.canonical.toList word =
      Text.sameLetters j.canonical.toList k.canonical.toList := by
    intro j
    rw [Text.sameLetters, Text.sameLetters, hword]
  rw [ofWord?, funext hsame]
  cases k <;> decide

/-- A word spells one token, `Token.ofWord word`. -/
theorem spells_iff : Spells word t ↔ t = Token.ofWord word := by
  constructor
  · rintro (h | h)
    · exact (Token.ofWord_of_keyword (Keyword.ofWord?_eq_some_iff.2 h)).symm
    · have hfree : Keyword.ofWord? word = none :=
        List.find?_eq_none.2 fun k _ => Bool.eq_false_iff.1 (h k)
      rw [Token.ofWord, hfree]
  · rintro rfl
    cases hk : Keyword.ofWord? word with
    | some k =>
      rw [Token.ofWord_of_keyword hk]
      exact .keyword (Keyword.ofWord?_eq_some_iff.1 hk)
    | none =>
      rw [Token.ofWord, hk]
      exact .name fun k => Bool.eq_false_iff.2 (List.find?_eq_none.1 hk k (by cases k <;> decide))

namespace IsLexeme

/-- A lexeme that starts with a word character is a word, and its token is `Token.ofWord`. -/
theorem of_isWordChar (h : IsLexeme bang (c :: cs) t) (hc : Text.isWordChar c = true) :
    Text.isWordStart c = true ∧ (∀ d ∈ c :: cs, Text.isWordChar d = true) ∧ t = Token.ofWord (c :: cs) := by
  have hne : ∀ {d : Char}, Text.isWordChar d = false → c ≠ d := fun hd => ne_of_isWordChar hc hd
  cases h with
  | openParen | closeParen | not _ => exact absurd rfl (hne (by decide))
  | single hoperator | doubled hoperator =>
    rcases hoperator with rfl | rfl <;> exact absurd rfl (hne (by decide))
  | word hstart hchars hspells =>
    exact ⟨hstart, List.forall_mem_cons.2 ⟨hc, hchars⟩, spells_iff.1 hspells⟩

/-- A lexeme that starts with a sign is `(`, `)`, `!`, or an operator. -/
theorem of_sign (h : IsLexeme bang (c :: cs) t) (hc : Text.isWordChar c = false) :
    c = '(' ∧ cs = [] ∧ t = .openParen ∨ c = ')' ∧ cs = [] ∧ t = .closeParen ∨
      (c = '!' ∧ bang = true) ∧ cs = [] ∧ t = .not ∨
      (c = '&' ∨ c = '|') ∧ (cs = [] ∨ cs = [c]) ∧ t = .reserved (String.ofList (c :: cs)) := by
  cases h with
  | openParen => exact .inl ⟨rfl, rfl, rfl⟩
  | closeParen => exact .inr (.inl ⟨rfl, rfl, rfl⟩)
  | not hbang => exact .inr (.inr (.inl ⟨⟨rfl, hbang⟩, rfl, rfl⟩))
  | single hoperator => exact .inr (.inr (.inr ⟨hoperator, .inl rfl, rfl⟩))
  | doubled hoperator => exact .inr (.inr (.inr ⟨hoperator, .inr rfl, rfl⟩))
  | word hstart _ _ => exact absurd (hc.symm.trans (Text.isWordChar_of_isWordStart hstart)) Bool.false_ne_true

theorem isBlank_of_mem (h : IsLexeme bang word t) : ∀ d ∈ word, Text.isBlank d = false := by
  cases h with
  | openParen | closeParen | not _ => exact List.forall_mem_singleton.2 (by decide)
  | single hoperator => rcases hoperator with rfl | rfl <;> exact List.forall_mem_singleton.2 (by decide)
  | doubled hoperator =>
    rcases hoperator with rfl | rfl <;>
      exact List.forall_mem_cons.2 ⟨by decide, List.forall_mem_singleton.2 (by decide)⟩
  | word hstart hchars _ =>
    have hstart := Text.isBlank_eq_false (Text.isWordChar_of_isWordStart hstart)
    exact List.forall_mem_cons.2 ⟨hstart, fun d hd => Text.isBlank_eq_false (hchars d hd)⟩

theorem isBlank_eq_false (h : IsLexeme bang (c :: cs) t) : Text.isBlank c = false :=
  h.isBlank_of_mem c List.mem_cons_self

theorem exists_cons {lexeme : List Char} (h : IsLexeme bang lexeme t) : ∃ c cs, lexeme = c :: cs := by
  cases h <;> exact ⟨_, _, rfl⟩

/-- The lexeme of `.identifier name` is `name`. -/
theorem eq_of_identifier {name : String} (h : IsLexeme bang word (.identifier name)) :
    String.ofList word = name := by
  cases h with
  | word _ _ hspells =>
    generalize ht : Token.identifier name = t at hspells
    cases hspells with
    | @keyword k => cases k <;> cases ht
    | name => exact (Token.identifier.inj ht).symm

end IsLexeme

/-! ### The longest lexeme -/

/-- A word is the `Longest` lexeme if no word character follows. -/
theorem longest_word_iff (hstart : Text.isWordStart c = true)
    (hchars : ∀ d ∈ c :: cs, Text.isWordChar d = true) : Longest bang (c :: cs) rest ↔ EndsWord rest := by
  constructor
  · intro hlongest d hd
    obtain ⟨behind, rfl⟩ : ∃ behind, rest = [d] ++ behind := List.head?_eq_some_iff.1 hd
    rw [Bool.eq_false_iff]
    intro hword
    -- With the character of words that follows, the word is a longer lexeme.
    have hmore : ∀ x ∈ cs ++ [d], Text.isWordChar x = true := by
      intro x hx
      rcases List.mem_append.1 hx with hx | hx
      · exact hchars x (List.mem_cons_of_mem c hx)
      · rw [List.mem_singleton.1 hx]
        exact hword
    exact hlongest [d] behind rfl (List.cons_ne_nil d []) _ (.word hstart hmore (spells_iff.2 rfl))
  · rintro hrest more behind rfl hne t ht
    obtain ⟨d, ds, rfl⟩ := List.exists_cons_of_ne_nil hne
    have hd : Text.isWordChar d = true :=
      (ht.of_isWordChar (hchars c List.mem_cons_self)).2.1 d (by simp)
    exact Bool.false_ne_true ((hrest d rfl).symm.trans hd)

/-- A sign is the `Longest` lexeme if it is no operator, or not followed by itself. -/
theorem longest_sign_iff (hc : Text.isWordChar c = false) :
    Longest bang [c] rest ↔ (c = '&' ∨ c = '|' → rest.head? ≠ some c) := by
  constructor
  · intro hlongest hoperator hhead
    obtain ⟨behind, rfl⟩ := List.head?_eq_some_iff.1 hhead
    exact hlongest [c] behind rfl (List.cons_ne_nil c []) _ (.doubled hoperator)
  · rintro hrest more behind rfl hne t ht
    rcases ht.of_sign hc with ⟨-, h, -⟩ | ⟨-, h, -⟩ | ⟨-, h, -⟩ | ⟨hoperator, h | h, -⟩
    iterate 4 exact hne h
    have hmore : more = [c] := h
    subst hmore
    exact hrest hoperator rfl

/-- A doubled sign is the `Longest` lexeme: nothing longer starts with a sign. -/
theorem longest_doubled (hc : Text.isWordChar c = false) : Longest bang [c, c] rest := by
  rintro more behind rfl hne t ht
  obtain ⟨d, ds, rfl⟩ := List.exists_cons_of_ne_nil hne
  rcases ht.of_sign hc with ⟨-, h, -⟩ | ⟨-, h, -⟩ | ⟨-, h, -⟩ | ⟨-, h | h, -⟩ <;> simp at h

/-- `lexeme` finds a lexeme that is the `Longest`, within `Limits.identifier`. -/
theorem lexeme_of_longest {more : List Char} (h : IsLexeme bang (c :: more) t)
    (hshort : Text.byteLength (c :: more) ≤ Limits.identifier) (hlongest : Longest bang (c :: more) rest) :
    lexeme bang c (more ++ rest) = .ok ⟨t, more, rest⟩ := by
  cases hc : Text.isWordChar c with
  | true =>
    obtain ⟨hstart, hchars, rfl⟩ := h.of_isWordChar hc
    have hrest := (longest_word_iff hstart hchars).1 hlongest
    rw [lexeme_of_run hchars hrest, if_pos hstart, if_neg (Nat.not_lt.2 hshort)]
  | false =>
    rw [lexeme_sign hc]
    rcases h.of_sign hc with ⟨rfl, rfl, rfl⟩ | ⟨rfl, rfl, rfl⟩ | ⟨⟨rfl, hbang⟩, rfl, rfl⟩ |
      ⟨hoperator, hmore, rfl⟩
    · rfl
    · rfl
    · rw [if_neg (by decide), if_neg (by decide), if_pos ⟨rfl, hbang⟩]
      rfl
    · have hopen : c ≠ '(' := by rcases hoperator with rfl | rfl <;> decide
      have hclose : c ≠ ')' := by rcases hoperator with rfl | rfl <;> decide
      have hnot : ¬(c = '!' ∧ bang = true) := by
        rcases hoperator with rfl | rfl <;> exact not_and_of_not_left _ (by decide)
      rw [if_neg hopen, if_neg hclose, if_neg hnot, if_pos hoperator]
      -- The doubled sign is tried first, so a single one needs `Longest`: no second sign follows.
      rcases hmore with rfl | rfl
      · rw [List.nil_append, operatorLexeme_single ((longest_sign_iff hc).1 hlongest hoperator)]
      · rw [List.singleton_append, operatorLexeme_doubled]

/-- What `lexeme` finds is the `Longest`, and within `Limits.identifier`. -/
theorem longest_of_lexeme {l : Lexeme} (h : lexeme bang c cs = .ok l) :
    IsLexeme bang (c :: l.more) l.token ∧ Text.byteLength (c :: l.more) ≤ Limits.identifier ∧
      Longest bang (c :: l.more) l.rest := by
  cases hc : Text.isWordChar c with
  | true =>
    -- A run of word characters is taken as a whole, so that nothing longer is a word.
    obtain ⟨w, rest, rfl, hw, hrest⟩ := exists_more cs
    have hchars : ∀ d ∈ c :: w, Text.isWordChar d = true := List.forall_mem_cons.2 ⟨hc, hw⟩
    rw [lexeme_of_run hchars hrest] at h
    by_cases hstart : Text.isWordStart c = true
    · by_cases hlong : Limits.identifier < Text.byteLength (c :: w)
      · rw [if_pos hstart, if_pos hlong] at h
        cases h
      · rw [if_pos hstart, if_neg hlong] at h
        cases h
        exact ⟨.word hstart hw (spells_iff.2 rfl), Nat.le_of_not_lt hlong,
          (longest_word_iff hstart hchars).2 hrest⟩
    · rw [if_neg hstart] at h
      split at h <;> cases h
  | false =>
    -- A sign, doubled or not, is within the limit: it has at most eight bytes.
    have hsize := c.utf8Size_le_four
    have hone : Text.byteLength [c] ≤ Limits.identifier := by
      rw [Text.byteLength_cons, Text.byteLength_nil, Limits.identifier]
      omega
    have htwo : Text.byteLength [c, c] ≤ Limits.identifier := by
      rw [Text.byteLength_cons, Text.byteLength_cons, Text.byteLength_nil, Limits.identifier]
      omega
    rw [lexeme_sign hc] at h
    by_cases hoperator : c = '&' ∨ c = '|'
    · have hsign : ∀ {d : Char}, d ≠ '&' ∧ d ≠ '|' → c ≠ d := by
        rintro d hd rfl
        exact hoperator.elim hd.1 hd.2
      rw [if_neg (hsign (by decide)), if_neg (hsign (by decide)),
        if_neg (not_and_of_not_left _ (hsign (by decide))), if_pos hoperator] at h
      -- An operator is doubled if it can be, and then nothing longer starts with it.
      by_cases hhead : cs.head? = some c
      · obtain ⟨rest, rfl⟩ := List.head?_eq_some_iff.1 hhead
        rw [operatorLexeme_doubled] at h
        cases h
        exact ⟨.doubled hoperator, htwo, longest_doubled hc⟩
      · rw [operatorLexeme_single hhead] at h
        cases h
        exact ⟨.single hoperator, hone, (longest_sign_iff hc).2 fun _ => hhead⟩
    · -- The other signs are never doubled.
      have hlongest : ∀ rest, Longest bang [c] rest := fun _ =>
        (longest_sign_iff hc).2 fun h => absurd h hoperator
      split at h
      · next hopen =>
        cases h
        exact ⟨hopen ▸ .openParen, hone, hlongest cs⟩
      split at h
      · next hclose =>
        cases h
        exact ⟨hclose ▸ .closeParen, hone, hlongest cs⟩
      split at h
      · next hbang =>
        cases h
        exact ⟨hbang.1 ▸ .not hbang.2, hone, hlongest cs⟩
      cases h

/-- **Longest lexemes.** `lexeme` succeeds exactly with the lexeme that is the `Longest` at the front, if it is
within `Limits.identifier`. -/
theorem lexeme_eq_ok_iff {l : Lexeme} :
    lexeme bang c cs = .ok l ↔ l.more ++ l.rest = cs ∧ IsLexeme bang (c :: l.more) l.token ∧
      Text.byteLength (c :: l.more) ≤ Limits.identifier ∧ Longest bang (c :: l.more) l.rest := by
  constructor
  · exact fun h => ⟨lexeme_append h, longest_of_lexeme h⟩
  · rintro ⟨rfl, htoken, hshort, hlongest⟩
    exact lexeme_of_longest htoken hshort hlongest

end BoolCalc
