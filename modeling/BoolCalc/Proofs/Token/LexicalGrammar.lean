import BoolCalc.Proofs.Token.Lexemes

namespace BoolCalc

/-!
# The lexical grammar

* `Piece` : a lexeme of a text, with the blanks before it;
* `Cuts` : characters are cut into such pieces, each of whose lexemes is as long as possible, and blanks;
* `scan_of_cuts`, `cuts_of_lexes` : the scan of characters that are cut, and that no others have tokens;
* `Placed` : the tokens of a stream stand where the lexemes of a text do;
* `Lexer.exists_tokens_iff_cuts` : **lexical grammar**, a text has tokens if it is cut into the lexemes of these
  tokens within the limits, and then each token has the span of its lexeme.
-/

/-! ### Pieces -/

/-- A lexeme of a text, the token it makes, and the `blanks` before it. -/
structure Piece where
  blanks : List Char
  lexeme : List Char
  token : Token
  deriving DecidableEq, Repr

def Piece.chars (x : Piece) : List Char := x.blanks ++ x.lexeme

/-- The characters before the lexeme of the piece `x` that follows the pieces `xs`. -/
def Piece.before (xs : List Piece) (x : Piece) : List Char := xs.flatMap Piece.chars ++ x.blanks

/-- The tokens of pieces the first of which starts at `p`. -/
def Piece.tokensFrom (p : Position) : List Piece → List (Spanned Token)
  | [] => []
  | x :: xs =>
    ⟨x.token, ⟨p.advanceOver x.blanks, p.advanceOver x.chars⟩⟩ :: tokensFrom (p.advanceOver x.chars) xs

/-- The characters are cut into the pieces, and blanks behind them. Each lexeme is the `Longest` in front of what
follows. -/
inductive Cuts (bang : Bool) : List Char → List Piece → Prop where
  | blanks {cs : List Char} : (∀ c ∈ cs, Text.isBlank c = true) → Cuts bang cs []
  | piece {x : Piece} {rest : List Char} {xs : List Piece} :
      (∀ c ∈ x.blanks, Text.isBlank c = true) → IsLexeme bang x.lexeme x.token →
      Text.byteLength x.lexeme ≤ Limits.identifier → Longest bang x.lexeme rest → Cuts bang rest xs →
      Cuts bang (x.chars ++ rest) (x :: xs)

variable {bang : Bool} {c : Char} {cs rest : List Char} {ts : List Token} {x : Piece} {xs : List Piece}
  {count i : Nat} {p : Position}

/-! ### The scan -/

/-- `scan` passes over blanks. -/
theorem scan_blanks {blanks : List Char} (h : ∀ c ∈ blanks, Text.isBlank c = true) :
    scan bang count p (blanks ++ cs) = scan bang count (p.advanceOver blanks) cs := by
  induction blanks generalizing p with
  | nil => rfl
  | cons c blanks ih =>
    have hc := h c List.mem_cons_self
    rw [List.cons_append, scan_blank hc, ih fun d hd => h d (List.mem_cons_of_mem c hd), Position.advanceOver_cons]

/-- **The scan of a cutting.** If the pieces `xs` are within `Limits.tokens`, the tokens are theirs, and the scan
ends behind all characters. -/
theorem scan_of_cuts (h : Cuts bang cs xs) (hcount : count + xs.length ≤ Limits.tokens) :
    scan bang count p cs = ⟨Piece.tokensFrom p xs, .ok (p.advanceOver cs)⟩ := by
  induction h generalizing count p with
  | @blanks cs hblank =>
    have hscan : scan bang count p (cs ++ []) = _ := scan_blanks hblank
    rw [List.append_nil] at hscan
    rw [hscan, scan_nil]
    rfl
  | @piece x rest xs hblank hlexeme hshort hlongest _ ih =>
    obtain ⟨c, more, hx⟩ := hlexeme.exists_cons
    rw [hx] at hlexeme hshort hlongest
    -- The scan passes over the blanks, takes the lexeme as a whole, and goes on behind it.
    have hlex := lexeme_of_longest hlexeme hshort hlongest
    rw [List.length_cons] at hcount
    have hlt : count < Limits.tokens := by omega
    have hothers : scan bang (count + 1) (p.advanceOver x.chars) rest = _ := ih (by omega)
    have hstop : (p.advanceOver x.blanks).advanceOver (c :: more) = p.advanceOver x.chars := by
      rw [Piece.chars, hx, Position.advanceOver_append]
    have hchars : x.chars ++ rest = x.blanks ++ c :: (more ++ rest) := by
      rw [Piece.chars, hx, List.append_assoc, List.cons_append]
    rw [hchars, scan_blanks hblank, scan_token hlexeme.isBlank_eq_false hlt hlex, hstop, hothers,
      Piece.tokensFrom, ← hchars, Position.advanceOver_append]

/-! ### Characters and tokens -/

/-- A blank `c` in front belongs to the first piece, or to the blanks at the end. -/
theorem Cuts.blank (hc : Text.isBlank c = true) (h : Cuts bang cs xs) :
    ∃ ys, Cuts bang (c :: cs) ys ∧ ys.map Piece.token = xs.map Piece.token := by
  cases h with
  | blanks hblank => exact ⟨[], .blanks (List.forall_mem_cons.2 ⟨hc, hblank⟩), rfl⟩
  | @piece x rest xs hblank hlexeme hshort hlongest hrest =>
    -- The first piece takes the blank in.
    refine ⟨⟨c :: x.blanks, x.lexeme, x.token⟩ :: xs, ?_, rfl⟩
    show Cuts bang ((⟨c :: x.blanks, x.lexeme, x.token⟩ : Piece).chars ++ rest) _
    exact .piece (List.forall_mem_cons.2 ⟨hc, hblank⟩) hlexeme hshort hlongest hrest

/-- Characters that make the tokens `ts` are cut into lexemes of `ts`. -/
theorem cuts_of_lexes (h : Lexes bang cs ts) : ∃ xs, Cuts bang cs xs ∧ xs.map Piece.token = ts := by
  induction h with
  | nil => exact ⟨[], .blanks nofun, rfl⟩
  | blank hc _ ih =>
    obtain ⟨xs, hxs, rfl⟩ := ih
    exact hxs.blank hc
  | @token c cs l ts _ hl _ ih =>
    obtain ⟨xs, hxs, rfl⟩ := ih
    obtain ⟨hchars, hlexeme, hshort, hlongest⟩ := lexeme_eq_ok_iff.1 hl
    refine ⟨⟨[], c :: l.more, l.token⟩ :: xs, ?_, rfl⟩
    show Cuts bang (c :: cs) _
    rw [← hchars]
    exact .piece (x := ⟨[], c :: l.more, l.token⟩) (fun _ h => nomatch h) hlexeme hshort hlongest hxs

/-- `Lexes` with blanks in front. -/
theorem Lexes.append {blanks : List Char} (h : ∀ c ∈ blanks, Text.isBlank c = true) (hcs : Lexes bang cs ts) :
    Lexes bang (blanks ++ cs) ts := by
  induction blanks with
  | nil => exact hcs
  | cons c blanks ih =>
    exact .blank (h c List.mem_cons_self) (ih fun d hd => h d (List.mem_cons_of_mem c hd))

/-- Characters that are cut into `xs` make the tokens of `xs`. -/
theorem Cuts.lexes (h : Cuts bang cs xs) : Lexes bang cs (xs.map Piece.token) := by
  induction h with
  | @blanks cs hblank =>
    rw [← List.append_nil cs]
    exact Lexes.append hblank .nil
  | @piece x rest xs hblank hlexeme hshort hlongest _ ih =>
    obtain ⟨c, more, hx⟩ := hlexeme.exists_cons
    rw [hx] at hlexeme hshort hlongest
    rw [Piece.chars, hx, List.append_assoc]
    exact Lexes.append hblank (.token hlexeme.isBlank_eq_false (lexeme_of_longest hlexeme hshort hlongest) ih)

/-- Characters that are scanned to their end make at most `Limits.tokens` tokens. -/
theorem Lexes.length_le (h : Lexes bang cs ts) {q : Position} (hending : (scan bang 0 p cs).ending = .ok q) :
    ts.length ≤ Limits.tokens := by
  apply Nat.le_of_not_lt
  intro hmany
  have hlength : Limits.tokens < 0 + ts.length := by rwa [Nat.zero_add]
  obtain ⟨offset, span, hfull⟩ := (scan_of_lexes h 0 p).2 (Nat.zero_le _) hlength
  rw [hending] at hfull
  cases hfull

/-! ### Places -/

/-- The `i`-th piece, what is before it, and some characters behind it make up the text. -/
theorem Cuts.exists_behind (h : Cuts bang cs xs) (hx : xs[i]? = some x) :
    ∃ behind, cs = Piece.before (xs.take i) x ++ x.lexeme ++ behind := by
  induction h generalizing i with
  | blanks _ => cases hx
  | @piece y rest ys _ _ _ _ _ ih =>
    cases i with
    | zero =>
      obtain rfl := Option.some.inj hx
      exact ⟨rest, rfl⟩
    | succ i =>
      obtain ⟨behind, hrest⟩ := ih hx
      refine ⟨behind, ?_⟩
      rw [hrest, Piece.before, Piece.before, List.take_succ_cons, List.flatMap_cons]
      simp only [List.append_assoc]

/-- The `i`-th token has the span of the `i`-th lexeme. -/
theorem Piece.getElem?_tokensFrom (hx : xs[i]? = some x) : (tokensFrom p xs)[i]? =
    some ⟨x.token, ⟨p.advanceOver (before (xs.take i) x),
      p.advanceOver (before (xs.take i) x ++ x.lexeme)⟩⟩ := by
  induction xs generalizing i p with
  | nil => cases hx
  | cons y ys ih =>
    cases i with
    | zero =>
      obtain rfl := Option.some.inj hx
      rfl
    | succ i =>
      -- What is before the piece begins with the first piece.
      have hbefore : before ((y :: ys).take (i + 1)) x = y.chars ++ before (ys.take i) x := by
        rw [before, before, List.take_succ_cons, List.flatMap_cons, List.append_assoc]
      rw [tokensFrom, List.getElem?_cons_succ, ih hx, hbefore]
      simp only [List.append_assoc, Position.advanceOver_append]

theorem Piece.length_tokensFrom : (tokensFrom p xs).length = xs.length := by
  induction xs generalizing p with
  | nil => rfl
  | cons x xs ih => rw [tokensFrom, List.length_cons, List.length_cons, ih]

theorem Piece.map_value_tokensFrom : (tokensFrom p xs).map Spanned.value = xs.map Piece.token := by
  induction xs generalizing p with
  | nil => rfl
  | cons x xs ih => rw [tokensFrom, List.map_cons, List.map_cons, ih]

/-- The tokens of pieces stand behind `p`, where the first piece starts. -/
theorem Piece.offset_le_of_mem_tokensFrom {t : Spanned Token} (ht : t ∈ tokensFrom p xs) :
    p.offset ≤ t.span.start.offset := by
  induction xs generalizing p with
  | nil => cases ht
  | cons x xs ih =>
    rcases List.mem_cons.1 ht with rfl | hmem
    · show p.offset ≤ (p.advanceOver x.blanks).offset
      rw [Position.offset_advanceOver]
      exact Nat.le_add_right _ _
    · have hlater := ih hmem
      rw [Position.offset_advanceOver] at hlater
      exact Nat.le_trans (Nat.le_add_right _ _) hlater

/-- The spans of `tokensFrom` follow one another. -/
theorem Piece.pairwise_tokensFrom :
    (tokensFrom p xs).Pairwise fun t u => t.span.stop.offset ≤ u.span.start.offset := by
  induction xs generalizing p with
  | nil => exact .nil
  | cons x xs ih => exact .cons (fun _ hu => offset_le_of_mem_tokensFrom hu) ih

/-- No token of `tokensFrom` has an empty span. -/
theorem Cuts.offset_lt (h : Cuts bang cs xs) {t : Spanned Token} (ht : t ∈ Piece.tokensFrom p xs) :
    t.span.start.offset < t.span.stop.offset := by
  induction h generalizing p with
  | blanks _ => cases ht
  | @piece x rest xs _ hlexeme _ _ _ ih =>
    rcases List.mem_cons.1 ht with rfl | hmem
    · obtain ⟨c, more, hx⟩ := hlexeme.exists_cons
      have hpos : 0 < Text.byteLength x.lexeme := Text.byteLength_pos (hx ▸ List.cons_ne_nil c more)
      show (p.advanceOver x.blanks).offset < (p.advanceOver x.chars).offset
      rw [Piece.chars, Position.advanceOver_append, Position.offset_advanceOver (p := p.advanceOver x.blanks)]
      omega
    · exact ih hmem

/-! ### The tokens of a text -/

/-- The values of `s.tokens` are those of `s.body` and an end of input. -/
theorem TokenStream.map_value_tokens (s : TokenStream) :
    s.tokens.map Spanned.value = s.body.map Spanned.value ++ [.endOfInput] :=
  List.map_append

/-- The tokens of `s` are those of the pieces `xs`, each where its lexeme stands in `text`, and the end of input
stands at the end. -/
structure Placed (text : String) (xs : List Piece) (s : TokenStream) : Prop where
  fresh : s.cursor = 0
  length : s.body.length = xs.length
  /-- A token has the span of its lexeme: the bytes of the text from the end of what is `before`. The positions are
  those that the characters before them lead to. -/
  span : ∀ i x, xs[i]? = some x → ∃ before behind span,
    before = Piece.before (xs.take i) x ∧ text.toList = before ++ x.lexeme ++ behind ∧
    s.body[i]? = some ⟨x.token, span⟩ ∧
    span.start = Position.start.advanceOver before ∧ span.start.offset = Text.byteLength before ∧
    span.stop = Position.start.advanceOver (before ++ x.lexeme) ∧
    span.stop.offset = Text.byteLength before + Text.byteLength x.lexeme ∧
    span.slice text = String.ofList x.lexeme
  disjoint : s.body.Pairwise fun t u => t.span.stop.offset ≤ u.span.start.offset
  nonempty : ∀ t ∈ s.body, t.span.start.offset < t.span.stop.offset
  final : s.final = .point (Position.start.advanceOver text.toList)
  final_offset : s.final.start.offset = text.utf8ByteSize

/-- The tokens of a text that is cut into `xs` are those of the pieces. -/
theorem placed_of_cuts {text : String} (h : Cuts bang text.toList xs) : Placed text xs
    { body := Piece.tokensFrom .start xs, final := .point (Position.start.advanceOver text.toList) } where
  fresh := rfl
  length := Piece.length_tokensFrom
  span := by
    intro i x hx
    -- The text is what stands before the piece, its lexeme and what is behind.
    obtain ⟨behind, htext⟩ := h.exists_behind hx
    have hstart : (Position.start.advanceOver (Piece.before (xs.take i) x)).offset = _ :=
      Position.offset_start_advanceOver
    have hstop : (Position.start.advanceOver (Piece.before (xs.take i) x ++ x.lexeme)).offset = _ :=
      Position.offset_start_advanceOver
    have hslice : Text.slice? _ (Text.byteLength (Piece.before (xs.take i) x ++ x.lexeme))
        (Piece.before (xs.take i) x ++ x.lexeme ++ behind) = _ := Text.slice?_append
    refine ⟨_, behind, _, rfl, htext, Piece.getElem?_tokensFrom hx, rfl, hstart, rfl, ?_, ?_⟩
    · rw [hstop, Text.byteLength_append]
    · rw [Span.slice, hstart, hstop, htext, hslice, Option.getD_some]
  disjoint := Piece.pairwise_tokensFrom
  nonempty := fun _ ht => h.offset_lt ht
  final := rfl
  final_offset := by
    show (Position.start.advanceOver text.toList).offset = _
    rw [Position.offset_start_advanceOver, Text.byteLength_toList]

/-- **The tokens of a text** that is cut into `xs`, in whatever way: it has some if it is within the limits, and
they are those of the pieces. -/
theorem Lexer.tokenize_eq_ok_iff_of_cuts {l : Lexer} {text : String} {s : TokenStream}
    (h : Cuts l.preferences.acceptBang text.toList xs) : (l.tokenize text).value.1 = .ok s ↔
      text.utf8ByteSize ≤ Limits.expression ∧ xs.length ≤ Limits.tokens ∧
        s = { body := Piece.tokensFrom .start xs, final := .point (Position.start.advanceOver text.toList) } := by
  rw [l.tokenize_eq_ok_iff]
  constructor
  · rintro ⟨hlong, q, hending, rfl⟩
    have hmany := h.lexes.length_le hending
    rw [List.length_map] at hmany
    have hscan := scan_of_cuts (p := .start) h (Nat.le_trans (Nat.le_of_eq (Nat.zero_add _)) hmany)
    rw [hscan] at hending
    obtain rfl := Except.ok.inj hending
    exact ⟨hlong, hmany, by rw [hscan]⟩
  · rintro ⟨hlong, hmany, rfl⟩
    have hscan := scan_of_cuts (p := .start) h (Nat.le_trans (Nat.le_of_eq (Nat.zero_add _)) hmany)
    rw [hscan]
    exact ⟨hlong, _, rfl, rfl⟩

/-- **Lexical grammar.** Let `l` be any lexer.
* It gives the tokens `ts` and an end of input exactly for the texts within `Limits.expression` that are cut into
  lexemes of `ts`, if these are at most `Limits.tokens`.
* The tokens are `Placed` by every cutting: each has the span of its lexeme. -/
theorem Lexer.exists_tokens_iff_cuts (l : Lexer) (text : String) :
    (∀ ts : List Token,
      (∃ s, (l.tokenize text).value.1 = .ok s ∧ s.tokens.map Spanned.value = ts ++ [.endOfInput]) ↔
        text.utf8ByteSize ≤ Limits.expression ∧ ts.length ≤ Limits.tokens ∧
          ∃ xs, Cuts l.preferences.acceptBang text.toList xs ∧ xs.map Piece.token = ts) ∧
    ∀ s xs, (l.tokenize text).value.1 = .ok s → Cuts l.preferences.acceptBang text.toList xs →
      Placed text xs s := by
  constructor
  · intro ts
    constructor
    · rintro ⟨s, hs, hts⟩
      obtain ⟨hlong, q, hending, rfl⟩ := l.tokenize_eq_ok_iff.1 hs
      have hlexes := lexes_of_scan hending
      rw [TokenStream.map_value_tokens] at hts
      obtain rfl := List.append_cancel_right hts
      exact ⟨hlong, hlexes.length_le hending, cuts_of_lexes hlexes⟩
    · rintro ⟨hlong, hmany, xs, hcuts, rfl⟩
      rw [List.length_map] at hmany
      refine ⟨_, (tokenize_eq_ok_iff_of_cuts hcuts).2 ⟨hlong, hmany, rfl⟩, ?_⟩
      rw [TokenStream.map_value_tokens, Piece.map_value_tokensFrom]
  · intro s xs hs hcuts
    obtain ⟨-, -, rfl⟩ := (tokenize_eq_ok_iff_of_cuts hcuts).1 hs
    exact placed_of_cuts hcuts

/-- The pieces of `é`, line feed, `!a &&& `, with `acceptBang`: three ampersands are `&&` and `&`, and the byte
offsets run ahead of the columns. -/
theorem Lexer.exists_tokens_iff_cuts_ampersands :
    ∃ xs : List Piece, xs.map Piece.lexeme = [['é'], ['!'], ['a'], ['&', '&'], ['&']] ∧
      Cuts true "é\n!a &&& ".toList xs ∧
      ∃ s, (Lexer.tokenize { preferences := { acceptBang := true } } "é\n!a &&& ").value.1 = .ok s ∧
        s.tokens = [⟨.identifier "é", ⟨0, 1, 1⟩, ⟨2, 1, 2⟩⟩, ⟨.not, ⟨3, 2, 1⟩, ⟨4, 2, 2⟩⟩,
          ⟨.identifier "a", ⟨4, 2, 2⟩, ⟨5, 2, 3⟩⟩, ⟨.reserved "&&", ⟨6, 2, 4⟩, ⟨8, 2, 6⟩⟩,
          ⟨.reserved "&", ⟨8, 2, 6⟩, ⟨9, 2, 7⟩⟩, ⟨.endOfInput, ⟨10, 2, 8⟩, ⟨10, 2, 8⟩⟩] ∧
        Placed "é\n!a &&& " xs s := by
  have hname : ∀ c, Text.isWordStart c = true → Keyword.ofWord? [c] = none →
      IsLexeme true [c] (.identifier (String.ofList [c])) := by
    intro c hstart hfree
    exact .word hstart (List.forall_mem_nil _) (spells_iff.2 (by rw [Token.ofWord, hfree]))
  have hlongest : ∀ c d rest, Text.isWordStart c = true → Text.isWordChar d = false →
      Longest true [c] (d :: rest) := by
    intro c d rest hstart hd
    have hchars : ∀ x ∈ [c], Text.isWordChar x = true :=
      List.forall_mem_singleton.2 (Text.isWordChar_of_isWordStart hstart)
    exact (longest_word_iff hstart hchars).2 (endsWord_cons hd)
  have hblank : ∀ c, Text.isBlank c = true → ∀ d ∈ [c], Text.isBlank d = true :=
    fun c hc => List.forall_mem_singleton.2 hc
  have hsingle : Cuts true "& ".toList [⟨[], ['&'], .reserved "&"⟩] :=
    .piece (x := ⟨[], ['&'], .reserved "&"⟩) (List.forall_mem_nil _) (.single (.inl rfl)) (by decide)
      ((longest_sign_iff (by decide)).2 fun _ => by decide) (.blanks (hblank ' ' (by decide)))
  have hdoubled : Cuts true " &&& ".toList (⟨[' '], ['&', '&'], .reserved "&&"⟩ :: _) :=
    .piece (x := ⟨[' '], ['&', '&'], .reserved "&&"⟩) (hblank ' ' (by decide)) (.doubled (.inl rfl))
      (by decide) (longest_doubled (by decide)) hsingle
  have ha : Cuts true "a &&& ".toList (⟨[], ['a'], .identifier "a"⟩ :: _) :=
    .piece (x := ⟨[], ['a'], .identifier "a"⟩) (List.forall_mem_nil _) (hname 'a' (by decide) (by decide))
      (by decide) (hlongest 'a' ' ' _ (by decide) (by decide)) hdoubled
  have hnot : Cuts true "\n!a &&& ".toList (⟨['\n'], ['!'], .not⟩ :: _) :=
    .piece (x := ⟨['\n'], ['!'], .not⟩) (hblank '\n' (by decide)) (.not rfl) (by decide)
      ((longest_sign_iff (by decide)).2 fun h => absurd h (by decide)) ha
  have htext : Cuts true "é\n!a &&& ".toList (⟨[], ['é'], .identifier "é"⟩ :: _) :=
    .piece (x := ⟨[], ['é'], .identifier "é"⟩) (List.forall_mem_nil _) (hname 'é' (by decide) (by decide))
      (by decide) (hlongest 'é' '\n' _ (by decide) (by decide)) hnot
  have htokens := (tokenize_eq_ok_iff_of_cuts (l := { preferences := { acceptBang := true } }) htext).2
    ⟨by decide, by decide, rfl⟩
  exact ⟨_, rfl, htext, _, htokens, by decide, (exists_tokens_iff_cuts _ _).2 _ _ htokens htext⟩

end BoolCalc
