import BoolCalc.Json.Reader
import BoolCalc.Json.Writer
import BoolCalc.Proofs.Text.Decimal

namespace BoolCalc.Json

/-!
# Spellings of JSON values

* `EndsNumber` : characters that do not go on with a number;
* `numberLiteral?_toString` : an integer in front of them is read to its end;
* `stringBody?_escape` : a string whose characters are escaped is read as it was;
* `Part`, `Spells` : the ways to spell a value, one or more items up to the closing bracket, and one or
  more members up to the closing brace, in front of what follows;
* `isRead_of_spells` : **completeness**, the reader makes out of a spelling what was spelled;
* `parse?_of_spells` : the same of a whole text.
-/

variable {cs rest : List Char}

/-! ### Numbers -/

/-- The characters `rest` do not go on with a number. -/
def EndsNumber (rest : List Char) : Prop :=
  ∀ c ∈ rest.head?, Text.isAsciiDigit c = false ∧ c ≠ '.' ∧ c ≠ 'e' ∧ c ≠ 'E'

/-- The digits of `n` carry no sign. -/
theorem signPart_toDigits (n : Nat) :
    signPart (Nat.toDigits 10 n ++ rest) = ([], Nat.toDigits 10 n ++ rest) := by
  obtain ⟨c, cs, hcs, hc⟩ := Text.exists_toDigits_eq_cons n
  rw [hcs]
  unfold signPart
  split
  · next h =>
    obtain rfl := (List.cons.inj h).1
    exact absurd hc (by decide)
  · rfl

/-- The digits of `n` are its part before a point. -/
theorem integerPart?_toDigits (n : Nat) (h : EndsNumber rest) :
    integerPart? (Nat.toDigits 10 n ++ rest) = some (Nat.toDigits 10 n, rest) := by
  rcases Nat.eq_zero_or_pos n with rfl | hn
  · rw [Nat.toDigits_zero]
    rfl
  · obtain ⟨c, cs, hcs, hc⟩ := Text.head_toDigits_ne_zero hn
    have hdigit : ∀ d ∈ c :: cs, Text.isAsciiDigit d = true := fun d hd =>
      Text.isAsciiDigit_of_mem_toDigits (hcs ▸ hd)
    have hmore : ∀ d ∈ cs, Text.isAsciiDigit d = true := fun d hd =>
      hdigit d (List.mem_cons_of_mem c hd)
    have hend : ∀ d ∈ rest.head?, Text.isAsciiDigit d = false := fun d hd => (h d hd).1
    rw [hcs, List.cons_append, integerPart?, if_neg hc, if_pos (hdigit c List.mem_cons_self),
      Text.takeWhile_run hmore hend, Text.dropWhile_run hmore hend]

theorem fractionPart?_of_endsNumber (h : EndsNumber rest) : fractionPart? rest = some ([], rest) := by
  unfold fractionPart?
  split
  · exact absurd rfl (h '.' rfl).2.1
  · rfl

theorem exponentPart?_of_endsNumber (h : EndsNumber rest) : exponentPart? rest = some ([], rest) := by
  unfold exponentPart?
  split
  case h_1 | h_2 | h_3 => exact absurd rfl (h 'e' rfl).2.2.1
  case h_4 | h_5 | h_6 => exact absurd rfl (h 'E' rfl).2.2.2
  case h_7 => rfl

/-- The text of `n` is read to its end, and no further. -/
theorem numberLiteral?_toString (n : Int) (h : EndsNumber rest) :
    numberLiteral? ((toString n).toList ++ rest) = some ((toString n).toList, rest) := by
  have hinteger (k : Nat) := integerPart?_toDigits k h
  have hfraction := fractionPart?_of_endsNumber h
  have hexponent := exponentPart?_of_endsNumber h
  rw [Text.toList_toString, Text.intChars]
  split
  · simp [numberLiteral?, signPart_toDigits, hinteger, hfraction, hexponent]
  · simp [numberLiteral?, signPart, hinteger, hfraction, hexponent]

/-! ### Strings -/

/-- The two hexadecimal digits of a control character `n` have its number. -/
theorem hexUnit?_hexPair {n : Nat} (h : n < 0x20) :
    ∃ a b, hexPair n = [a, b] ∧ hexUnit? '0' '0' a b = some n := by
  have hall : ∀ n < 0x20, hexUnit? '0' '0' (Nat.digitChar (n / 16 % 16)) (Nat.digitChar (n % 16)) =
      some n := by decide
  exact ⟨_, _, rfl, hall n h⟩

/-- The characters of `escapeChar c` are read as `c`. -/
theorem stringBody?_escapeChar (acc : List Char) (whole : Bool) (c : Char) (tail : List Char) :
    stringBody? acc whole (escapeChar c ++ tail) = stringBody? (c :: acc) whole tail := by
  have hshort {e : Char} (he : shortEscape? e = some c) (hu : e ≠ 'u') :
      stringBody? acc whole ('\\' :: e :: tail) = stringBody? (c :: acc) whole tail := by
    rw [stringBody?]
    · simp only [he]
    · exact fun _ _ _ _ _ h _ => hu h
  -- The seven characters with a short escape go by `hshort`, one after the other.
  unfold escapeChar
  split
  · next h => exact hshort (by rw [h]; rfl) (by decide)
  split
  · next h => exact hshort (by rw [h]; rfl) (by decide)
  split
  · next h => exact hshort (by rw [h]; rfl) (by decide)
  split
  · next h => exact hshort (by rw [h]; rfl) (by decide)
  split
  · next h => exact hshort (by rw [h]; rfl) (by decide)
  split
  · next h => exact hshort (by rw [h]; rfl) (by decide)
  split
  · next h => exact hshort (by rw [h]; rfl) (by decide)
  split
  · -- The other control characters are written by their numbers, which are no halves of a pair.
    next hlow =>
    obtain ⟨a, b, hpair, hunit⟩ := hexUnit?_hexPair hlow
    have hhigh : isHighUnit c.toNat = false := by simp [isHighUnit]; omega
    have hlow' : isLowUnit c.toNat = false := by simp [isLowUnit]; omega
    rw [hpair]
    simp only [List.cons_append, List.nil_append]
    rw [stringBody?]
    simp [hunit, hhigh, hlow', Char.ofNat_toNat]
  · -- Any other character stands for itself, since it is neither a quote nor a backslash.
    next hquote hbackslash _ _ _ _ _ hlow =>
    rw [List.singleton_append, stringBody?]
    · simp [hlow, hbackslash]
    · exact hquote
    · rintro a b d e rest rfl
      exact absurd rfl hbackslash
    · rintro d rest rfl
      exact absurd rfl hbackslash

/-- The string `s` with its characters escaped is read as `s`, up to the closing quote. -/
theorem stringBody?_escape (acc s rest : List Char) :
    stringBody? acc true (s.flatMap escapeChar ++ '"' :: rest) =
      some (some (String.ofList (acc.reverse ++ s)), rest) := by
  induction s generalizing acc with
  | nil =>
    rw [List.flatMap_nil, List.nil_append, stringBody?, List.append_nil]
    rfl
  | cons c s ih =>
    rw [List.flatMap_cons, List.append_assoc, stringBody?_escapeChar, ih, List.reverse_cons,
      List.append_assoc, List.singleton_append]

/-- The quoted string `s` is read as `s`. -/
theorem readString?_quote (s : String) (rest : List Char) :
    ∃ f, readString? (s.toList.flatMap escapeChar ++ '"' :: rest) = some f ∧ f.value = some s ∧
      f.rest = rest := by
  have hbody := stringBody?_escape [] s.toList rest
  rw [List.reverse_nil, List.nil_append, String.ofList_toList] at hbody
  unfold readString?
  split
  · next s' rest' h =>
    obtain ⟨rfl, rfl⟩ := Prod.mk.inj (Option.some.inj (hbody.symm.trans h))
    exact ⟨_, rfl, rfl, rfl⟩
  · next h => cases hbody.symm.trans h

/-! ### Values -/

/-- What a piece of JSON text is for: a value, items and `]`, or members and the closing brace. -/
inductive Part where
  | value (v : Json)
  /-- One or more items of an array. -/
  | items (vs : List Json)
  /-- One or more members of an object. -/
  | members (ms : List (String × Json))

/-- A spelling of the part stands in front of the characters `rest`. -/
inductive Spells : Part → (cs rest : List Char) → Prop where
  | null {rest : List Char} : Spells (.value .null) ('n' :: 'u' :: 'l' :: 'l' :: rest) rest
  | true {rest : List Char} : Spells (.value (.bool true)) ('t' :: 'r' :: 'u' :: 'e' :: rest) rest
  | false {rest : List Char} :
      Spells (.value (.bool false)) ('f' :: 'a' :: 'l' :: 's' :: 'e' :: rest) rest
  | int {rest : List Char} (n : Int) : EndsNumber rest →
      Spells (.value (.int n)) ((toString n).toList ++ rest) rest
  | string {rest : List Char} (s : String) : Spells (.value (.string s)) (quoteOnto s rest) rest
  | space {c : Char} {v : Json} {cs rest : List Char} : isSpace c = true →
      Spells (.value v) cs rest → Spells (.value v) (c :: cs) rest
  | emptyArray {cs rest : List Char} : skip cs = ']' :: rest →
      Spells (.value (.array [])) ('[' :: cs) rest
  | array {vs : List Json} {cs rest : List Char} : Spells (.items vs) cs rest →
      Spells (.value (.array vs)) ('[' :: cs) rest
  | emptyObject {cs rest : List Char} : skip cs = '\x7d' :: rest →
      Spells (.value (.object [])) ('\x7b' :: cs) rest
  | object {ms : List (String × Json)} {cs rest : List Char} : Spells (.members ms) cs rest →
      Spells (.value (.object ms)) ('\x7b' :: cs) rest
  | lastItem {v : Json} {cs mid rest : List Char} : Spells (.value v) cs mid →
      skip mid = ']' :: rest → Spells (.items [v]) cs rest
  | item {v : Json} {vs : List Json} {cs mid next rest : List Char} : Spells (.value v) cs mid →
      skip mid = ',' :: next → Spells (.items vs) next rest → Spells (.items (v :: vs)) cs rest
  | lastMember {k : String} {v : Json} {cs behindKey behindColon mid rest : List Char} :
      skip cs = quoteOnto k behindKey → skip behindKey = ':' :: behindColon →
      Spells (.value v) behindColon mid → skip mid = '\x7d' :: rest →
      Spells (.members [(k, v)]) cs rest
  | member {k : String} {v : Json} {ms : List (String × Json)}
      {cs behindKey behindColon mid next rest : List Char} :
      skip cs = quoteOnto k behindKey → skip behindKey = ':' :: behindColon →
      Spells (.value v) behindColon mid → skip mid = ',' :: next → Spells (.members ms) next rest →
      Spells (.members ((k, v) :: ms)) cs rest

/-- What was read and what follows, without the bound of `f`. -/
def Front.pair {α : Type} {n : Nat} (f : Front α n) : α × List Char := (f.value, f.rest)

@[simp] theorem Front.pair_weaken {α : Type} {m n : Nat} (h : m ≤ n) (f : Front α m) :
    (f.weaken h).pair = f.pair := rfl

@[simp] theorem Front.pair_map {α β : Type} {n : Nat} (g : α → β) (f : Front α n) :
    (f.map g).pair = (g f.pair.1, f.pair.2) := rfl

/-- The reader makes the part out of the characters, and leaves `rest`. -/
def Part.IsRead : Part → (cs rest : List Char) → Prop
  | .value v, cs, rest => (readValue? cs).map Front.pair = some (v, rest)
  | .items vs, cs, rest => (readItems? cs).map Front.pair = some (vs, rest)
  | .members ms, cs, rest =>
    (readMembers? cs).map Front.pair = some (ms.map fun m => (some m.1, m.2), rest)

/-! #### Where parts begin -/

theorem skip_cons_of_not_space {c : Char} (hc : isSpace c = false) (cs : List Char) :
    skip (c :: cs) = c :: cs := by
  rw [skip, List.dropWhile_cons, hc]
  rfl

theorem skip_cons_of_space {c : Char} (hc : isSpace c = true) (cs : List Char) :
    skip (c :: cs) = skip cs := by
  rw [skip, List.dropWhile_cons, if_pos hc, skip]

/-- Neither `-` nor a digit is white space. -/
theorem isSpace_of_number {c : Char} (hc : c = '-' ∨ Text.isAsciiDigit c = true) :
    isSpace c = false := by
  rcases hc with rfl | hc
  · rfl
  · rw [← Bool.not_eq_true]
    intro hspace
    simp only [isSpace, Bool.or_eq_true, beq_iff_eq] at hspace
    rcases hspace with ((rfl | rfl) | rfl) | rfl <;> exact absurd hc (by decide)

/-- No spelling begins with `]` or `\x7d`, even behind white space. -/
theorem skip_ne_of_spells {p : Part} (h : Spells p cs rest) (tail : List Char) :
    skip cs ≠ ']' :: tail ∧ skip cs ≠ '\x7d' :: tail := by
  induction h with
  | null | true | false | emptyArray | array | emptyObject | object =>
    rw [skip_cons_of_not_space (by rfl)]
    exact ⟨by simp, by simp⟩
  | string =>
    rw [quoteOnto, skip_cons_of_not_space (by rfl)]
    exact ⟨by simp, by simp⟩
  | int n =>
    -- A number begins with a digit or a minus sign, and neither is a bracket.
    obtain ⟨c, cs, hcs, hc⟩ := Text.exists_intChars_eq_cons n
    rw [Text.toList_toString, hcs, List.cons_append, skip_cons_of_not_space (isSpace_of_number hc)]
    constructor <;>
    · intro h
      obtain rfl := (List.cons.inj h).1
      rcases hc with hc | hc <;> exact absurd hc (by decide)
  | space hc _ ih =>
    rw [skip_cons_of_space hc]
    exact ih
  | lastItem _ _ ih => exact ih
  | item _ _ _ ih => exact ih
  | lastMember hk | member hk =>
    rw [hk]
    exact ⟨by simp [quoteOnto], by simp [quoteOnto]⟩

/-! #### Completeness -/

/-- A character `c` that begins no other value is white space, or begins a number. -/
theorem readValue?_of_other {c : Char} (hc : c ∉ ['n', 't', 'f', '"', '[', '\x7b']) (cs : List Char) :
    readValue? (c :: cs) =
      if isSpace c then (readValue? cs).map (.weaken (Nat.le_succ _)) else readNumber? (c :: cs) := by
  simp only [List.mem_cons, List.not_mem_nil, or_false, not_or] at hc
  obtain ⟨hn, ht, hf, hquote, hbracket, hbrace⟩ := hc
  rw [readValue?]
  · exact fun _ h _ => hn h
  · exact fun _ h _ => ht h
  · exact fun _ h _ => hf h
  · exact hquote
  · exact hbracket
  · exact hbrace

/-- `-` or a digit begins a number. -/
theorem readValue?_of_number {c : Char} (hc : c = '-' ∨ Text.isAsciiDigit c = true) (cs : List Char) :
    readValue? (c :: cs) = readNumber? (c :: cs) := by
  have hother : ∀ d ∈ ['n', 't', 'f', '"', '[', '\x7b'],
      ¬(d = '-' ∨ Text.isAsciiDigit d = true) := by simp [Text.isAsciiDigit]
  rw [readValue?_of_other fun hmem => hother c hmem hc, isSpace_of_number hc]
  rfl

/-- `readValue?` skips white space. -/
theorem readValue?_of_space {c : Char} (hc : isSpace c = true) (cs : List Char) :
    readValue? (c :: cs) = (readValue? cs).map (.weaken (Nat.le_succ _)) := by
  have hother : ∀ d ∈ ['n', 't', 'f', '"', '[', '\x7b'], ¬isSpace d = true := by simp [isSpace]
  rw [readValue?_of_other fun hmem => hother c hmem hc, if_pos hc]

/-- The text of the integer `n` is read as `n`. -/
theorem isRead_int (n : Int) (h : EndsNumber rest) :
    (Part.value (.int n)).IsRead ((toString n).toList ++ rest) rest := by
  have hnumber := numberLiteral?_toString n h
  obtain ⟨c, cs, hcs, hc⟩ := Text.exists_intChars_eq_cons n
  have htext : (toString n).toList = c :: cs := (Text.toList_toString n).trans hcs
  rw [htext, List.cons_append] at hnumber
  rw [Part.IsRead, htext, List.cons_append, readValue?_of_number hc]
  unfold readNumber?
  split
  · next literal rest' hread =>
    obtain ⟨rfl, rfl⟩ := Prod.mk.inj (Option.some.inj (hnumber.symm.trans hread))
    have hvalue : Json.number (String.ofList (c :: cs)) = .int n := by
      rw [← htext, String.ofList_toList]
      rfl
    exact congrArg (fun v => some (v, rest)) hvalue
  · next hread => cases hnumber.symm.trans hread

/-- `ofMembers` of keys that are sequences of characters is an `.object`. -/
theorem ofMembers_map_some (ms : List (String × Json)) :
    ofMembers (ms.map fun m => (some m.1, m.2)) = .object ms := by
  have hkeys : (ms.map fun m => (some m.1, m.2)).mapM
      (fun (m : Option String × Json) => m.1.map fun k => (k, m.2)) = some ms := by
    induction ms with
    | nil => rfl
    | cons m ms ih => simp [ih]
  unfold ofMembers
  split
  · next ms' h => exact congrArg Json.object (Option.some.inj (h.symm.trans hkeys))
  · next h => cases h.symm.trans hkeys

/-- Where the member `k`, `v` stands, `readMembers?` goes by what follows it, `mid`. -/
theorem readMembers?_of_member {k : String} {v : Json} {behindKey behindColon mid : List Char}
    (hk : skip cs = quoteOnto k behindKey) (hcolon : skip behindKey = ':' :: behindColon)
    (hv : (Part.value v).IsRead behindColon mid) :
    (readMembers? cs).map Front.pair =
      match skip mid with
      | '\x7d' :: after => some ([(some k, v)], after)
      | ',' :: after => (readMembers? after).map fun f => ((some k, v) :: f.value, f.rest)
      | _ => none := by
  obtain ⟨f, hf, hpair⟩ := Option.map_eq_some_iff.1 hv
  obtain ⟨rfl, rfl⟩ := Prod.mk.inj hpair
  obtain ⟨g, hquote, hvalue, hrest⟩ := readString?_quote k behindKey
  -- The reader looks at the quote, the key, the colon and what follows the value; the hypotheses settle the first
  -- three.
  rw [readMembers?]
  split
  · next afterQuote hkey =>
    obtain rfl : _ = afterQuote := (List.cons.inj (hk.symm.trans hkey)).2
    split
    · next h => cases hquote.symm.trans h
    · next k' afterKey _ h =>
      obtain rfl := Option.some.inj (hquote.symm.trans h)
      obtain rfl : k' = some k := hvalue
      obtain rfl : afterKey = behindKey := hrest
      split
      · next afterColon h =>
        obtain rfl := (List.cons.inj (hcolon.symm.trans h)).2
        rw [hf]
        dsimp only
        split
        · next h => simp [h, Front.pair]
        · next h => simp [h, Function.comp_def, Front.pair, Front.map, Front.weaken]
        · -- Neither a brace nor a comma: both sides are `none`.
          next hbrace hcomma =>
          split
          · next h => exact absurd h (hbrace _)
          · next h => exact absurd h (hcomma _)
          · rfl
      · next h => exact absurd hcolon (h _)
  · next h => exact absurd hk (h _)

/-- **Completeness.** Out of a spelling of the part `p`, the reader makes `p`. -/
theorem isRead_of_spells {p : Part} (h : Spells p cs rest) : p.IsRead cs rest := by
  -- Each case unfolds the reader once; the branches that it does not take contradict what the spelling
  -- says about the next character.
  induction h with
  | null | true | false =>
    rw [Part.IsRead, readValue?]
    rfl
  | int n hrest => exact isRead_int n hrest
  | @string rest s =>
    obtain ⟨f, hf, hvalue, hrest⟩ := readString?_quote s rest
    rw [Part.IsRead, quoteOnto, readValue?, hf]
    simp [Front.pair, Front.map, Front.weaken, hvalue, hrest, ofString]
  -- White space is skipped before any branch is chosen.
  | space hc _ ih =>
    rw [Part.IsRead, readValue?_of_space hc]
    obtain ⟨f, hf, hpair⟩ := Option.map_eq_some_iff.1 ih
    simp [hf, hpair]
  -- The reader asks for `]` behind the opening bracket. For items, `skip_ne_of_spells` says that there is none.
  | emptyArray hskip =>
    rw [Part.IsRead, readValue?]
    split
    · next after h =>
      obtain rfl := (List.cons.inj (hskip.symm.trans h)).2
      rfl
    · next h => exact absurd hskip (h _)
  | array hvs ih =>
    obtain ⟨f, hf, hpair⟩ := Option.map_eq_some_iff.1 ih
    rw [Part.IsRead, readValue?]
    split
    · next after h => exact absurd h (skip_ne_of_spells hvs after).1
    · simp [hf, hpair]
  | emptyObject hskip =>
    rw [Part.IsRead, readValue?]
    split
    · next after h =>
      obtain rfl := (List.cons.inj (hskip.symm.trans h)).2
      rfl
    · next h => exact absurd hskip (h _)
  | object hms ih =>
    obtain ⟨f, hf, hpair⟩ := Option.map_eq_some_iff.1 ih
    rw [Part.IsRead, readValue?]
    split
    · next after h => exact absurd h (skip_ne_of_spells hms after).2
    · simp [hf, hpair, ofMembers_map_some]
  -- Behind an item the reader looks for `,` or `]`, and `hskip` says which one stands there.
  | lastItem _ hskip ih =>
    obtain ⟨⟨v, mid, shorter⟩, hf, hpair⟩ := Option.map_eq_some_iff.1 ih
    obtain ⟨rfl, rfl⟩ := Prod.mk.inj hpair
    rw [Part.IsRead, readItems?, hf]
    dsimp only
    split
    · next after h =>
      obtain rfl := (List.cons.inj (hskip.symm.trans h)).2
      rfl
    · next after h => cases hskip.symm.trans h
    · next h _ => exact absurd hskip (h _)
  | item _ hskip _ ih ihs =>
    obtain ⟨⟨v, mid, shorter⟩, hf, hpair⟩ := Option.map_eq_some_iff.1 ih
    obtain ⟨rfl, rfl⟩ := Prod.mk.inj hpair
    obtain ⟨g, hg, hpairs⟩ := Option.map_eq_some_iff.1 ihs
    rw [Part.IsRead, readItems?, hf]
    dsimp only
    split
    · next after h => cases hskip.symm.trans h
    · next after h =>
      obtain rfl := (List.cons.inj (hskip.symm.trans h)).2
      simp [hg, hpairs]
    · next _ h => exact absurd hskip (h _)
  | lastMember hk hcolon _ hskip ih =>
    rw [Part.IsRead, readMembers?_of_member hk hcolon ih, hskip]
    rfl
  | member hk hcolon _ hskip _ ih ihs =>
    obtain ⟨g, hg, hpairs⟩ := Option.map_eq_some_iff.1 ihs
    obtain ⟨hvalue, hrest⟩ := Prod.mk.inj hpairs
    rw [Part.IsRead, readMembers?_of_member hk hcolon ih, hskip]
    simp [hg, hvalue, hrest]

/-- A text that spells `v` is read as `v`. -/
theorem parse?_of_spells {v : Json} {text : String} (h : Spells (.value v) text.toList []) :
    parse? text = some v := by
  obtain ⟨f, hf, hpair⟩ := Option.map_eq_some_iff.1 (isRead_of_spells h)
  obtain ⟨hvalue, hrest⟩ := Prod.mk.inj hpair
  rw [parse?, hf]
  simp [hrest, hvalue]

end BoolCalc.Json
