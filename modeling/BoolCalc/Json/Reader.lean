import BoolCalc.Json.Value
import BoolCalc.Text.Character

namespace BoolCalc.Json

/-!
# Reading JSON

* `numberLiteral?` : a number at the front of a text;
* `stringBody?` : the rest of a string whose opening quote was read;
* `readValue?`, `readItems?`, `readMembers?` : values, and what stands between brackets;
* `parse?` : the value of a whole text.

Each reader hands back what follows. The laws `numberLiteral?_append` and `stringBody?_length` say that
the text is used up from the front, which is why reading ends.
-/

/-- Something read from the front of a text, and what follows it, which has fewer than `n` characters. -/
structure Front (α : Type) (n : Nat) where
  value : α
  rest : List Char
  /-- Something was used up. The bound makes the readers end. -/
  shorter : rest.length < n

namespace Front

/-- The same front under a weaker bound `n`. -/
def weaken (h : m ≤ n) (f : Front α m) : Front α n :=
  ⟨f.value, f.rest, Nat.lt_of_lt_of_le f.shorter h⟩

/-- The value `g f.value`, read from the same characters. -/
def map (g : α → β) (f : Front α n) : Front β n := ⟨g f.value, f.rest, f.shorter⟩

end Front

/-- White space between the parts of a value: blank, line feed, carriage return, tab. -/
def isSpace (c : Char) : Bool := c == ' ' || c == '\n' || c == '\t' || c == '\r'

/-- The text without the `isSpace` characters in front. -/
def skip (cs : List Char) : List Char := cs.dropWhile isSpace

theorem skip_length_le (cs : List Char) : (skip cs).length ≤ cs.length :=
  (List.dropWhile_suffix isSpace).length_le

/-! ### Numbers -/

/-- The `-` at the front, if there is one, and what follows. -/
def signPart : List Char → List Char × List Char
  | '-' :: cs => (['-'], cs)
  | cs => ([], cs)

/-- The digits before the point: `0`, or digits that start with another one. -/
def integerPart? : List Char → Option (List Char × List Char)
  | [] => none
  | c :: cs =>
    if c = '0' then some (['0'], cs)
    else if Text.isAsciiDigit c then
      some (c :: cs.takeWhile Text.isAsciiDigit, cs.dropWhile Text.isAsciiDigit)
    else none

def digitsPart? (cs : List Char) : Option (List Char × List Char) :=
  if (cs.takeWhile Text.isAsciiDigit).isEmpty then none
  else some (cs.takeWhile Text.isAsciiDigit, cs.dropWhile Text.isAsciiDigit)

/-- The point and the digits behind it; `[]` without a point. -/
def fractionPart? : List Char → Option (List Char × List Char)
  | '.' :: cs => (digitsPart? cs).map fun (ds, rest) => ('.' :: ds, rest)
  | cs => some ([], cs)

/-- The exponent, `e+10` for example; `[]` if there is none. -/
def exponentPart? : List Char → Option (List Char × List Char)
  | 'e' :: '+' :: cs => (digitsPart? cs).map fun (ds, rest) => ('e' :: '+' :: ds, rest)
  | 'e' :: '-' :: cs => (digitsPart? cs).map fun (ds, rest) => ('e' :: '-' :: ds, rest)
  | 'e' :: cs => (digitsPart? cs).map fun (ds, rest) => ('e' :: ds, rest)
  | 'E' :: '+' :: cs => (digitsPart? cs).map fun (ds, rest) => ('E' :: '+' :: ds, rest)
  | 'E' :: '-' :: cs => (digitsPart? cs).map fun (ds, rest) => ('E' :: '-' :: ds, rest)
  | 'E' :: cs => (digitsPart? cs).map fun (ds, rest) => ('E' :: ds, rest)
  | cs => some ([], cs)

/-- The number at the front of `cs` and what follows it. -/
def numberLiteral? (cs : List Char) : Option (List Char × List Char) :=
  let (sign, afterSign) := signPart cs
  match integerPart? afterSign with
  | none => none
  | some (integer, afterInteger) =>
    match fractionPart? afterInteger with
    | none => none
    | some (fraction, afterFraction) =>
      (exponentPart? afterFraction).map fun (exponent, rest) =>
        (sign ++ integer ++ fraction ++ exponent, rest)

theorem digitsPart?_append {cs ds rest : List Char} (h : digitsPart? cs = some (ds, rest)) :
    ds ++ rest = cs := by
  unfold digitsPart? at h
  split at h
  · cases h
  · cases h; exact List.takeWhile_append_dropWhile

theorem signPart_append (cs : List Char) : (signPart cs).1 ++ (signPart cs).2 = cs := by
  unfold signPart; split <;> rfl

theorem integerPart?_append {cs ds rest : List Char} (h : integerPart? cs = some (ds, rest)) :
    ds ++ rest = cs ∧ ds ≠ [] := by
  unfold integerPart? at h
  split at h
  · cases h
  split at h
  · next hz => cases h; simp [hz]
  split at h
  · cases h; simp [List.takeWhile_append_dropWhile]
  · cases h

theorem fractionPart?_append {cs ds rest : List Char} (h : fractionPart? cs = some (ds, rest)) :
    ds ++ rest = cs := by
  unfold fractionPart? at h
  split at h
  · obtain ⟨⟨d, r⟩, hd, he⟩ := Option.map_eq_some_iff.1 h
    cases he
    simp [digitsPart?_append hd]
  · cases h; rfl

theorem exponentPart?_append {cs ds rest : List Char} (h : exponentPart? cs = some (ds, rest)) :
    ds ++ rest = cs := by
  unfold exponentPart? at h
  split at h
  case h_7 => cases h; rfl
  all_goals
    obtain ⟨⟨d, r⟩, hd, he⟩ := Option.map_eq_some_iff.1 h
    cases he
    simp [digitsPart?_append hd]

/-- A number and what follows it make up the text `cs`, and the number is not `[]`. -/
theorem numberLiteral?_append {cs literal rest : List Char}
    (h : numberLiteral? cs = some (literal, rest)) : literal ++ rest = cs ∧ literal ≠ [] := by
  unfold numberLiteral? at h
  simp only at h
  split at h
  · cases h
  next integer afterInteger hi =>
  split at h
  · cases h
  next fraction afterFraction hf =>
  obtain ⟨⟨exponent, r⟩, he, hr⟩ := Option.map_eq_some_iff.1 h
  cases hr
  obtain ⟨hia, hine⟩ := integerPart?_append hi
  refine ⟨?_, by simp [hine]⟩
  rw [List.append_assoc, exponentPart?_append he, List.append_assoc, fractionPart?_append hf,
    List.append_assoc, hia, signPart_append]

/-! ### Strings -/

def hexDigit? (c : Char) : Option Nat :=
  if '0' ≤ c ∧ c ≤ '9' then some (c.toNat - '0'.toNat)
  else if 'a' ≤ c ∧ c ≤ 'f' then some (c.toNat - 'a'.toNat + 10)
  else if 'A' ≤ c ∧ c ≤ 'F' then some (c.toNat - 'A'.toNat + 10)
  else none

/-- The number of 16 bits that the digits `a`, `b`, `c`, `d` spell. -/
def hexUnit? (a b c d : Char) : Option Nat :=
  match hexDigit? a, hexDigit? b, hexDigit? c, hexDigit? d with
  | some a, some b, some c, some d => some (((a * 16 + b) * 16 + c) * 16 + d)
  | _, _, _, _ => none

/-- The first unit of a surrogate pair, `0xD800 ≤ n < 0xDC00`. -/
def isHighUnit (n : Nat) : Bool := 0xD800 ≤ n && n < 0xDC00

/-- The second unit of a surrogate pair, `0xDC00 ≤ n < 0xE000`. -/
def isLowUnit (n : Nat) : Bool := 0xDC00 ≤ n && n < 0xE000

/-- The character of the surrogate pair `high`, `low`. -/
def pairChar (high low : Nat) : Char :=
  Char.ofNat (0x10000 + (high - 0xD800) * 0x400 + (low - 0xDC00))

/-- The character that a letter behind `\` stands for, if it is not `u`. -/
def shortEscape? : Char → Option Char
  | '"' => some '"'
  | '\\' => some '\\'
  | '/' => some '/'
  | 'b' => some '\x08'
  | 'f' => some '\x0c'
  | 'n' => some '\n'
  | 'r' => some '\r'
  | 't' => some '\t'
  | _ => none

/-- The unit of a `\u` escape at the front of a text, if there is one that is second in a pair. -/
def lowEscape? : List Char → Option (Nat × List Char)
  | '\\' :: 'u' :: a :: b :: c :: d :: rest =>
    match hexUnit? a b c d with
    | some n => if isLowUnit n then some (n, rest) else none
    | none => none
  | _ => none

theorem lowEscape?_length {cs rest : List Char} {n : Nat} (h : lowEscape? cs = some (n, rest)) :
    rest.length < cs.length := by
  unfold lowEscape? at h
  split at h
  · split at h
    · split at h
      · cases h; simp only [List.length_cons]; omega
      · cases h
    · cases h
  · cases h

/-- The characters up to the closing quote, behind those in `acc`, newest first. The string is `none`
when an escape spelled half of a surrogate pair, here or before (`whole` is false). -/
def stringBody? (acc : List Char) (whole : Bool) : List Char → Option (Option String × List Char)
  | [] => none
  | '"' :: rest => some (if whole then some (String.ofList acc.reverse) else none, rest)
  | '\\' :: 'u' :: a :: b :: c :: d :: rest =>
    match hexUnit? a b c d with
    | none => none
    | some n =>
      if isHighUnit n then
        match h : lowEscape? rest with
        | some (low, after) =>
          have := lowEscape?_length h
          stringBody? (pairChar n low :: acc) whole after
        -- Half a pair is no character, but the string is read on: nobody may ask for its value.
        | none => stringBody? acc false rest
      else if isLowUnit n then stringBody? acc false rest
      else stringBody? (Char.ofNat n :: acc) whole rest
  | '\\' :: c :: rest =>
    match shortEscape? c with
    | some e => stringBody? (e :: acc) whole rest
    | none => none
  | c :: rest =>
    if c.toNat < 0x20 || c == '\\' then none else stringBody? (c :: acc) whole rest
termination_by cs => cs.length
decreasing_by all_goals (simp only [List.length_cons]; omega)

/-- What follows a string is shorter than `cs`, which has at least the closing quote before it. -/
theorem stringBody?_length {acc : List Char} {whole : Bool} {cs rest : List Char}
    {s : Option String} (h : stringBody? acc whole cs = some (s, rest)) :
    rest.length < cs.length := by
  fun_induction stringBody? acc whole cs with
  | case1 => cases h
  | case2 => cases h; simp
  | case3 => cases h
  | case4 _ _ _ _ _ _ _ _ _ _ low after hlow _ ih =>
    have := lowEscape?_length hlow
    have := ih h
    simp only [List.length_cons]; omega
  | case5 _ _ _ _ _ _ _ _ _ _ _ ih =>
    have := ih h
    simp only [List.length_cons]; omega
  | case6 _ _ _ _ _ _ _ _ _ _ _ ih =>
    have := ih h
    simp only [List.length_cons]; omega
  | case7 _ _ _ _ _ _ _ _ _ _ _ ih =>
    have := ih h
    simp only [List.length_cons]; omega
  | case8 _ _ _ _ _ _ _ ih =>
    have := ih h
    simp only [List.length_cons]; omega
  | case9 => cases h
  | case10 => cases h
  | case11 _ _ _ _ _ _ _ _ ih =>
    have := ih h
    simp only [List.length_cons]; omega

/-- The string whose opening quote was read before `cs`. -/
def readString? (cs : List Char) : Option (Front (Option String) cs.length) :=
  match h : stringBody? [] true cs with
  | some (s, rest) => some ⟨s, rest, stringBody?_length h⟩
  | none => none

/-! ### Values -/

/-- The JSON value of a string; `none` is a string with half of a surrogate pair. -/
def ofString : Option String → Json
  | some s => .string s
  | none => .broken

/-- The value of an object with the members `ms`. A key of `none`, which is no sequence of characters, breaks it. -/
def ofMembers (ms : List (Option String × Json)) : Json :=
  match ms.mapM fun (k, v) => k.map fun k => (k, v) with
  | some ms => .object ms
  | none => .broken

/-- The number at the front of `cs`. -/
def readNumber? (cs : List Char) : Option (Front Json cs.length) :=
  match h : numberLiteral? cs with
  | some (literal, rest) =>
    some ⟨.number (String.ofList literal), rest, by
      obtain ⟨happ, hne⟩ := numberLiteral?_append h
      have hlen := congrArg List.length happ
      have hpos := List.length_pos_iff.2 hne
      simp only [List.length_append] at hlen
      omega⟩
  | none => none

mutual

/-- The value at the front of `cs`, behind white space. -/
def readValue? (cs : List Char) : Option (Front Json cs.length) :=
  match cs with
  | [] => none
  | 'n' :: 'u' :: 'l' :: 'l' :: rest =>
    some ⟨.null, rest, by simp only [List.length_cons]; omega⟩
  | 't' :: 'r' :: 'u' :: 'e' :: rest =>
    some ⟨.bool true, rest, by simp only [List.length_cons]; omega⟩
  | 'f' :: 'a' :: 'l' :: 's' :: 'e' :: rest =>
    some ⟨.bool false, rest, by simp only [List.length_cons]; omega⟩
  | '"' :: rest => (readString? rest).map fun f => (f.map ofString).weaken (Nat.le_succ _)
  | '[' :: rest =>
    match h : skip rest with
    | ']' :: after =>
      some ⟨.array [], after, by
        have := skip_length_le rest; simp only [h, List.length_cons] at this ⊢; omega⟩
    | _ => (readItems? rest).map fun f => (f.map .array).weaken (Nat.le_succ _)
  | '\x7b' :: rest =>
    match h : skip rest with
    | '\x7d' :: after =>
      some ⟨.object [], after, by
        have := skip_length_le rest; simp only [h, List.length_cons] at this ⊢; omega⟩
    | _ => (readMembers? rest).map fun f => (f.map ofMembers).weaken (Nat.le_succ _)
  | c :: rest =>
    if isSpace c then (readValue? rest).map (.weaken (Nat.le_succ _)) else readNumber? (c :: rest)
termination_by (cs.length, 0)
decreasing_by all_goals exact Prod.Lex.left _ _ (Nat.lt_succ_self _)

/-- One or more items and `]`. -/
def readItems? (cs : List Char) : Option (Front (List Json) cs.length) :=
  match readValue? cs with
  | none => none
  | some ⟨v, rest, shorter⟩ =>
    match h : skip rest with
    | ']' :: after =>
      some ⟨[v], after, by
        have := skip_length_le rest; simp only [h, List.length_cons] at this; omega⟩
    | ',' :: after =>
      (readItems? after).map fun f => (f.map (v :: ·)).weaken (by
        have := skip_length_le rest; simp only [h, List.length_cons] at this; omega)
    | _ => none
termination_by (cs.length, 1)
decreasing_by
  · exact Prod.Lex.right _ (by decide)
  · exact Prod.Lex.left _ _ (by
      have := skip_length_le rest; simp only [h, List.length_cons] at this; omega)

/-- One or more members `"key": value` and the closing brace. -/
def readMembers? (cs : List Char) : Option (Front (List (Option String × Json)) cs.length) :=
  match hkey : skip cs with
  | '"' :: afterQuote =>
    match readString? afterQuote with
    | none => none
    | some ⟨k, afterKey, hk⟩ =>
      match hcolon : skip afterKey with
      | ':' :: afterColon =>
        match readValue? afterColon with
        | none => none
        | some ⟨v, rest, shorter⟩ =>
          match h : skip rest with
          | '\x7d' :: after =>
            some ⟨[(k, v)], after, by
              have h1 := skip_length_le rest
              have h2 := skip_length_le afterKey
              have h3 := skip_length_le cs
              simp only [h, hcolon, hkey, List.length_cons] at h1 h2 h3; omega⟩
          | ',' :: after =>
            (readMembers? after).map fun f => (f.map ((k, v) :: ·)).weaken (by
              have h1 := skip_length_le rest
              have h2 := skip_length_le afterKey
              have h3 := skip_length_le cs
              simp only [h, hcolon, hkey, List.length_cons] at h1 h2 h3; omega)
          | _ => none
      | _ => none
  | _ => none
termination_by (cs.length, 1)
decreasing_by
  · exact Prod.Lex.left _ _ (by
      have h2 := skip_length_le afterKey
      have h3 := skip_length_le cs
      simp only [hcolon, hkey, List.length_cons] at h2 h3; omega)
  · exact Prod.Lex.left _ _ (by
      have h1 := skip_length_le rest
      have h2 := skip_length_le afterKey
      have h3 := skip_length_le cs
      simp only [h, hcolon, hkey, List.length_cons] at h1 h2 h3; omega)

end

/-- The value of `text`, if this holds nothing else but white space. -/
def parse? (text : String) : Option Json :=
  match readValue? text.toList with
  | some f => if f.rest.all isSpace then some f.value else none
  | none => none

end BoolCalc.Json
