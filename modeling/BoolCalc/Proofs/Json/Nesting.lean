import BoolCalc.Proofs.Json.OneLine

namespace BoolCalc.Json

/-!
# Nesting

* `nesting` : how deep the arrays and objects of a value are nested;
* `deepest`, `textNesting` : how many brackets and braces of a text are open at once, those in strings aside;
* `deepest_of_spells` : a spelling of a value opens as many of them as the value is nested, whatever its layout;
* `textNesting_of_spells` : the same of a whole text.
-/

/-! ### Nesting of values -/

mutual

/-- The greatest number of `.array` and `.object` one in the other. -/
def nesting : Json → Nat
  | .array items => 1 + itemsNesting items
  | .object members => 1 + membersNesting members
  | _ => 0

/-- The greatest `nesting` of some items. -/
def itemsNesting : List Json → Nat
  | [] => 0
  | v :: vs => max v.nesting (itemsNesting vs)

/-- The greatest `nesting` of the values of some members. -/
def membersNesting : List (String × Json) → Nat
  | [] => 0
  | (_, v) :: ms => max v.nesting (membersNesting ms)

end

/-! ### Nesting of texts -/

/-- Where a character of a JSON text stands, for `deepest`. -/
inductive Place where
  | outside
  | inString
  | escaped

/-- The greatest number of brackets and braces that are open at once in some characters, `n` of them from before. -/
def deepest : Place → (n : Nat) → List Char → Nat
  | _, n, [] => n
  | .outside, n, c :: cs =>
    if c = '"' then deepest .inString n cs
    else if c = '[' ∨ c = '\x7b' then deepest .outside (n + 1) cs
    else if c = ']' ∨ c = '\x7d' then max n (deepest .outside (n - 1) cs)
    else deepest .outside n cs
  | .inString, n, c :: cs =>
    if c = '"' then deepest .outside n cs
    else if c = '\\' then deepest .escaped n cs
    else deepest .inString n cs
  | .escaped, n, _ :: cs => deepest .inString n cs

/-- The greatest number of brackets and braces of `text` that are open at once, those in strings left out. -/
def textNesting (text : String) : Nat := deepest .outside 0 text.toList

variable {c : Char} {cs rest : List Char} {n : Nat} {place : Place}

/-- The `n` brackets that are open from before are open. -/
theorem le_deepest (place : Place) (n : Nat) (cs : List Char) : n ≤ deepest place n cs := by
  induction cs generalizing place n with
  | nil => cases place <;> exact Nat.le_refl n
  | cons c cs ih =>
    cases place with
    | outside =>
      rw [deepest]
      split
      · exact ih _ n
      split
      · -- An opening bracket raises the level, and the rest is at least that deep.
        exact Nat.le_of_succ_le (ih _ (n + 1))
      split
      · exact Nat.le_max_left n _
      · exact ih _ n
    | inString =>
      rw [deepest]
      split
      · exact ih _ n
      split <;> exact ih _ n
    | escaped => exact ih _ n

/-- The character `c` is no quote, bracket or brace. -/
def IsPlain (c : Char) : Prop := c ∉ ['"', '[', '\x7b', ']', '\x7d']

instance (c : Char) : Decidable (IsPlain c) := inferInstanceAs (Decidable (c ∉ _))

theorem isPlain_of_space (hc : isSpace c = true) : IsPlain c := by
  have hmarks : ∀ d ∈ ['"', '[', '\x7b', ']', '\x7d'], isSpace d = false := by simp [isSpace]
  intro hmem
  rw [hmarks c hmem] at hc
  cases hc

theorem isPlain_of_digit (hc : Text.isAsciiDigit c = true) : IsPlain c := by
  have hmarks : ∀ d ∈ ['"', '[', '\x7b', ']', '\x7d'], Text.isAsciiDigit d = false := by simp [Text.isAsciiDigit]
  intro hmem
  rw [hmarks c hmem] at hc
  cases hc

/-- Outside of strings, a plain character does not matter for `deepest`. -/
theorem deepest_plain (hc : IsPlain c) : deepest .outside n (c :: cs) = deepest .outside n cs := by
  simp only [IsPlain, List.mem_cons, List.not_mem_nil, or_false, not_or] at hc
  obtain ⟨hquote, hbracket, hbrace, hbracket', hbrace'⟩ := hc
  rw [deepest, if_neg hquote, if_neg (not_or.2 ⟨hbracket, hbrace⟩), if_neg (not_or.2 ⟨hbracket', hbrace'⟩)]

theorem deepest_skip (n : Nat) (cs : List Char) : deepest .outside n (skip cs) = deepest .outside n cs := by
  induction cs with
  | nil => rfl
  | cons c cs ih =>
    cases hc : isSpace c with
    | true => rw [skip_cons_of_space hc, ih, deepest_plain (isPlain_of_space hc)]
    | false => rw [skip_cons_of_not_space hc]

theorem deepest_digits (k : Nat) : deepest .outside n (Nat.toDigits 10 k ++ rest) = deepest .outside n rest := by
  have hdigits : ∀ c ∈ Nat.toDigits 10 k, IsPlain c := fun c hc =>
    isPlain_of_digit (Text.isAsciiDigit_of_mem_toDigits hc)
  generalize Nat.toDigits 10 k = digits at hdigits
  induction digits with
  | nil => rfl
  | cons c digits ih =>
    obtain ⟨hc, hothers⟩ := List.forall_mem_cons.1 hdigits
    rw [List.cons_append, deepest_plain hc, ih hothers]

/-- The text of the integer `k` opens nothing. -/
theorem deepest_int (k : Int) : deepest .outside n ((toString k).toList ++ rest) = deepest .outside n rest := by
  rw [Text.toList_toString, Text.intChars]
  split
  · exact deepest_digits _
  · rw [List.cons_append, deepest_plain (by decide)]
    exact deepest_digits _

/-- In a string, a character other than a quote and a backslash does not matter for `deepest`. -/
theorem deepest_inString (hquote : c ≠ '"') (hbackslash : c ≠ '\\') :
    deepest .inString n (c :: cs) = deepest .inString n cs := by
  rw [deepest, if_neg hquote, if_neg hbackslash]

/-- In a string, the characters of `escapeChar c` do not matter for `deepest`. -/
theorem deepest_escapeChar (c : Char) (tail : List Char) :
    deepest .inString n (escapeChar c ++ tail) = deepest .inString n tail := by
  have hdigit : ∀ d < 16, Nat.digitChar d ≠ '"' ∧ Nat.digitChar d ≠ '\\' := by decide
  -- The backslash of an escape takes the character behind it along.
  unfold escapeChar
  split
  · rfl
  next hquote =>
  split
  · rfl
  next hbackslash =>
  split
  · rfl
  split
  · rfl
  split
  · rfl
  split
  · rfl
  split
  · rfl
  split
  · obtain ⟨hquote₁, hbackslash₁⟩ := hdigit (c.toNat / 16 % 16) (Nat.mod_lt _ (by decide))
    obtain ⟨hquote₂, hbackslash₂⟩ := hdigit (c.toNat % 16) (Nat.mod_lt _ (by decide))
    show deepest .inString n (Nat.digitChar (c.toNat / 16 % 16) :: Nat.digitChar (c.toNat % 16) :: tail) = _
    rw [deepest_inString hquote₁ hbackslash₁, deepest_inString hquote₂ hbackslash₂]
  · exact deepest_inString hquote hbackslash

/-- The string `s` between quotes opens nothing. -/
theorem deepest_quoteOnto (s : String) (rest : List Char) :
    deepest .outside n (quoteOnto s rest) = deepest .outside n rest := by
  have hbody (s : List Char) : deepest .inString n (s.flatMap escapeChar ++ '"' :: rest) = deepest .outside n rest := by
    induction s with
    | nil => rfl
    | cons c s ih => rw [List.flatMap_cons, List.append_assoc, deepest_escapeChar, ih]
  exact hbody s.toList

theorem deepest_close (hc : c = ']' ∨ c = '\x7d') :
    deepest .outside (n + 1) (c :: cs) = max (n + 1) (deepest .outside n cs) := by
  rcases hc with rfl | rfl <;> rfl

/-! ### Spellings -/

/-- The `nesting` of the value that the part is, or is of. -/
def Part.nesting : Part → Nat
  | .value v => v.nesting
  | .items vs => 1 + itemsNesting vs
  | .members ms => 1 + membersNesting ms

/-- How many brackets are open where a part starts, besides those around its value: one for `.items` and `.members`. -/
def Part.opened : Part → Nat
  | .value _ => 0
  | .items _ | .members _ => 1

/-- The key `k` of a member does not matter, nor does the white space around it. -/
theorem deepest_key {k : String} {behindKey behindColon : List Char} (hk : skip cs = quoteOnto k behindKey)
    (hcolon : skip behindKey = ':' :: behindColon) (n : Nat) :
    deepest .outside n cs = deepest .outside n behindColon := by
  rw [← deepest_skip, hk, deepest_quoteOnto, ← deepest_skip, hcolon, deepest_plain (by decide)]

/-- **Nesting of a spelling.** From a spelling on, as many brackets and braces are open at once as its part `p` is
nested, or as there are in `rest`. -/
theorem deepest_of_spells {p : Part} (h : Spells p cs rest) (n : Nat) :
    deepest .outside (n + p.opened) cs = max (n + p.nesting) (deepest .outside n rest) := by
  have hnothing (rest : List Char) (n : Nat) : deepest .outside n rest = max (n + 0) (deepest .outside n rest) :=
    (Nat.max_eq_right (le_deepest _ _ _)).symm
  -- Behind the last item or member there is one bracket less, and behind any other as many as before.
  have hlast {c : Char} {mid rest : List Char} (hskip : skip mid = c :: rest) (hc : c = ']' ∨ c = '\x7d') (n : Nat) :
      deepest .outside (n + 1) mid = max (n + 1) (deepest .outside n rest) := by
    rw [← deepest_skip, hskip, deepest_close hc]
  have hnext {mid next : List Char} (hskip : skip mid = ',' :: next) (n : Nat) :
      deepest .outside n mid = deepest .outside n next := by
    rw [← deepest_skip, hskip, deepest_plain (by decide)]
  -- A plain value opens nothing. For items and members, the claims for the value and for the others add up.
  induction h generalizing n with
  | @null rest | @true rest | @false rest => exact hnothing rest n
  | @int rest k _ => exact (deepest_int k).trans (hnothing rest n)
  | @string rest s => exact (deepest_quoteOnto s rest).trans (hnothing rest n)
  | space hc _ ih => exact (deepest_plain (isPlain_of_space hc)).trans (ih n)
  | emptyArray hskip => exact hlast hskip (.inl rfl) n
  | array _ ih => exact ih n
  | emptyObject hskip => exact hlast hskip (.inr rfl) n
  | object _ ih => exact ih n
  | lastItem _ hskip ih =>
    have hv := ih (n + 1)
    rw [hlast hskip (.inl rfl)] at hv
    simp only [Part.opened, Part.nesting, itemsNesting, Nat.add_zero] at hv ⊢
    omega
  | item _ hskip _ ih ihs =>
    have hv := ih (n + 1)
    -- `hv` has the comma behind the value for its `rest`, and `hvs` begins there.
    have hvs := ihs n
    rw [hnext hskip] at hv
    simp only [Part.opened, Part.nesting, itemsNesting, Nat.add_zero] at hv hvs ⊢
    omega
  | lastMember hk hcolon _ hskip ih =>
    have hv := ih (n + 1)
    rw [hlast hskip (.inr rfl)] at hv
    rw [deepest_key hk hcolon]
    simp only [Part.opened, Part.nesting, membersNesting, Nat.add_zero] at hv ⊢
    omega
  | member hk hcolon _ hskip _ ih ihs =>
    have hv := ih (n + 1)
    have hvs := ihs n
    rw [hnext hskip] at hv
    rw [deepest_key hk hcolon]
    simp only [Part.opened, Part.nesting, membersNesting, Nat.add_zero] at hv hvs ⊢
    omega

/-- A text that spells `v` opens as many brackets and braces as `v` is nested. -/
theorem textNesting_of_spells {v : Json} {text : String} (h : Spells (.value v) text.toList []) :
    textNesting text = v.nesting := by
  have hall := deepest_of_spells h 0
  rwa [deepest, Nat.max_zero, Part.opened, Part.nesting, Nat.zero_add, Nat.zero_add] at hall

end BoolCalc.Json
