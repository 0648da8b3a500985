import BoolCalc.Text.Integer

namespace BoolCalc.Text

/-!
# Reading written integers

* `takeWhile_run`, `dropWhile_run`, `exists_leading_run` : a run of characters of a class, in front of others;
* `digitsValue?_toDigits` : the digits of a number have its value;
* `intChars` : the characters of an integer, a minus sign below zero and the digits;
* `parseInt64?_toString` : the text of an integer is read as that integer;
* `Writes`, `parseInt64?_eq_some_iff` : the texts that are read as an integer.
-/

/-! ### Runs of a class -/

variable {p : Char → Bool} {cs rest : List Char}

/-- A run of characters with `p` is taken as a whole, and nothing of `rest` behind it. -/
theorem takeWhile_run (hcs : ∀ c ∈ cs, p c = true) (hrest : ∀ c ∈ rest.head?, p c = false) :
    (cs ++ rest).takeWhile p = cs := by
  rw [List.takeWhile_append_of_pos hcs]
  cases rest with
  | nil => simp
  | cons c rest => simp [hrest c rfl]

/-- What is behind a run of characters with `p` is left. -/
theorem dropWhile_run (hcs : ∀ c ∈ cs, p c = true) (hrest : ∀ c ∈ rest.head?, p c = false) :
    (cs ++ rest).dropWhile p = rest := by
  rw [List.dropWhile_append_of_pos hcs]
  cases rest with
  | nil => rfl
  | cons c rest => simp [hrest c rfl]

/-- Every text starts with a run of characters with `p`, empty or not, up to the first one without. -/
theorem exists_leading_run (p : Char → Bool) (cs : List Char) : ∃ run rest, cs = run ++ rest ∧
    (∀ c ∈ run, p c = true) ∧ ∀ c ∈ rest.head?, p c = false := by
  refine ⟨cs.takeWhile p, cs.dropWhile p, ?_, ?_, ?_⟩
  · exact List.takeWhile_append_dropWhile.symm
  · exact fun c hc => List.all_eq_true.1 List.all_takeWhile c hc
  · intro c hc
    have hhead := List.head?_dropWhile_not p cs
    rw [Option.mem_def.1 hc] at hhead
    exact hhead

/-! ### Digits -/

/-- `isAsciiDigit` and `Char.isDigit` are the same test. -/
theorem isAsciiDigit_eq_isDigit (c : Char) : isAsciiDigit c = c.isDigit := by
  simp only [isAsciiDigit, Char.isDigit, Char.le_def]

theorem isAsciiDigit_of_mem_toDigits {n : Nat} {c : Char} (h : c ∈ Nat.toDigits 10 n) :
    isAsciiDigit c = true := by
  rw [isAsciiDigit_eq_isDigit]
  exact Nat.isDigit_of_mem_toDigits (by decide) (Nat.le_refl 10) h

/-- The digits of `n` begin with one. -/
theorem exists_toDigits_eq_cons (n : Nat) :
    ∃ c cs, Nat.toDigits 10 n = c :: cs ∧ isAsciiDigit c = true := by
  obtain ⟨c, cs, hcs⟩ := List.exists_cons_of_ne_nil (Nat.toDigits_ne_nil (n := n) (b := 10))
  exact ⟨c, cs, hcs, isAsciiDigit_of_mem_toDigits (hcs ▸ List.mem_cons_self)⟩

/-- The first digit of `n` is not `'0'`, unless `n = 0`. -/
theorem head_toDigits_ne_zero {n : Nat} (hn : 0 < n) :
    ∃ c cs, Nat.toDigits 10 n = c :: cs ∧ c ≠ '0' := by
  induction n using Nat.strongRecOn with
  | ind n ih =>
    rw [Nat.toDigits_eq_if (by decide)]
    split
    · next hlt =>
      have hdigits : ∀ k < 10, 0 < k → k.digitChar ≠ '0' := by decide
      exact ⟨n.digitChar, [], rfl, hdigits n hlt hn⟩
    · obtain ⟨c, cs, hcs, hc⟩ := ih (n / 10) (by omega) (by omega)
      exact ⟨c, cs ++ [(n % 10).digitChar], by rw [hcs, List.cons_append], hc⟩

/-- The digits of `n` have the value `n`. -/
theorem digitsValue?_toDigits (n : Nat) : digitsValue? (Nat.toDigits 10 n) = some n := by
  have hall : (Nat.toDigits 10 n).all isAsciiDigit = true :=
    List.all_eq_true.2 fun c hc => isAsciiDigit_of_mem_toDigits hc
  have hne : (Nat.toDigits 10 n).isEmpty = false := List.isEmpty_eq_false_iff.2 Nat.toDigits_ne_nil
  rw [digitsValue?, hall, hne, ← Nat.ofDigitChars_eq_foldl, Nat.ofDigitChars_ten_toDigits]
  rfl

/-! ### Integers -/

/-- The characters of `toString n`. -/
def intChars (n : Int) : List Char :=
  if 0 ≤ n then Nat.toDigits 10 n.toNat else '-' :: Nat.toDigits 10 (-n).toNat

theorem toList_toString (n : Int) : (toString n).toList = intChars n := by
  rw [show toString n = n.repr from rfl, Int.repr_eq_if, intChars]
  split
  · rw [Nat.repr_eq_ofList_toDigits, String.toList_ofList]
  · simp [Nat.repr_eq_ofList_toDigits]

/-- An integer begins with `-` or a digit. -/
theorem exists_intChars_eq_cons (n : Int) :
    ∃ c cs, intChars n = c :: cs ∧ (c = '-' ∨ isAsciiDigit c = true) := by
  unfold intChars
  split
  · obtain ⟨c, cs, hcs, hc⟩ := exists_toDigits_eq_cons n.toNat
    exact ⟨c, cs, hcs, .inr hc⟩
  · exact ⟨_, _, rfl, .inl rfl⟩

/-- No integer is written as `-0`. -/
theorem toString_ne_minus_zero (n : Int) : toString n ≠ "-0" := by
  intro h
  have hchars := congrArg String.toList h
  rw [toList_toString, intChars] at hchars
  split at hchars
  · have hminus : '-' ∈ Nat.toDigits 10 n.toNat := hchars ▸ List.mem_cons_self
    exact absurd (isAsciiDigit_of_mem_toDigits hminus) (by decide)
  · obtain ⟨c, cs, hcs, hc⟩ := head_toDigits_ne_zero (n := (-n).toNat) (by omega)
    rw [hcs] at hchars
    exact hc (List.cons.inj (List.cons.inj hchars).2).1

/-- The text of `n` is read as `n`, where this fits into 64 bits. -/
theorem parseInt64?_toString (n : Int) : parseInt64? (toString n) = int64? n := by
  rw [parseInt64?, toList_toString, intChars]
  by_cases hn : 0 ≤ n
  · rw [if_pos hn]
    -- The first digit is not taken for a sign.
    obtain ⟨c, cs, hcs, hc⟩ := exists_toDigits_eq_cons n.toNat
    split
    · next h =>
      obtain rfl := (List.cons.inj (hcs.symm.trans h)).1
      exact absurd hc (by decide)
    · next h =>
      obtain rfl := (List.cons.inj (hcs.symm.trans h)).1
      exact absurd hc (by decide)
    · rw [digitsValue?_toDigits, Option.bind_some, Int.toNat_of_nonneg hn]
  · rw [if_neg hn]
    show (digitsValue? (Nat.toDigits 10 (-n).toNat)).bind _ = _
    rw [digitsValue?_toDigits, Option.bind_some, Int.toNat_of_nonneg (by omega), Int.neg_neg]

/-! ### Literals -/

/-- The characters write the integer: one or more digits, with a sign or without one. -/
inductive Writes : List Char → Int → Prop where
  | unsigned {digits : List Char} (hne : digits ≠ []) (hdigits : ∀ c ∈ digits, isAsciiDigit c = true) :
      Writes digits (Nat.ofDigitChars 10 digits 0)
  | plus {digits : List Char} (hne : digits ≠ []) (hdigits : ∀ c ∈ digits, isAsciiDigit c = true) :
      Writes ('+' :: digits) (Nat.ofDigitChars 10 digits 0)
  | minus {digits : List Char} (hne : digits ≠ []) (hdigits : ∀ c ∈ digits, isAsciiDigit c = true) :
      Writes ('-' :: digits) (-Nat.ofDigitChars 10 digits 0)

/-- For `cs` to be read as the integer `f m`, with `m` the value of its digits, it has to be digits, and `f m` has
to fit into 64 bits. -/
theorem digitsValue?_bind_eq_some_iff {f : Nat → Int} {n : Int} :
    ((digitsValue? cs).bind fun m => int64? (f m)) = some n ↔
      (cs ≠ [] ∧ (∀ c ∈ cs, isAsciiDigit c = true) ∧ f (Nat.ofDigitChars 10 cs 0) = n) ∧
        minInt64 ≤ n ∧ n ≤ maxInt64 := by
  rw [digitsValue?, ← Nat.ofDigitChars_eq_foldl]
  by_cases hdigits : cs ≠ [] ∧ ∀ c ∈ cs, isAsciiDigit c = true
  · have hcond : (!cs.isEmpty && cs.all isAsciiDigit) = true := by simpa using hdigits
    rw [if_pos hcond, Option.bind_some, int64?]
    constructor
    · intro h
      split at h
      · next hrange =>
        cases h
        exact ⟨⟨hdigits.1, hdigits.2, rfl⟩, hrange⟩
      · cases h
    · rintro ⟨⟨-, -, rfl⟩, hrange⟩
      exact if_pos hrange
  · have hcond : (!cs.isEmpty && cs.all isAsciiDigit) ≠ true := by simpa using hdigits
    rw [if_neg hcond]
    simp only [Option.bind_none, reduceCtorEq, false_iff]
    exact fun h => hdigits ⟨h.1.1, h.1.2.1⟩

/-- `parseInt64?` reads the texts that write an integer `n` of 64 bits, and reads them as `n`. -/
theorem parseInt64?_eq_some_iff {s : String} {n : Int} :
    parseInt64? s = some n ↔ Writes s.toList n ∧ minInt64 ≤ n ∧ n ≤ maxInt64 := by
  have hplus : isAsciiDigit '+' ≠ true := by decide
  have hminus : isAsciiDigit '-' ≠ true := by decide
  rw [parseInt64?]
  -- A sign is no digit, so that each text is written in one way at most.
  split
  · next cs hs =>
    rw [digitsValue?_bind_eq_some_iff, hs, and_congr_left_iff]
    rintro -
    constructor
    · rintro ⟨hne, hdigits, rfl⟩
      exact .minus hne hdigits
    · rintro (⟨-, hdigits⟩ | - | ⟨hne, hdigits⟩)
      · exact absurd (hdigits _ List.mem_cons_self) hminus
      · exact ⟨hne, hdigits, rfl⟩
  · next cs hs =>
    rw [digitsValue?_bind_eq_some_iff, hs, and_congr_left_iff]
    rintro -
    constructor
    · rintro ⟨hne, hdigits, rfl⟩
      exact .plus hne hdigits
    · rintro (⟨-, hdigits⟩ | ⟨hne, hdigits⟩ | -)
      · exact absurd (hdigits _ List.mem_cons_self) hplus
      · exact ⟨hne, hdigits, rfl⟩
  · next hnominus hnoplus =>
    rw [digitsValue?_bind_eq_some_iff, and_congr_left_iff]
    rintro -
    constructor
    · rintro ⟨hne, hdigits, rfl⟩
      exact .unsigned hne hdigits
    · intro h
      generalize hcs : s.toList = cs at h
      cases h with
      | unsigned hne hdigits => exact ⟨hne, hdigits, rfl⟩
      | plus => exact absurd hcs (hnoplus _)
      | minus => exact absurd hcs (hnominus _)

end BoolCalc.Text
