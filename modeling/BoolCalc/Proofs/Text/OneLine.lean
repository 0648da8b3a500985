import BoolCalc.Proofs.Text.Decimal
import BoolCalc.Proofs.Text.Truncation
import BoolCalc.Text.FixedPoint

namespace BoolCalc.Text

/-!
# Texts without line breaks

* `Unbroken`, `OneLine` : characters, or a text, with neither a line feed nor a carriage return;
* `oneLine_append`, `oneLine_intercalate` : texts that are put together;
* `oneLine_word`, `oneLine_nat`, `oneLine_int`, `oneLine_fixedPoint` : words and numbers;
* `OneLine.truncate` : a text that is cut.
-/

/-- Neither `'
'` nor `'\r' ` is among the characters. -/
def Unbroken (cs : List Char) : Prop := ∀ c ∈ cs, c ≠ '\n' ∧ c ≠ '\r'

instance (cs : List Char) : Decidable (Unbroken cs) := List.decidableBAll _ cs

/-- The text `s` has no line break. -/
def OneLine (s : String) : Prop := Unbroken s.toList

instance (s : String) : Decidable (OneLine s) := inferInstanceAs (Decidable (Unbroken s.toList))

variable {s t : String}

theorem oneLine_toString : OneLine (toString s) ↔ OneLine s := Iff.rfl

theorem oneLine_ofList {cs : List Char} : OneLine (String.ofList cs) ↔ Unbroken cs := by
  rw [OneLine, String.toList_ofList]

theorem unbroken_cons {c : Char} {cs : List Char} : Unbroken (c :: cs) ↔ (c ≠ '\n' ∧ c ≠ '\r') ∧ Unbroken cs :=
  List.forall_mem_cons

theorem unbroken_append {cs ds : List Char} : Unbroken (cs ++ ds) ↔ Unbroken cs ∧ Unbroken ds :=
  List.forall_mem_append

theorem Unbroken.not_mem {cs : List Char} (h : Unbroken cs) : '\n' ∉ cs ∧ '\r' ∉ cs :=
  ⟨fun hfeed => (h _ hfeed).1 rfl, fun hreturn => (h _ hreturn).2 rfl⟩

/-! ### Texts that are put together -/

/-- The text `s ++ t` has a line break where `s` or `t` has one. -/
theorem oneLine_append : OneLine (s ++ t) ↔ OneLine s ∧ OneLine t := by
  unfold OneLine
  rw [String.toList_append, unbroken_append]

/-- Texts with the separator `s` between them. -/
theorem oneLine_intercalate {parts : List String} (hs : OneLine s) :
    OneLine (s.intercalate parts) ↔ ∀ part ∈ parts, OneLine part := by
  induction parts with
  | nil => simp [OneLine, Unbroken]
  | cons part parts ih =>
    cases parts with
    | nil => simp
    | cons next parts =>
      rw [String.intercalate_cons_cons, oneLine_append, oneLine_append, ih, List.forall_mem_cons (a := part)]
      simp [hs]

/-! ### Texts of some characters -/

theorem oneLine_char {c : Char} (hfeed : c ≠ '\n') (hreturn : c ≠ '\r') : OneLine (toString c) := by
  show OneLine (String.singleton c)
  rw [OneLine, String.toList_singleton]
  exact List.forall_mem_singleton.2 ⟨hfeed, hreturn⟩

/-- Characters of a class `p` to which no line break belongs. -/
theorem oneLine_of_class {p : Char → Bool} (hfeed : p '\n' = false) (hreturn : p '\r' = false)
    (h : ∀ c ∈ s.toList, p c = true) : OneLine s := by
  intro c hc
  constructor
  · rintro rfl
    cases hfeed.symm.trans (h _ hc)
  · rintro rfl
    cases hreturn.symm.trans (h _ hc)

/-- Word characters have no line break among them. -/
theorem oneLine_word {cs : List Char} (h : ∀ c ∈ cs, isWordChar c = true) : OneLine (String.ofList cs) := by
  refine oneLine_of_class (p := isWordChar) (by decide) (by decide) fun c hc => h c ?_
  rwa [String.toList_ofList] at hc

theorem oneLine_digits (n : Nat) : OneLine (String.ofList (Nat.toDigits 10 n)) := by
  refine oneLine_of_class (p := isAsciiDigit) (by decide) (by decide) fun c hc => ?_
  rw [String.toList_ofList] at hc
  exact isAsciiDigit_of_mem_toDigits hc

theorem oneLine_nat (n : Nat) : OneLine (toString n) := by
  have hdigits : toString n = String.ofList (Nat.toDigits 10 n) := Nat.repr_eq_ofList_toDigits
  rw [hdigits]
  exact oneLine_digits n

theorem oneLine_int (n : Int) : OneLine (toString n) := by
  rw [OneLine, toList_toString, intChars]
  split
  · exact oneLine_ofList.1 (oneLine_digits n.toNat)
  · exact unbroken_cons.2 ⟨by decide, oneLine_ofList.1 (oneLine_digits _)⟩

theorem oneLine_fixedPoint (places : Nat) (x : Float) : OneLine (fixedPoint places x) := by
  unfold fixedPoint paddedDigits
  rw [oneLine_append, oneLine_append, String.ofList_append, oneLine_append]
  refine ⟨⟨oneLine_nat _, by decide⟩, ?_, oneLine_digits _⟩
  rw [oneLine_ofList]
  intro c hc
  rw [List.eq_of_mem_replicate hc]
  decide

/-! ### A text that is cut -/

theorem OneLine.truncate (h : OneLine s) (n : Nat) : OneLine (truncate n s) := by
  obtain ⟨rest, hs⟩ := exists_truncate_append n s
  rw [hs] at h
  exact (oneLine_append.1 h).1

end BoolCalc.Text
