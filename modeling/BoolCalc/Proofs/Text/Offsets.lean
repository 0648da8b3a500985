import Mathlib.Data.List.Induction
import BoolCalc.Source.Span

namespace BoolCalc

/-!
# Offsets into a text

* `Text.byteLength_append`, `Text.byteLength_toList` : lengths in bytes;
* `Text.slice?_append` : the part of a text between two of its offsets;
* `Position.offset_advanceOver` : an offset counts the bytes before it;
* `Position.after`, `Position.start_advanceOver` : the place behind some characters at the start of a text.
-/

namespace Text

variable {c : Char} {xs ys zs : List Char}

/-! ### Lengths -/

theorem foldl_utf8Size (n : Nat) (xs : List Char) :
    xs.foldl (fun n c => n + c.utf8Size) n = n + byteLength xs := by
  induction xs generalizing n with
  | nil => rfl
  | cons c xs ih =>
    have htail : byteLength (c :: xs) = xs.foldl (fun n c => n + c.utf8Size) (0 + c.utf8Size) := rfl
    rw [List.foldl_cons, htail, ih, ih, Nat.zero_add, Nat.add_assoc]

@[simp] theorem byteLength_nil : byteLength [] = 0 := rfl

@[simp] theorem byteLength_cons : byteLength (c :: xs) = c.utf8Size + byteLength xs := by
  have htail : byteLength (c :: xs) = xs.foldl (fun n c => n + c.utf8Size) (0 + c.utf8Size) := rfl
  rw [htail, foldl_utf8Size, Nat.zero_add]

@[simp] theorem byteLength_append : byteLength (xs ++ ys) = byteLength xs + byteLength ys := by
  induction xs with
  | nil => simp
  | cons c xs ih => simp [ih, Nat.add_assoc]

/-- The length of `s` is that of its characters. -/
theorem byteLength_toList (s : String) : byteLength s.toList = s.utf8ByteSize := by
  have hlist : ∀ xs : List Char, (String.ofList xs).utf8ByteSize = byteLength xs := by
    intro xs
    induction xs with
    | nil => rfl
    | cons c xs ih => simp [String.ofList_cons, ih]
  rw [← hlist, String.ofList_toList]

theorem byteLength_pos (h : xs ≠ []) : 0 < byteLength xs := by
  obtain ⟨c, rest, rfl⟩ := List.exists_cons_of_ne_nil h
  have := c.utf8Size_pos
  rw [byteLength_cons]
  omega

/-! ### Parts -/

/-- The length of `c :: xs` is some `n + 1`, from which that of `c` can be taken. -/
theorem exists_byteLength_cons (c : Char) (xs : List Char) : ∃ n, byteLength (c :: xs) = n + 1 ∧
    c.utf8Size ≤ n + 1 ∧ n + 1 - c.utf8Size = byteLength xs := by
  obtain ⟨n, hn⟩ : ∃ n, byteLength (c :: xs) = n + 1 :=
    Nat.exists_eq_succ_of_ne_zero (Nat.ne_of_gt (byteLength_pos (List.cons_ne_nil c xs)))
  refine ⟨n, hn, ?_, ?_⟩ <;> rw [← hn, byteLength_cons]
  · exact Nat.le_add_right _ _
  · exact Nat.add_sub_cancel_left _ _

/-- What follows the bytes of `xs` in front. -/
theorem dropBytes?_append : dropBytes? (byteLength xs) (xs ++ ys) = some ys := by
  induction xs with
  | nil => cases ys <;> rfl
  | cons c xs ih =>
    obtain ⟨n, hn, hle, hrest⟩ := exists_byteLength_cons c xs
    rw [hn, List.cons_append, dropBytes?, if_pos hle, hrest, ih]

/-- The characters `xs` whose bytes are in front. -/
theorem cutBytes?_append : cutBytes? (byteLength xs) (xs ++ ys) = some xs := by
  induction xs with
  | nil => cases ys <;> rfl
  | cons c xs ih =>
    obtain ⟨n, hn, hle, hrest⟩ := exists_byteLength_cons c xs
    rw [hn, List.cons_append, cutBytes?, if_pos hle, hrest, ih]
    rfl

/-- The part `ys` of a text, from where it starts up to where it ends. -/
theorem slice?_append :
    slice? (byteLength xs) (byteLength (xs ++ ys)) (xs ++ ys ++ zs) = some ys := by
  have hle : byteLength xs ≤ byteLength (xs ++ ys) := by simp
  have hlength : byteLength (xs ++ ys) - byteLength xs = byteLength ys := by simp
  rw [slice?, if_pos hle, hlength, List.append_assoc, dropBytes?_append, Option.bind_some, cutBytes?_append]

end Text

namespace Position

variable {p : Position} {c : Char} {xs ys : List Char}

@[simp] theorem advanceOver_nil : p.advanceOver [] = p := rfl

@[simp] theorem advanceOver_cons : p.advanceOver (c :: xs) = (p.advance c).advanceOver xs := rfl

@[simp] theorem advanceOver_append : p.advanceOver (xs ++ ys) = (p.advanceOver xs).advanceOver ys :=
  List.foldl_append

theorem offset_advance : (p.advance c).offset = p.offset + c.utf8Size := by
  rw [advance]
  split
  · next hc =>
    subst hc
    rfl
  · rfl

/-- Over `xs`, the offset moves by the number of bytes. -/
theorem offset_advanceOver : (p.advanceOver xs).offset = p.offset + Text.byteLength xs := by
  induction xs generalizing p with
  | nil => rfl
  | cons c xs ih => rw [advanceOver_cons, ih, offset_advance, Text.byteLength_cons, Nat.add_assoc]

/-- From `Position.start` on, the offset is the number of bytes of `xs`. -/
theorem offset_start_advanceOver : (start.advanceOver xs).offset = Text.byteLength xs := by
  rw [offset_advanceOver]
  exact Nat.zero_add _

/-- The place behind the characters `before` at the start of a text: their bytes, the `'
'` among them, and the characters behind the last of these, lines and columns counted from `1 `. -/
def after (before : List Char) : Position where
  offset := Text.byteLength before
  line := before.count '\n' + 1
  column := (before.reverse.takeWhile (· != '\n')).length + 1

/-- The walk of `advanceOver` from the start of a text leads to the place `after before`. -/
theorem start_advanceOver (before : List Char) : start.advanceOver before = after before := by
  induction before using List.reverseRecOn with
  | nil => rfl
  | append_singleton before c ih =>
    rw [advanceOver_append, ih]
    show (after before).advance c = after (before ++ [c])
    by_cases hc : c = '\n'
    · -- A line feed is the last one, with nothing behind it.
      have hsize : '\n'.utf8Size = 1 := by decide
      subst hc
      simp [advance, after, hsize]
    · simp [advance, after, hc]

end Position

end BoolCalc
