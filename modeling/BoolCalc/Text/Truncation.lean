namespace BoolCalc.Text

/-!
# Texts cut to a number of bytes

A text that is too long is cut between two characters. The place is looked for from the limit back, one byte at a time.

* `isBoundary` : a byte begins a character, or the text ends there;
* `lastBoundary?` : the search, which could pass the start of the text;
* `upTo?` : what precedes a byte, which could lie inside a character;
* `truncate?` : the text cut to a number of bytes, with both failures;
* `LastBoundary`, `exists_lastBoundary?` : what the search finds;
* `truncate` : the text cut to a number of bytes, since neither failure occurs.
-/

/-- Byte `n` of the text begins a character, or the text ends there. -/
def isBoundary (s : String) (n : Nat) : Bool := String.Pos.Raw.isValid s ⟨n⟩

/-- The boundary found from byte `n` back, one byte at a time; none if the search passes byte 0. -/
def lastBoundary? (s : String) : Nat → Option Nat
  | 0 => if isBoundary s 0 then some 0 else none
  | n + 1 => if isBoundary s (n + 1) then some (n + 1) else lastBoundary? s n

/-- What precedes byte `n`, if `n` lies between two characters or at an end. -/
def upTo? (s : String) (n : Nat) : Option String := (s.pos? ⟨n⟩).map fun p => (s.sliceTo p).copy

/-- The text cut to at most `n` bytes; none if the search or the cut fails. -/
def truncate? (n : Nat) (s : String) : Option String :=
  if s.utf8ByteSize ≤ n then some s else (lastBoundary? s n).bind (upTo? s)

/-! ### Neither failure occurs -/

variable {s : String} {m n : Nat}

theorem isBoundary_zero (s : String) : isBoundary s 0 = true :=
  String.Pos.Raw.isValid_eq_true_iff.2 String.Pos.Raw.isValid_zero

/-- Byte `m` is the last boundary of the text `s` that is not behind byte `n`. -/
structure LastBoundary (s : String) (n m : Nat) : Prop where
  boundary : isBoundary s m = true
  /-- It is not behind byte `n`. -/
  le : m ≤ n
  /-- There is no boundary behind it up to byte `n`. -/
  between : ∀ k, m < k → k ≤ n → isBoundary s k = false

/-- The search ends at byte `n` if there is a boundary. -/
theorem LastBoundary.here (h : isBoundary s n = true) : LastBoundary s n n where
  boundary := h
  le := Nat.le_refl n
  between k hlt hle := by omega

/-- Where there is no boundary at byte `n + 1`, the search goes on at byte `n`. -/
theorem LastBoundary.back (hno : ¬isBoundary s (n + 1) = true) (h : LastBoundary s n m) :
    LastBoundary s (n + 1) m where
  boundary := h.boundary
  le := Nat.le_succ_of_le h.le
  between k hlt hle := by
    rcases Nat.le_succ_iff.1 hle with hle | rfl
    · exact h.between k hlt hle
    · exact Bool.not_eq_true _ ▸ hno

/-- The search from byte `n` back finds the last boundary. It never passes byte `0`, which is one. -/
theorem exists_lastBoundary? (s : String) (n : Nat) : ∃ m, lastBoundary? s n = some m ∧ LastBoundary s n m := by
  -- By induction on the byte at which the search begins.
  induction n with
  | zero =>
    refine ⟨0, ?_, .here (isBoundary_zero s)⟩
    rw [lastBoundary?, if_pos (isBoundary_zero s)]
  | succ n ih =>
    rw [lastBoundary?]
    split
    · next hboundary => exact ⟨n + 1, rfl, .here hboundary⟩
    · next hno =>
      obtain ⟨m, hfound, hlast⟩ := ih
      exact ⟨m, hfound, hlast.back hno⟩

/-- A cut at a boundary does not fail, so that `truncate?` is never `none`. -/
theorem isSome_upTo? (h : isBoundary s n = true) : (upTo? s n).isSome := by
  have hvalid : String.Pos.Raw.IsValid s ⟨n⟩ := String.Pos.Raw.isValid_eq_true_iff.1 h
  simpa [upTo?, String.pos?, String.Slice.pos?] using hvalid

theorem isSome_truncate? (n : Nat) (s : String) : (truncate? n s).isSome := by
  rw [truncate?]
  split
  · rfl
  · obtain ⟨m, hfound, hlast⟩ := exists_lastBoundary? s n
    rw [hfound, Option.bind_some]
    exact isSome_upTo? hlast.boundary

/-- The text cut to at most `n` bytes, never inside a character. -/
def truncate (n : Nat) (s : String) : String := (truncate? n s).get (isSome_truncate? n s)

end BoolCalc.Text
