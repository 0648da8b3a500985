import BoolCalc.Proofs.Text.Offsets
import BoolCalc.Text.Truncation

namespace BoolCalc.Text

/-!
# The longest beginning of a text that fits

* `isBoundary_iff` : the boundaries are where the beginnings of a text end;
* `upTo?_append` : a cut where a beginning ends gives this beginning;
* `LongestWithin` : the longest beginning of a text within a number of bytes;
* `LongestWithin.unique`, `LongestWithin.eq_self`, `LongestWithin.le_add_three` : there is one such beginning, it is the
  whole text if that fits, and otherwise at most three bytes shorter than the limit;
* `LastBoundary.longestWithin`, `LongestWithin.lastBoundary?_eq` : the search finds where it ends;
* `truncate?_eq_some_iff` : **truncation**, it is what is left of a text that is cut;
* `exists_truncate_append` : what is left begins the text.
-/

variable {s kept rest : String} {m n : Nat}

/-! ### Boundaries and cuts -/

/-- Byte `n` is a boundary where a beginning `kept` of the text ends. -/
theorem isBoundary_iff : isBoundary s n = true ↔ ∃ kept rest, s = kept ++ rest ∧ n = kept.utf8ByteSize := by
  rw [isBoundary, String.Pos.Raw.isValid_eq_true_iff, String.Pos.Raw.isValid_iff_exists_append]
  simp only [String.Pos.Raw.ext_iff, String.byteIdx_rawEndPos]

/-- A cut where the beginning `kept` ends gives `kept`. -/
theorem upTo?_append (kept rest : String) : upTo? (kept ++ rest) kept.utf8ByteSize = some kept := by
  have hvalid : String.Pos.Raw.IsValid (kept ++ rest) ⟨kept.utf8ByteSize⟩ :=
    String.Pos.Raw.isValid_iff_exists_append.2 ⟨kept, rest, rfl, rfl⟩
  have hpos : (kept ++ rest).pos? ⟨kept.utf8ByteSize⟩ = some ((kept ++ rest).pos _ hvalid) := by
    simp [String.pos?, String.Slice.pos?, String.pos, hvalid]
  have hsplits : ((kept ++ rest).pos _ hvalid).Splits kept rest := ⟨rfl, rfl⟩
  rw [upTo?, hpos, Option.map_some, hsplits.copy_sliceTo_eq]

/-- There is only one `LastBoundary`. -/
theorem LastBoundary.unique {m' : Nat} (h : LastBoundary s n m) (h' : LastBoundary s n m') : m = m' := by
  rcases Nat.lt_trichotomy m m' with hlt | heq | hlt
  · cases h'.boundary.symm.trans (h.between m' hlt h'.le)
  · exact heq
  · cases h.boundary.symm.trans (h'.between m hlt h.le)

/-! ### The longest beginning -/

/-- What is kept is the longest beginning of the text of at most `n` bytes. -/
structure LongestWithin (n : Nat) (s kept : String) : Prop where
  begins : ∃ rest, s = kept ++ rest
  /-- It has at most `n` bytes. -/
  size_le : kept.utf8ByteSize ≤ n
  /-- No beginning of at most `n` bytes is longer. -/
  longest : ∀ other rest, s = other ++ rest → other.utf8ByteSize ≤ n → other.utf8ByteSize ≤ kept.utf8ByteSize

/-- The first bytes of a text, in a given number, are at most one beginning `kept`. -/
theorem eq_of_append_eq {other rest' : String} (h : kept ++ rest = other ++ rest')
    (hsize : kept.utf8ByteSize = other.utf8ByteSize) : kept = other := by
  have hcut := upTo?_append kept rest
  rw [h, hsize, upTo?_append] at hcut
  exact (Option.some.inj hcut).symm

theorem exists_singleton_append (h : s ≠ "") : ∃ (c : Char) (rest : String), s = String.singleton c ++ rest := by
  have hstart : s.startPos ≠ s.endPos := fun heq => h (String.startPos_eq_endPos_iff.1 heq)
  exact ⟨_, s.splits_startPos.exists_eq_singleton_append hstart⟩

namespace LongestWithin

theorem unique {kept' : String} (h : LongestWithin n s kept) (h' : LongestWithin n s kept') : kept = kept' := by
  obtain ⟨rest, hs⟩ := h.begins
  obtain ⟨rest', hs'⟩ := h'.begins
  exact eq_of_append_eq (hs.symm.trans hs')
    (Nat.le_antisymm (h'.longest kept rest hs h.size_le) (h.longest kept' rest' hs' h'.size_le))

/-- A text within `n` bytes is its own longest beginning. -/
theorem self (h : s.utf8ByteSize ≤ n) : LongestWithin n s s where
  begins := ⟨"", String.append_empty.symm⟩
  size_le := h
  longest other rest hs _ := by
    rw [hs, String.utf8ByteSize_append]
    exact Nat.le_add_right _ _

theorem eq_self (h : LongestWithin n s kept) (hle : s.utf8ByteSize ≤ n) : kept = s := h.unique (self hle)

/-- At most three bytes are missing to `n`: with the next character, which has at most four, the limit is passed. -/
theorem le_add_three (h : LongestWithin n s kept) (hlt : n < s.utf8ByteSize) : n ≤ kept.utf8ByteSize + 3 := by
  obtain ⟨rest, hs⟩ := h.begins
  have hrest : rest ≠ "" := by
    rintro rfl
    rw [hs, String.append_empty] at hlt
    exact absurd h.size_le (Nat.not_le.2 hlt)
  obtain ⟨c, rest, rfl⟩ := exists_singleton_append hrest
  have hsize : (kept ++ String.singleton c).utf8ByteSize = kept.utf8ByteSize + c.utf8Size := by
    rw [String.utf8ByteSize_append, String.utf8ByteSize_singleton]
  -- Otherwise the next character could be kept as well.
  have hpassed : n < kept.utf8ByteSize + c.utf8Size := by
    refine Nat.lt_of_not_le fun hfits => ?_
    have hlonger := h.longest (kept ++ String.singleton c) rest (by rw [hs, String.append_assoc]) (hsize ▸ hfits)
    have := c.utf8Size_pos
    omega
  have := c.utf8Size_le_four
  omega

/-- The beginning `kept` that fits is the longest one if the next character `c` does not fit with it. -/
theorem of_next {c : Char} (hle : kept.utf8ByteSize ≤ n) (hlt : n < kept.utf8ByteSize + c.utf8Size) :
    LongestWithin n (kept ++ (String.singleton c ++ rest)) kept where
  begins := ⟨_, rfl⟩
  size_le := hle
  longest other rest' hs hother := by
    have hlists : kept.toList ++ c :: rest.toList = other.toList ++ rest'.toList := by
      simpa using congrArg String.toList hs
    rw [← byteLength_toList] at hother hlt
    rw [← byteLength_toList, ← byteLength_toList]
    rcases List.append_eq_append_iff.1 hlists with ⟨more, hmore, hnext⟩ | ⟨more, hmore, -⟩
    · -- A longer beginning would hold the next character as well.
      cases more with
      | nil => exact Nat.le_of_eq (by rw [hmore, List.append_nil])
      | cons d more =>
        obtain ⟨rfl, -⟩ := List.cons.inj hnext
        rw [hmore, byteLength_append, byteLength_cons] at hother
        omega
    · rw [hmore, byteLength_append]
      exact Nat.le_add_right _ _

/-- The longest beginning within `n` bytes ends at the `LastBoundary`. -/
theorem lastBoundary (h : LongestWithin n s kept) : LastBoundary s n kept.utf8ByteSize where
  boundary := by
    obtain ⟨rest, hs⟩ := h.begins
    exact isBoundary_iff.2 ⟨kept, rest, hs, rfl⟩
  le := h.size_le
  between k hlt hle := by
    rw [← Bool.not_eq_true, isBoundary_iff]
    rintro ⟨other, rest, hs, rfl⟩
    exact absurd (h.longest other rest hs hle) (Nat.not_le.2 hlt)

/-- The search `lastBoundary?` finds where the longest beginning ends. -/
theorem lastBoundary?_eq (h : LongestWithin n s kept) : lastBoundary? s n = some kept.utf8ByteSize := by
  obtain ⟨m, hfound, hlast⟩ := exists_lastBoundary? s n
  rw [hfound, hlast.unique h.lastBoundary]

/-- The cut `upTo?` where the search ends gives the longest beginning. -/
theorem upTo?_eq (h : LongestWithin n s kept) : upTo? s kept.utf8ByteSize = some kept := by
  obtain ⟨rest, rfl⟩ := h.begins
  exact upTo?_append kept rest

end LongestWithin

/-- A beginning that ends at the `LastBoundary` is the longest one. -/
theorem LastBoundary.longestWithin (h : LastBoundary (kept ++ rest) n kept.utf8ByteSize) :
    LongestWithin n (kept ++ rest) kept where
  begins := ⟨rest, rfl⟩
  size_le := h.le
  longest other rest' hs hle := by
    refine Nat.le_of_not_lt fun hlonger => ?_
    have hboundary := isBoundary_iff.2 ⟨other, rest', hs, rfl⟩
    cases hboundary.symm.trans (h.between _ hlonger hle)

theorem exists_longestWithin (n : Nat) (s : String) : ∃ kept, LongestWithin n s kept := by
  obtain ⟨m, -, hlast⟩ := exists_lastBoundary? s n
  obtain ⟨kept, rest, rfl, rfl⟩ := isBoundary_iff.1 hlast.boundary
  exact ⟨kept, hlast.longestWithin⟩

/-! ### A text that is cut -/

/-- `truncate?` gives the longest beginning. -/
theorem LongestWithin.truncate?_eq (h : LongestWithin n s kept) : truncate? n s = some kept := by
  rw [truncate?]
  split
  · next hle => rw [h.eq_self hle]
  · rw [h.lastBoundary?_eq, Option.bind_some, h.upTo?_eq]

/-- **Truncation.** What `truncate?` leaves of `s` is its longest beginning within `n` bytes, and nothing else. -/
theorem truncate?_eq_some_iff : truncate? n s = some kept ↔ LongestWithin n s kept := by
  constructor
  · intro h
    obtain ⟨longest, hlongest⟩ := exists_longestWithin n s
    obtain rfl := Option.some.inj (h.symm.trans hlongest.truncate?_eq)
    exact hlongest
  · exact LongestWithin.truncate?_eq

example : truncate? 6 "aé😀" = some "aé" := by decide

theorem truncate?_eq_some (n : Nat) (s : String) : truncate? n s = some (truncate n s) := (Option.some_get _).symm

theorem longestWithin_truncate (n : Nat) (s : String) : LongestWithin n s (truncate n s) :=
  truncate?_eq_some_iff.1 (truncate?_eq_some n s)

theorem exists_truncate_append (n : Nat) (s : String) : ∃ rest, s = truncate n s ++ rest :=
  (longestWithin_truncate n s).begins

/-! ### The same character a number of times over -/

theorem utf8ByteSize_repeated (k : Nat) (c : Char) : (repeated k c).utf8ByteSize = k * c.utf8Size := by
  induction k with
  | zero => rw [Nat.zero_mul]; rfl
  | succ k ih =>
    have hcons : repeated (k + 1) c = String.singleton c ++ repeated k c := by
      rw [repeated, repeated, List.replicate_succ, String.ofList_cons]
    rw [hcons, String.utf8ByteSize_append, String.utf8ByteSize_singleton, ih, Nat.succ_mul, Nat.add_comm]

end BoolCalc.Text
