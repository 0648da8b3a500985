import BoolCalc.Batch.Evaluate

namespace BoolCalc.Batch

/-!
# Chunks of a list

* `flatten_chunksOf`, `getElem?_chunksOf` : the chunks make up the list, and which part of it each of them is;
* `flatten_take_chunksOf` : the first chunks make up the front of the list;
* `findIdx_chunksOf` : the first chunk with an item is that of the first such item;
* `length_shareOut_le`, `flatten_slices` : a chunk is shared out among no more workers than there are, and to its
  last request.
-/

variable {α : Type} {n i j : Nat} {xs : List α}

/-! ### The parts of the list -/

theorem chunksOf_nil (n : Nat) : chunksOf n ([] : List α) = [] := by rw [chunksOf]

/-- `chunksOf n xs` is the first chunk `xs.take n`, and the chunks of `xs.drop n`. -/
theorem chunksOf_of_ne_nil (hn : 0 < n) (hxs : xs ≠ []) :
    chunksOf n xs = xs.take n :: chunksOf n (xs.drop n) := by
  obtain ⟨x, rest, rfl⟩ := List.exists_cons_of_ne_nil hxs
  obtain ⟨n, rfl⟩ := Nat.exists_eq_succ_of_ne_zero (Nat.ne_of_gt hn)
  rw [chunksOf]
  rfl

/-- What is behind the first chunk is shorter than `xs`. -/
theorem length_drop_lt (hn : 0 < n) (hxs : xs ≠ []) : (xs.drop n).length < xs.length := by
  have hpos := List.length_pos_iff.2 hxs
  rw [List.length_drop]
  omega

/-- The chunks of `xs` make up `xs`. -/
theorem flatten_chunksOf (hn : 0 < n) (xs : List α) : (chunksOf n xs).flatten = xs := by
  induction hlength : xs.length using Nat.strongRecOn generalizing xs with
  | ind k ih =>
    subst hlength
    by_cases hxs : xs = []
    · rw [hxs, chunksOf_nil]
      rfl
    · rw [chunksOf_of_ne_nil hn hxs, List.flatten_cons, ih _ (length_drop_lt hn hxs) _ rfl, List.take_append_drop]

/-- The chunk with the number `j` begins at the item with the number `j * n`. -/
theorem getElem?_chunksOf (hn : 0 < n) (xs : List α) (j : Nat) :
    (chunksOf n xs)[j]? = if j * n < xs.length then some ((xs.drop (j * n)).take n) else none := by
  induction j generalizing xs with
  | zero =>
    by_cases hxs : xs = []
    · subst hxs
      rw [chunksOf_nil, List.length_nil, if_neg (Nat.not_lt_zero _)]
      rfl
    · have hpos := List.length_pos_iff.2 hxs
      rw [chunksOf_of_ne_nil hn hxs, Nat.zero_mul, if_pos hpos]
      rfl
  | succ j ih =>
    by_cases hxs : xs = []
    · subst hxs
      rw [chunksOf_nil, List.length_nil, if_neg (Nat.not_lt_zero _)]
      rfl
    · -- The chunk after the first at place `j` begins `j * n` places into `xs.drop n`.
      have hcount : j * n < (xs.drop n).length ↔ (j + 1) * n < xs.length := by
        rw [List.length_drop, Nat.succ_mul]
        omega
      rw [chunksOf_of_ne_nil hn hxs, List.getElem?_cons_succ, ih, List.drop_drop]
      simp only [hcount, Nat.succ_mul, Nat.add_comm n]

/-- There is a chunk with the number `j` as long as there are items from `j * n` on. -/
theorem lt_length_chunksOf (hn : 0 < n) : j < (chunksOf n xs).length ↔ j * n < xs.length := by
  have hchunk := getElem?_chunksOf hn xs j
  by_cases h : j * n < xs.length
  · rw [if_pos h] at hchunk
    exact iff_of_true (List.getElem?_eq_some_iff.1 hchunk).1 h
  · rw [if_neg h] at hchunk
    exact iff_of_false (Nat.not_lt.2 (List.getElem?_eq_none_iff.1 hchunk)) h

/-- The first `j` chunks make up the first `j * n` items. -/
theorem flatten_take_chunksOf (hn : 0 < n) (xs : List α) (j : Nat) :
    ((chunksOf n xs).take j).flatten = xs.take (j * n) := by
  induction j generalizing xs with
  | zero => rw [Nat.zero_mul, List.take_zero, List.take_zero, List.flatten_nil]
  | succ j ih =>
    by_cases hxs : xs = []
    · rw [hxs, chunksOf_nil, List.take_nil, List.take_nil, List.flatten_nil]
    · rw [chunksOf_of_ne_nil hn hxs, List.take_succ_cons, List.flatten_cons, ih, Nat.succ_mul, Nat.add_comm,
        List.take_add]

/-! ### The first chunk with an item -/

/-- The first chunk with an item that satisfies `q` is that of the first such item. -/
theorem findIdx_chunksOf {q : α → Bool} (hn : 0 < n) (hi : i < xs.length) (hfirst : xs.findIdx q = i) :
    (chunksOf n xs).findIdx (fun chunk => chunk.any q) = i / n := by
  obtain ⟨hq, hbefore⟩ := (List.findIdx_eq hi).1 hfirst
  have hstart : i / n * n ≤ i := Nat.div_mul_le_self i n
  have hlt : i / n < (chunksOf n xs).length :=
    (lt_length_chunksOf hn).2 (Nat.lt_of_le_of_lt hstart hi)
  -- The chunk `i / n` has the item, and no earlier one has any.
  refine (List.findIdx_eq hlt).2 ⟨?_, fun j hj => ?_⟩
  · -- The item stands in its chunk at the remainder.
    have hchunk := getElem?_chunksOf hn xs (i / n)
    rw [if_pos (Nat.lt_of_le_of_lt hstart hi), List.getElem?_eq_getElem hlt] at hchunk
    rw [Option.some.inj hchunk]
    have hmem : xs[i] ∈ (xs.drop (i / n * n)).take n := by
      refine List.mem_of_getElem? (i := i % n) ?_
      rw [List.getElem?_take_of_lt (Nat.mod_lt i hn), List.getElem?_drop, Nat.mul_comm, Nat.div_add_mod,
        List.getElem?_eq_getElem hi]
    exact List.any_eq_true.2 ⟨xs[i], hmem, hq⟩
  · -- The items of an earlier chunk are before the first that satisfies `q`.
    have hj' : j < (chunksOf n xs).length := Nat.lt_trans hj hlt
    have hchunk := getElem?_chunksOf hn xs j
    rw [if_pos ((lt_length_chunksOf hn).1 hj'), List.getElem?_eq_getElem hj'] at hchunk
    rw [Option.some.inj hchunk, List.any_eq_false]
    intro x hx
    obtain ⟨k, hk⟩ := List.mem_iff_getElem?.1 hx
    have hkn : k < n := by
      have := (List.getElem?_eq_some_iff.1 hk).1
      rw [List.length_take] at this
      omega
    rw [List.getElem?_take_of_lt hkn, List.getElem?_drop] at hk
    have hend : (j + 1) * n ≤ i / n * n := Nat.mul_le_mul_right n hj
    rw [Nat.succ_mul] at hend
    obtain ⟨hlen, rfl⟩ := List.getElem?_eq_some_iff.1 hk
    exact Bool.eq_false_iff.1 (hbefore (j * n + k) (by omega))

/-- If no item satisfies `q`, no chunk has such an item. -/
theorem any_chunksOf_of_all {q : α → Bool} (hn : 0 < n) (hall : ∀ x ∈ xs, q x = false) :
    ∀ chunk ∈ chunksOf n xs, chunk.any q = false := by
  intro chunk hchunk
  rw [List.any_eq_false]
  intro x hx
  have hmem : x ∈ xs := by
    rw [← flatten_chunksOf hn xs]
    exact List.mem_flatten_of_mem hchunk hx
  exact Bool.eq_false_iff.1 (hall x hmem)

/-! ### Workers for a chunk -/

/-- Together, `j` workers with `ceilDiv n j` items each are enough for `n` items. -/
theorem le_mul_ceilDiv (hj : 0 < j) : n ≤ j * ceilDiv n j := by
  have h := Nat.div_add_mod (n + j - 1) j
  have hlt := Nat.mod_lt (n + j - 1) hj
  rw [ceilDiv]
  omega

theorem ceilDiv_pos (hj : 0 < j) (hn : 0 < n) : 0 < ceilDiv n j :=
  Nat.div_pos (by omega) hj

/-- A chunk is shared out among no more than `j` workers. -/
theorem length_shareOut_le (hj : 0 < j) (chunk : List (Nat × Request)) : (shareOut j chunk).length ≤ j := by
  rw [shareOut, List.length_map]
  by_cases hchunk : chunk = []
  · rw [hchunk, chunksOf_nil]
    exact Nat.zero_le j
  · have hpos := ceilDiv_pos hj (List.length_pos_iff.2 hchunk)
    apply Nat.le_of_not_lt
    intro hlt
    -- One slice more would begin behind the end of the chunk.
    have hmore := (lt_length_chunksOf hpos).1 hlt
    exact absurd (le_mul_ceilDiv hj) (Nat.not_le.2 hmore)

/-- The slices of `j` workers make up the `chunk`. -/
theorem flatten_slices (hj : 0 < j) (chunk : List α) :
    (chunksOf (ceilDiv chunk.length j) chunk).flatten = chunk := by
  by_cases hchunk : chunk = []
  · rw [hchunk, chunksOf_nil]
    rfl
  · exact flatten_chunksOf (ceilDiv_pos hj (List.length_pos_iff.2 hchunk)) chunk

theorem Config.threads_pos (c : Config) : 0 < c.threads := by
  rw [threads, Limits.workers]
  omega

theorem chunkSize_pos (total threads : Nat) : 0 < chunkSize total threads := by
  rw [chunkSize]
  omega

end BoolCalc.Batch
