namespace BoolCalc

/-!
# The last entry of a key

* `IsLast` : an entry of a list behind which no other has its key;
* `isLast_concat` : the last entries of a list with one more entry;
* `exists_isLast` : every key that occurs has a last entry;
* `isLast_of_nodup` : where no key occurs twice, every entry is the last of its key.
-/

variable {α κ : Type} {key : α → κ} {xs : List α} {x y : α}

/-- The entry `x` is in the list, and no entry behind it has `key x`. -/
def IsLast (key : α → κ) (xs : List α) (x : α) : Prop :=
  ∃ before behind, xs = before ++ x :: behind ∧ ∀ y ∈ behind, key y ≠ key x

theorem not_isLast_nil : ¬IsLast key [] x := by
  rintro ⟨before, behind, h, -⟩
  simp at h

theorem IsLast.mem (h : IsLast key xs x) : x ∈ xs := by
  obtain ⟨before, behind, rfl, -⟩ := h
  simp

/-- With one more entry `y`, this one is the last of its key, and the others stay what they are unless `key y` is
theirs. -/
theorem isLast_concat : IsLast key (xs ++ [y]) x ↔ x = y ∨ IsLast key xs x ∧ key y ≠ key x := by
  constructor
  · rintro ⟨before, behind, h, hlast⟩
    rcases List.eq_nil_or_concat behind with rfl | ⟨behind, z, rfl⟩
    · obtain ⟨-, heq⟩ := List.append_inj' h rfl
      exact .inl (List.cons.inj heq).1.symm
    · -- The new entry is behind `x`.
      have hsplit : xs ++ [y] = (before ++ x :: behind) ++ [z] := by simpa using h
      obtain ⟨rfl, heq⟩ := List.append_inj' hsplit rfl
      obtain rfl := (List.cons.inj heq).1
      exact .inr ⟨⟨before, behind, rfl, fun w hw => hlast w (by simp [hw])⟩, hlast y (by simp)⟩
  · rintro (rfl | ⟨⟨before, behind, rfl, hlast⟩, hy⟩)
    · exact ⟨xs, [], rfl, nofun⟩
    · refine ⟨before, behind ++ [y], by simp, fun w hw => ?_⟩
      rcases List.mem_append.1 hw with hw | hw
      · exact hlast w hw
      · rw [List.mem_singleton.1 hw]
        exact hy

/-- Behind the entries `ys` the last ones stay what they are. -/
theorem IsLast.append_left (h : IsLast key xs x) (ys : List α) : IsLast key (ys ++ xs) x := by
  obtain ⟨before, behind, rfl, hlast⟩ := h
  exact ⟨ys ++ before, behind, by simp, hlast⟩

/-- A key `k` that occurs has a last entry. -/
theorem exists_isLast {k : κ} (h : k ∈ xs.map key) : ∃ x, key x = k ∧ IsLast key xs x := by
  induction xs with
  | nil => cases h
  | cons y xs ih =>
    by_cases hlater : k ∈ xs.map key
    · obtain ⟨x, hx, hlast⟩ := ih hlater
      exact ⟨x, hx, hlast.append_left [y]⟩
    · have hy : k = key y := (List.mem_cons.1 h).resolve_right hlater
      subst hy
      refine ⟨y, rfl, [], xs, rfl, fun z hz heq => hlater ?_⟩
      rw [← heq]
      exact List.mem_map_of_mem hz

/-- Where no key occurs twice, every entry of `xs` is the last of its key. -/
theorem isLast_of_nodup (hdistinct : (xs.map key).Nodup) (hx : x ∈ xs) : IsLast key xs x := by
  obtain ⟨before, behind, rfl⟩ := List.append_of_mem hx
  refine ⟨before, behind, rfl, fun y hy heq => ?_⟩
  rw [List.map_append, List.map_cons] at hdistinct
  have hbehind := (List.nodup_cons.1 (List.nodup_append.1 hdistinct).2.1).1
  apply hbehind
  rw [← heq]
  exact List.mem_map_of_mem hy

end BoolCalc
