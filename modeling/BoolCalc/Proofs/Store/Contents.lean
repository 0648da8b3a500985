import BoolCalc.Store.Catalog
import Mathlib.Data.List.Pairwise

namespace BoolCalc.Store

/-!
# What is in a catalog

* `mem_place_iff`, `placeAll_of_increasing` : the expressions with one more in its place; a list in the
  order of its numbers stays as it is when all of it is put in place;
* `firstNumber` : the number for a new expression next to some others, as an integer;
* `Catalog.ofExpressions?_eq_some_iff`, `Catalog.create?_eq_some_iff`, `Catalog.replace?_eq_some_iff`,
  `Catalog.erase?_eq_some_iff` : what a catalog holds that was made or changed.
-/

namespace Id

variable {a b : Id} {n : Int}

theorem ne_of_lt (h : a < b) : a ≠ b := by
  rintro rfl
  exact Int.lt_irrefl a.value h

theorem ofInt?_eq_some_iff : ofInt? n = some a ↔ a.value = n := by
  constructor
  · intro h
    rw [ofInt?] at h
    split at h
    · exact (Option.some.inj h) ▸ rfl
    · cases h
  · rintro rfl
    exact ofInt?_value a

theorem next?_eq_some_iff : a.next? = some b ↔ b.value = a.value + 1 := ofInt?_eq_some_iff

end Id

variable {e x y : Expression} {xs es : List Expression}

/-! ### Expressions in their places -/

/-- No two expressions of `xs` have the same id. -/
theorem Increasing.eq_of_id_eq (h : Increasing xs) (hx : x ∈ xs) (hy : y ∈ xs) (hid : x.id = y.id) :
    x = y := by
  have hdistinct : xs.Pairwise fun a b => a.id ≠ b.id := List.Pairwise.imp Id.ne_of_lt h
  have : Std.Symm fun a b : Expression => a.id ≠ b.id := ⟨fun _ _ hne => hne.symm⟩
  by_contra hne
  exact List.Pairwise.forall hdistinct hx hy hne hid

/-- `place e xs` has `e`, and the expressions of `xs` with another id. -/
theorem mem_place_iff (h : Increasing xs) : y ∈ place e xs ↔ y = e ∨ y ∈ xs ∧ y.id ≠ e.id := by
  induction xs with
  | nil => simp [place]
  | cons x xs ih =>
    obtain ⟨hx, hxs⟩ := List.pairwise_cons.1 h
    -- Where the search ends, what is behind has greater numbers and stays as it is.
    have hne : y ∈ xs → e.id ≤ x.id → y.id ≠ e.id := fun hy le =>
      (Id.ne_of_lt (Int.lt_of_le_of_lt le (hx y hy))).symm
    rcases Int.lt_trichotomy e.id.value x.id.value with lt | eq | gt
    · rw [place, if_pos (Id.lt_iff.2 lt)]
      have := fun hy => hne hy (Int.le_of_lt lt)
      have := Id.ne_of_lt (Id.lt_iff.2 lt)
      grind
    · rw [place, if_neg (by simp [Id.lt_iff, eq]), if_neg (by simp [Id.lt_iff, eq])]
      have := fun hy => hne hy (Int.le_of_eq eq)
      have := Id.ext eq
      grind
    · rw [place, if_neg (fun lt => Int.lt_asymm gt (Id.lt_iff.1 lt)), if_pos (Id.lt_iff.2 gt),
        List.mem_cons, ih hxs]
      have := Id.ne_of_lt (Id.lt_iff.2 gt)
      grind

/-- If all ids of `xs` are below `e.id`, the place of `e` is the end. -/
theorem place_eq_append (h : ∀ x ∈ xs, x.id < e.id) : place e xs = xs ++ [e] := by
  induction xs with
  | nil => rfl
  | cons x xs ih =>
    have hx := h x List.mem_cons_self
    have hlt : ¬e.id < x.id := by simp only [Id.lt_iff] at hx ⊢; omega
    rw [place, if_neg hlt, if_pos hx, ih fun z hz => h z (List.mem_cons_of_mem x hz), List.cons_append]

/-! ### All expressions in their places -/

namespace Catalog

theorem placeAll_val (es : List Expression) :
    (placeAll es).1 = es.foldl (fun xs e => place e xs) [] := by
  have hfold : ∀ (es : List Expression) (xs : { xs : List Expression // Increasing xs }),
      (es.foldl (fun xs e => (⟨place e xs.1, pairwise_place xs.2⟩ :
        { xs : List Expression // Increasing xs })) xs).1 = es.foldl (fun xs e => place e xs) xs.1 := by
    intro es
    induction es with
    | nil => exact fun _ => rfl
    | cons e es ih => exact fun xs => ih _
  exact hfold es _

/-- `placeAll es` has expressions of `es` only. -/
theorem mem_of_mem_placeAll (h : y ∈ (placeAll es).1) : y ∈ es := by
  have hfold : ∀ (es xs : List Expression), y ∈ es.foldl (fun xs e => place e xs) xs → y ∈ xs ∨ y ∈ es := by
    intro es
    induction es with
    | nil => exact fun _ => .inl
    | cons e es ih =>
      intro xs hy
      rcases ih _ hy with hy | hy
      · exact (mem_place hy).elim (fun eq => .inr (eq ▸ List.mem_cons_self)) .inl
      · exact .inr (List.mem_cons_of_mem e hy)
  rw [placeAll_val] at h
  exact (hfold es [] h).resolve_left List.not_mem_nil

/-- `placeAll` leaves expressions in the order of their ids as they are. -/
theorem placeAll_of_increasing (h : Increasing es) : (placeAll es).1 = es := by
  have hfold : ∀ (es xs : List Expression), Increasing (xs ++ es) →
      es.foldl (fun xs e => place e xs) xs = xs ++ es := by
    intro es
    induction es with
    | nil => exact fun xs _ => (List.append_nil xs).symm
    | cons e es ih =>
      intro xs h
      have hlt : ∀ x ∈ xs, x.id < e.id := fun x hx =>
        (List.pairwise_append.1 h).2.2 x hx e List.mem_cons_self
      rw [List.foldl_cons, place_eq_append hlt, ih (xs ++ [e]) (by simpa using h)]
      simp
  rw [placeAll_val]
  exact hfold es [] h

end Catalog

/-! ### The next number -/

/-- The number for a new expression next to `es`, whether it fits into 64 bits or not: one above the greatest id,
and 1 next to none. -/
def firstNumber (es : List Expression) : Int := (es.map (·.id.value)).max?.getD 0 + 1

/-- `firstNumber es` is above all ids of `es`. -/
theorem lt_firstNumber (h : e ∈ es) : e.id.value < firstNumber es := by
  have hmem : e.id.value ∈ es.map (·.id.value) := List.mem_map_of_mem h
  rw [firstNumber]
  cases hmax : (es.map (·.id.value)).max? with
  | none => rw [List.max?_eq_none_iff.1 hmax] at hmem; cases hmem
  | some m =>
    have := (List.max?_eq_some_iff.1 hmax).2 _ hmem
    simp only [Option.getD_some]
    omega

/-- `firstNumber es` is the least positive number above all ids of `es`. -/
theorem firstNumber_le {n : Int} (hn : 1 ≤ n) (h : ∀ e ∈ es, e.id.value < n) : firstNumber es ≤ n := by
  rw [firstNumber]
  cases hmax : (es.map (·.id.value)).max? with
  | none => simpa using hn
  | some m =>
    obtain ⟨e, he, rfl⟩ := List.mem_map.1 (List.max?_eq_some_iff.1 hmax).1
    have := h e he
    simp only [Option.getD_some]
    omega

theorem one_le_firstNumber (h : ∀ e ∈ es, 1 ≤ e.id.value) : 1 ≤ firstNumber es := by
  cases es with
  | nil => exact Int.le_refl 1
  | cons e es =>
    exact Int.le_trans (h e List.mem_cons_self) (Int.le_of_lt (lt_firstNumber List.mem_cons_self))

namespace Catalog

theorem nextIdFor?_eq (es : List Expression) : nextIdFor? es = Id.ofInt? (firstNumber es) := by
  cases es with
  | nil => rfl
  | cons e es =>
    have hfold : ∀ (es : List Expression) (a : Id),
        (es.foldl (fun top x => top.max x.id) a).value =
          (es.map (·.id.value)).foldl max a.value := by
      intro es
      induction es with
      | nil => exact fun _ => rfl
      | cons e es ih =>
        intro a
        have hmax : (a.max e.id).value = max a.value e.id.value := by
          rw [Id.max]
          split <;> simp only [Id.lt_iff] at * <;> omega
        rw [List.foldl_cons, ih, hmax, List.map_cons, List.foldl_cons]
    rw [nextIdFor?, Id.next?, hfold, firstNumber, List.map_cons, List.max?_cons', Option.getD_some]

/-! ### Catalogs that are made and changed -/

variable {c c' : Catalog} {id : Id} {definition : String}

@[ext] theorem ext (hentries : c.entries = c'.entries) (hnext : c.next = c'.next) : c = c' := by
  cases c
  cases c'
  simp_all

theorem get?_eq_some_iff : c.get? id = some e ↔ e ∈ c.entries ∧ e.id = id := by
  constructor
  · intro h
    exact ⟨List.mem_of_find?_eq_some h, by simpa using List.find?_some h⟩
  · rintro ⟨he, rfl⟩
    -- What is found has the number of `e`, and no other expression has it.
    cases hfind : c.get? e.id with
    | none => simpa using List.find?_eq_none.1 hfind e he
    | some y =>
      have hy : y.id = e.id := by simpa using List.find?_some hfind
      rw [c.increasing.eq_of_id_eq (List.mem_of_find?_eq_some hfind) he hy]

theorem get?_eq_none_iff : c.get? id = none ↔ ∀ e ∈ c.entries, e.id ≠ id := by
  simp [get?]

theorem ofExpressions?_eq_some_iff :
    ofExpressions? es = some c ↔ c.entries = (placeAll es).1 ∧ c.next.value = firstNumber es := by
  rw [ofExpressions?, nextIdFor?_eq, Option.map_eq_some_iff]
  constructor
  · rintro ⟨next, hnext, rfl⟩
    exact ⟨rfl, Id.ofInt?_eq_some_iff.1 hnext⟩
  · rintro ⟨hentries, hnext⟩
    exact ⟨c.next, Id.ofInt?_eq_some_iff.2 hnext, Catalog.ext hentries.symm rfl⟩

/-- If all ids are below `Text.maxInt64`, `ofExpressions?` makes a catalog. -/
theorem exists_ofExpressions? (h : ∀ e ∈ es, e.id.value < Text.maxInt64) :
    ∃ c, ofExpressions? es = some c := by
  have hupper : firstNumber es ≤ Text.maxInt64 := firstNumber_le (by decide) h
  have hlower : Text.minInt64 ≤ firstNumber es := by
    cases es with
    | nil => decide
    | cons e es => exact Int.le_trans e.id.lower (Int.le_of_lt (lt_firstNumber List.mem_cons_self))
  exact ⟨⟨_, ⟨firstNumber es, hlower, hupper⟩, (placeAll es).2⟩,
    ofExpressions?_eq_some_iff.2 ⟨rfl, rfl⟩⟩

theorem create?_eq_some_iff :
    c.create? definition = some (e, c') ↔
      e = ⟨c.next, definition⟩ ∧ c'.entries = place e c.entries ∧ c'.next.value = c.next.value + 1 := by
  rw [create?, Option.map_eq_some_iff]
  constructor
  · rintro ⟨next, hnext, heq⟩
    obtain ⟨rfl, rfl⟩ := Prod.mk.inj heq
    exact ⟨rfl, rfl, Id.next?_eq_some_iff.1 hnext⟩
  · rintro ⟨rfl, hentries, hnext⟩
    exact ⟨c'.next, Id.next?_eq_some_iff.2 hnext, congrArg _ (Catalog.ext hentries.symm rfl)⟩

theorem replace?_eq_some_iff :
    c.replace? id definition = some (e, c') ↔
      (∃ x ∈ c.entries, x.id = id) ∧ e = ⟨id, definition⟩ ∧ c' = c.put e := by
  rw [replace?, Option.map_eq_some_iff]
  constructor
  · rintro ⟨x, hx, heq⟩
    obtain ⟨rfl, rfl⟩ := Prod.mk.inj heq
    exact ⟨⟨x, get?_eq_some_iff.1 hx⟩, rfl, rfl⟩
  · rintro ⟨⟨x, hx⟩, rfl, rfl⟩
    exact ⟨x, get?_eq_some_iff.2 hx, rfl⟩

theorem erase?_eq_some_iff :
    c.erase? id = some c' ↔
      (∃ x ∈ c.entries, x.id = id) ∧ c'.entries = c.entries.filter (·.id ≠ id) ∧ c'.next = c.next := by
  rw [erase?, Option.map_eq_some_iff]
  constructor
  · rintro ⟨x, hx, rfl⟩
    exact ⟨⟨x, get?_eq_some_iff.1 hx⟩, rfl, rfl⟩
  · rintro ⟨⟨x, hx⟩, hentries, hnext⟩
    exact ⟨x, get?_eq_some_iff.2 hx, Catalog.ext hentries.symm hnext.symm⟩

end Catalog

end BoolCalc.Store
