import BoolCalc.Proofs.Store.Durability

namespace BoolCalc.Store

/-!
# Numbers given out over the life of a store file

* `Step`, `Shelf.step`, `Shelf.run` : attempts, and openings of the file in between;
* `Shelf.issued` : the numbers of the new expressions, in the order in which they were made;
* `Shelf.Numbered` : the invariant, the numbers given out so far are all those from 1 to below some
  `top`, and the next number is at most `top`;
* `Shelf.Numbered.attempt`, `Shelf.Numbered.reopened` : what one step does to the invariant;
* `Shelf.Numbered.exists_issued_mem` : a store whose next number is below `top` gives out some number again;
* `Shelf.nodup_issued_iff` : **numbers given out once**, when the numbers of a whole life differ.

The next number is not in the file. A store that is opened takes the one above the greatest number it
finds, which was given out before if the expression of that number is gone.
-/

inductive Step where
  | call (a : Attempt)
  | reopen
  deriving DecidableEq

namespace Shelf

variable {path : String} {s : Shelf} {a : Attempt} {given : List Id} {top : Int}

/-- The store opened from the file of `s`. If it does not open, `s` stays; `Kept.openAt` says that it does open. -/
def reopened (path : String) (s : Shelf) : Shelf := (Shelf.openAt path s.disk).1.toOption.getD s

/-- The store after one `Step`. -/
def step (path : String) (s : Shelf) : Step → Shelf
  | .call a => (s.attempt a).2
  | .reopen => s.reopened path

/-- The store after `steps`. -/
def run (path : String) (s : Shelf) (steps : List Step) : Shelf := steps.foldl (step path) s

/-- The ids given out in the calls among some steps. -/
def issued (path : String) (s : Shelf) : List Step → List Id
  | [] => []
  | .call a :: rest => (a.call.newId? (s.attempt a).1).toList ++ issued path (s.attempt a).2 rest
  | .reopen :: rest => issued path (s.reopened path) rest

theorem issued_append (path : String) (s : Shelf) (before after : List Step) :
    issued path s (before ++ after) = issued path s before ++ issued path (s.run path before) after := by
  induction before generalizing s with
  | nil => rfl
  | cons x before ih =>
    cases x with
    | call a => simp only [List.cons_append, issued, ih, List.append_assoc]; rfl
    | reopen => exact ih _

/-- The store of a file at `path` that is missing. -/
def first (path : String) : Shelf := { catalog := .empty, path := some path }

/-- `first path` is the store that opens where there is no file. -/
theorem openAt_missing (path : String) : (Shelf.openAt path {}).1 = .ok (first path) := rfl

/-! ### The invariant -/

/-- The invariant of a store, where the ids `given` were given out so far. They are the numbers from 1 to below
`top`. -/
structure Numbered (path : String) (given : List Id) (top : Int) (s : Shelf) : Prop where
  path : s.path = some path
  file : s.disk.expressions = .ok s.catalog.entries
  fresh : s.catalog.Fresh
  positive : ∀ e ∈ s.catalog.entries, 1 ≤ e.id.value
  given : ∀ n : Int, (∃ id ∈ given, id.value = n) ↔ 1 ≤ n ∧ n < top
  next_pos : 1 ≤ s.catalog.next.value
  next_le : s.catalog.next.value ≤ top

theorem numbered_first (path : String) : (first path).Numbered path [] 1 where
  path := rfl
  file := rfl
  fresh := fun _ he => absurd he List.not_mem_nil
  positive := fun _ he => absurd he List.not_mem_nil
  given n := by
    simp only [List.not_mem_nil, false_and, exists_false, false_iff]
    omega
  next_pos := Int.le_refl 1
  next_le := Int.le_refl 1

/-- The invariant `given` once `s.catalog.next` is given out. -/
theorem Numbered.given_append (h : s.Numbered path given top) (n : Int) :
    (∃ id ∈ given ++ [s.catalog.next], id.value = n) ↔ 1 ≤ n ∧ n < max top (s.catalog.next.value + 1) := by
  have hgiven := h.given n
  have := h.next_pos
  have := h.next_le
  simp only [List.mem_append, List.mem_singleton, or_and_right, exists_or, exists_eq_left, hgiven]
  omega

/-- An attempt keeps `Numbered.positive`. -/
theorem Numbered.positive_attempt (h : s.Numbered path given top) (a : Attempt) :
    ∀ e ∈ (s.attempt a).2.catalog.entries, 1 ≤ e.id.value := by
  rcases attempt_cases s a with ⟨hun, -⟩ | ⟨v, staged, hchange, -, hch⟩
  · rw [hun.catalog]
    exact h.positive
  · rw [hch.catalog]
    intro e he
    rcases Catalog.change?_cases hchange with ⟨definition, -, -, hentries, -⟩ | ⟨-, -, hold⟩
    · rw [hentries] at he
      rcases mem_place he with rfl | he
      · exact h.next_pos
      · exact h.positive e he
    · obtain ⟨x, hx, hid⟩ := hold e he
      rw [← hid]
      exact h.positive x hx

/-- **One attempt** gives out no id, or it gives out `s.catalog.next` and moves on by one. -/
theorem Numbered.attempt (h : s.Numbered path given top) (a : Attempt) :
    (a.call.newId? (s.attempt a).1 = none ∧ (s.attempt a).2.Numbered path given top ∧
      (s.attempt a).2.catalog.next = s.catalog.next) ∨
    (a.call.newId? (s.attempt a).1 = some s.catalog.next ∧
      (s.attempt a).2.Numbered path (given ++ [s.catalog.next]) (max top (s.catalog.next.value + 1)) ∧
      (s.attempt a).2.catalog.next.value = s.catalog.next.value + 1) := by
  obtain ⟨hpath, hfiled⟩ := attempt_filed h.path a
  have hfile : (s.attempt a).2.disk.expressions = .ok (s.attempt a).2.catalog.entries :=
    hfiled.elim (fun hun => by rw [Disk.expressions, hun.content, hun.catalog]; exact h.file) id
  have hfresh := fresh_attempt h.fresh a
  have hpositive := h.positive_attempt a
  have hpos := h.next_pos
  have hle := h.next_le
  rcases attempt_next s a with ⟨hnone, hnext⟩ | ⟨hid, hnext⟩
  · exact .inl ⟨hnone, ⟨hpath, hfile, hfresh, hpositive, h.given, by rwa [hnext], by rwa [hnext]⟩, hnext⟩
  · exact .inr ⟨hid, ⟨hpath, hfile, hfresh, hpositive, h.given_append, by omega, by omega⟩, hnext⟩

/-- **One opening** keeps `Numbered`. The next number becomes `firstNumber` of the entries. -/
theorem Numbered.reopened (h : s.Numbered path given top) :
    (s.reopened path).Numbered path given top ∧
      (s.reopened path).catalog.next.value = firstNumber s.catalog.entries := by
  have hpos := h.next_pos
  -- `ofExpressions?` fails only for an identifier without a successor.
  have hroom : ∀ e ∈ s.catalog.entries, e.id.value < Text.maxInt64 := fun e he =>
    Int.lt_of_lt_of_le (h.fresh e he) s.catalog.next.upper
  obtain ⟨c, hc⟩ := Catalog.exists_ofExpressions? hroom
  have hopen : s.reopened path = { catalog := c, path := some path, disk := s.disk } := by
    rw [Shelf.reopened, openAt_eq_ok_iff.2 ⟨_, c, h.file, hc, rfl⟩]
    rfl
  obtain ⟨hentries, hnext⟩ := Catalog.ofExpressions?_eq_some_iff.1 hc
  -- The file lists the entries by increasing identifiers, so placing them one by one moves none.
  rw [Catalog.placeAll_of_increasing s.catalog.increasing] at hentries
  have hle : firstNumber s.catalog.entries ≤ s.catalog.next.value := firstNumber_le hpos h.fresh
  rw [hopen]
  refine ⟨⟨rfl, ?_, Catalog.fresh_ofExpressions? hc, ?_, h.given, ?_, ?_⟩, hnext⟩
  · rw [hentries]
    exact h.file
  · rw [hentries]
    exact h.positive
  · rw [hnext]
    exact one_le_firstNumber h.positive
  · rw [hnext]
    exact Int.le_trans hle h.next_le

/-! ### Numbers given out twice -/

/-- If `s.catalog.next` is below `top`, and any id is given out afterwards, one that was given out before is among
them. -/
theorem Numbered.exists_issued_mem (h : s.Numbered path given top) (hlt : s.catalog.next.value < top)
    {steps : List Step} (hsome : issued path s steps ≠ []) : ∃ id ∈ issued path s steps, id ∈ given := by
  induction steps generalizing s with
  | nil => exact absurd rfl hsome
  | cons x rest ih =>
    cases x with
    | call a =>
      rcases h.attempt a with ⟨hnone, ht, hnext⟩ | ⟨hid, -, -⟩
      · rw [issued, hnone, Option.toList_none, List.nil_append] at hsome ⊢
        exact ih ht (by rwa [hnext]) hsome
      · obtain ⟨id, hmem, hval⟩ := (h.given s.catalog.next.value).2 ⟨h.next_pos, hlt⟩
        obtain rfl := Id.ext hval
        refine ⟨s.catalog.next, ?_, hmem⟩
        rw [issued, hid]
        exact List.mem_append_left _ (List.mem_singleton_self _)
    | reopen =>
      obtain ⟨ht, hnext⟩ := h.reopened
      have hle : firstNumber s.catalog.entries ≤ s.catalog.next.value :=
        firstNumber_le h.next_pos h.fresh
      exact ih ht (by omega) hsome

/-! ### The life of a store file -/

/-- The greatest of the ids `given`, if there is one, is in the store. -/
def HasGreatest (s : Shelf) (given : List Id) : Prop :=
  ∀ id ∈ given, (∀ x ∈ given, x ≤ id) → ∃ e ∈ s.catalog.entries, e.id = id

/-- If `s.catalog.next` is `top`, it stays so over an opening exactly if the greatest of the ids given is in the
store. -/
theorem Numbered.next_reopened_iff (h : s.Numbered path given top) (htop : s.catalog.next.value = top) :
    (s.reopened path).catalog.next.value = top ↔ s.HasGreatest given := by
  have hbelow : ∀ e ∈ s.catalog.entries, e.id.value < top := fun e he => htop ▸ h.fresh e he
  have hpos := h.next_pos
  rw [h.reopened.2]
  constructor
  · intro heq id hid hgreatest
    obtain ⟨hone, hlt⟩ := (h.given id.value).1 ⟨id, hid, rfl⟩
    obtain ⟨last, hlast, hval⟩ := (h.given (top - 1)).2 ⟨by omega, by omega⟩
    have hle := Id.le_iff.1 (hgreatest last hlast)
    -- Without the greatest number in the store, a smaller first number would do.
    by_contra hnot
    have hsmaller : ∀ e ∈ s.catalog.entries, e.id.value < top - 1 := fun e he => by
      have hne : e.id.value ≠ id.value := fun hval => hnot ⟨e, he, Id.ext hval⟩
      have := hbelow e he
      omega
    have := firstNumber_le (by omega) hsmaller
    omega
  · intro hgreatest
    have hle : firstNumber s.catalog.entries ≤ top := firstNumber_le (by omega) hbelow
    have hone := one_le_firstNumber h.positive
    rcases Int.lt_or_le 1 top with hlt | hle'
    · obtain ⟨last, hlast, hval⟩ := (h.given (top - 1)).2 ⟨by omega, by omega⟩
      obtain ⟨e, he, heid⟩ := hgreatest last hlast fun x hx => by
        have := (h.given x.value).1 ⟨x, hx, rfl⟩
        rw [Id.le_iff]
        omega
      have := lt_firstNumber he
      rw [heid] at this
      omega
    · omega

/-- The ways to split a list at some `y`, if it has a first element. -/
theorem forall_split_cons {x y : Step} {rest : List Step} {P : List Step → List Step → Prop} :
    (∀ before after, x :: rest = before ++ y :: after → P before after) ↔
      (x = y → P [] rest) ∧ ∀ before after, rest = before ++ y :: after → P (x :: before) after := by
  constructor
  · intro h
    exact ⟨fun hxy => h [] rest (by rw [hxy, List.nil_append]),
      fun before after hrest => h (x :: before) after (by rw [hrest, List.cons_append])⟩
  · rintro ⟨hhead, htail⟩ before after hsplit
    rcases List.cons_eq_append_iff.1 hsplit with ⟨rfl, hcons⟩ | ⟨before, rfl, hrest⟩
    · obtain ⟨rfl, rfl⟩ := List.cons.inj hcons
      exact hhead rfl
    · exact htail before after hrest

/-- **A whole life**, from a store whose next number is `top`: no id is given out twice exactly if every opening
that matters finds the greatest id in the store. -/
theorem Numbered.nodup_append_iff (h : s.Numbered path given top) (htop : s.catalog.next.value = top)
    (hnodup : given.Nodup) (steps : List Step) :
    (given ++ issued path s steps).Nodup ↔ ∀ before after, steps = before ++ .reopen :: after →
      issued path ((s.run path before).reopened path) after ≠ [] →
        (s.run path before).HasGreatest (given ++ issued path s before) := by
  -- As long as the next number is the top, a number that is given out is new. An opening keeps it at the
  -- top if the greatest number is there; otherwise the next new expression repeats a number.
  induction steps generalizing s given top with
  | nil => simpa [issued] using hnodup
  | cons x rest ih =>
    rw [forall_split_cons]
    cases x with
    | call a =>
      have hrun : ∀ before, s.run path (.call a :: before) = (s.attempt a).2.run path before := fun _ => rfl
      simp only [reduceCtorEq, false_imp_iff, true_and, hrun, issued]
      rcases h.attempt a with ⟨hnone, ht, hnext⟩ | ⟨hid, ht, hnext⟩
      · simp only [hnone, Option.toList_none, List.nil_append]
        exact ih ht (by rwa [hnext]) hnodup
      · simp only [hid, Option.toList_some, ← List.append_assoc]
        refine ih ht (by omega) ?_
        refine List.nodup_append.2 ⟨hnodup, by simp, fun id hmem x hx heq => ?_⟩
        have := (h.given id.value).1 ⟨id, hmem, rfl⟩
        rw [heq, List.mem_singleton.1 hx] at this
        omega
    | reopen =>
      obtain ⟨ht, hnext⟩ := h.reopened
      have hrun : ∀ before, s.run path (.reopen :: before) = (s.reopened path).run path before :=
        fun _ => rfl
      simp only [true_imp_iff, hrun, issued, List.append_nil]
      have hnil : s.run path [] = s := rfl
      rw [hnil]
      by_cases hgreatest : s.HasGreatest given
      · rw [ih ht ((h.next_reopened_iff htop).2 hgreatest) hnodup]
        simp [hgreatest]
      · -- The next number of the store that is opened was given out before.
        have hlt : (s.reopened path).catalog.next.value < top :=
          Int.lt_iff_le_and_ne.2 ⟨ht.next_le, mt (h.next_reopened_iff htop).1 hgreatest⟩
        by_cases hsome : issued path (s.reopened path) rest = []
        · rw [hsome, List.append_nil]
          refine iff_of_true hnodup ⟨fun h => absurd rfl h, fun before after hrest h => absurd ?_ h⟩
          rw [hrest, issued_append] at hsome
          exact (List.append_eq_nil_iff.1 hsome).2
        · obtain ⟨id, hid, hmem⟩ := ht.exists_issued_mem hlt hsome
          refine iff_of_false (fun hall => ?_) fun hall => hgreatest (hall.1 hsome)
          exact (List.nodup_append.1 hall).2.2 id hmem id hid rfl

/-- **Ids given out once.** Over the life of a store file that was missing in the beginning, the ids `issued` are
distinct exactly if, whenever a store is opened and gives out an id afterwards, the greatest id given out so far is
in it (`HasGreatest`). -/
theorem nodup_issued_iff (path : String) (steps : List Step) :
    (issued path (first path) steps).Nodup ↔
      ∀ before after, steps = before ++ .reopen :: after →
        issued path (((first path).run path before).reopened path) after ≠ [] →
          ((first path).run path before).HasGreatest (issued path (first path) before) := by
  simpa using (numbered_first path).nodup_append_iff rfl List.nodup_nil steps

/-- A new expression that is deleted before the store is opened again, and one more. -/
def deletedLast : List Step :=
  [.call ⟨.create "a", none, .epoch⟩, .call ⟨.delete .one, none, .epoch⟩, .reopen,
    .call ⟨.create "b", none, .epoch⟩]

/-- Both expressions of `deletedLast` have the id 1. -/
theorem not_nodup_issued_deletedLast : ¬(issued "s.json" (first "s.json") deletedLast).Nodup := by
  -- The store before it is opened again has no expression, and neither has its file.
  let c : Catalog := ⟨[], ⟨2, by decide, by decide⟩, increasing_nil⟩
  let old : Shelf := { catalog := c, path := "s.json", disk := { content := .text (fileText c .epoch) } }
  have hread : old.disk.expressions = .ok [] := @Disk.expressions_of_written old.disk c .epoch rfl
  have hreopened : old.reopened "s.json" = { old with catalog := .empty } := by
    rw [Shelf.reopened, openAt_eq_ok_iff.2 ⟨[], .empty, hread, rfl, rfl⟩]
    rfl
  have hrest : issued "s.json" old (deletedLast.drop 2) = [.one] := by
    have hdrop : deletedLast.drop 2 = [.reopen, .call ⟨.create "b", none, .epoch⟩] := rfl
    rw [hdrop, issued, hreopened]
    rfl
  have hissued : issued "s.json" (first "s.json") deletedLast =
      [.one] ++ issued "s.json" old (deletedLast.drop 2) :=
    rfl
  rw [hissued, hrest]
  decide

end Shelf

end BoolCalc.Store
