import BoolCalc.Proofs.Store.History
import BoolCalc.Proofs.Store.StoreFile

namespace BoolCalc.Store

/-!
# A store file is as good as the store

* `Disk.expressions_of_written` : what was written is read back;
* `Shelf.openAt_eq_ok_iff` : when a store opens, and what it holds;
* `Shelf.Kept` : the invariant, the catalog of the file is the catalog of the store;
* `Shelf.attempt_filed` : what an attempt does to the file;
* `Shelf.kept_openAt`, `Shelf.Kept.attempt`, `Shelf.Kept.after` : it holds from the beginning and after any
  attempts;
* `Shelf.durable` : **durability**, the store can be opened again after any attempts and holds the same, and
  an attempt that fails changes neither the store nor its file.
-/

/-- A file that was written from `c` has the expressions of `c`. -/
theorem Disk.expressions_of_written {disk : Disk} {c : Catalog} {now : Timestamp}
    (h : disk.content = .text (Shelf.fileText c now)) : disk.expressions = .ok c.entries := by
  simp only [Disk.expressions, h, Shelf.fileText, Snapshot.parse?_text]

namespace Shelf

variable {path : String} {disk : Disk} {s : Shelf} {a : Attempt}

/-- `openAt` succeeds if the file can be read and leaves a number for the next expression. -/
theorem openAt_eq_ok_iff :
    (openAt path disk).1 = .ok s ↔ ∃ es c, disk.expressions = .ok es ∧
      Catalog.ofExpressions? es = some c ∧ s = { catalog := c, path := some path, disk := disk } := by
  rw [openAt]
  cases hread : disk.expressions with
  | error reason => simp
  | ok es =>
    cases hcatalog : Catalog.ofExpressions? es with
    | none => simp [ofExpressions, hcatalog, Except.map]
    | some c => simp [ofExpressions, hcatalog, Except.map, eq_comm]

/-- The invariant of a store and its file: the expressions of the file make up the catalog, and their ids are below
`s.catalog.next`. -/
structure Kept (path : String) (s : Shelf) : Prop where
  path : s.path = some path
  file : ∃ es, s.disk.expressions = .ok es ∧ (Catalog.placeAll es).1 = s.catalog.entries ∧
    ∀ e ∈ es, e.id < s.catalog.next

theorem kept_openAt (h : (openAt path disk).1 = .ok s) : s.Kept path := by
  obtain ⟨es, c, hread, hcatalog, rfl⟩ := openAt_eq_ok_iff.1 h
  obtain ⟨hentries, hnext⟩ := Catalog.ofExpressions?_eq_some_iff.1 hcatalog
  refine ⟨rfl, es, hread, hentries.symm, fun e he => ?_⟩
  rw [Id.lt_iff, hnext]
  exact lt_firstNumber he

/-- `Kept` implies that `s.catalog.next` is above all ids of the catalog. -/
theorem Kept.fresh (h : s.Kept path) : s.catalog.Fresh := by
  obtain ⟨es, -, hentries, hbelow⟩ := h.file
  intro e he
  rw [← hentries] at he
  exact hbelow e (Catalog.mem_of_mem_placeAll he)

/-- An attempt leaves the store `Unchanged`, or the expressions of its catalog are those of its file. -/
theorem attempt_filed (hpath : s.path = some path) (a : Attempt) :
    (s.attempt a).2.path = some path ∧ (s.Unchanged (s.attempt a).2 ∨
      (s.attempt a).2.disk.expressions = .ok (s.attempt a).2.catalog.entries) := by
  rcases attempt_cases s a with ⟨hun, -⟩ | ⟨v, staged, -, -, hch⟩
  · exact ⟨hun.path.trans hpath, .inl hun⟩
  · have hpath' := hch.path.trans hpath
    have hread := Disk.expressions_of_written (hch.content (by rw [hpath']; rfl))
    exact ⟨hpath', .inr (by rw [hread, hch.catalog])⟩

/-- **One attempt** keeps the store `Kept`. -/
theorem Kept.attempt (h : s.Kept path) (a : Attempt) : (s.attempt a).2.Kept path := by
  obtain ⟨hpath, hun | hread⟩ := attempt_filed h.path a
  · -- The file may still be the one that was opened, out of order and with numbers that stand twice.
    obtain ⟨es, hread, hentries, hbelow⟩ := h.file
    refine ⟨hpath, es, ?_, ?_, ?_⟩
    · rw [Disk.expressions, hun.content]
      exact hread
    · rw [hun.catalog, hentries]
    · rwa [hun.catalog]
  · exact ⟨hpath, _, hread, Catalog.placeAll_of_increasing (s.attempt a).2.catalog.increasing,
      fresh_attempt h.fresh a⟩

/-- **All attempts** keep the store `Kept`. -/
theorem Kept.after (h : s.Kept path) (as : List Attempt) : (s.after as).Kept path := by
  induction as generalizing s with
  | nil => exact h
  | cons a as ih => exact ih (h.attempt a)

/-- A store that is `Kept` can be opened again, with the same entries, whatever `fault` and `now` are then. -/
theorem Kept.openAt (h : s.Kept path) (fault : Option String) (now : Timestamp) :
    ∃ t, (Shelf.openAt path (s.facing fault now).disk).1 = .ok t ∧
      t.catalog.entries = s.catalog.entries := by
  obtain ⟨es, hread, hentries, hbelow⟩ := h.file
  -- The next number fits into 64 bits, so there is one above all those in the file.
  have hroom : ∀ e ∈ es, e.id.value < Text.maxInt64 := fun e he =>
    Int.lt_of_lt_of_le (hbelow e he) s.catalog.next.upper
  obtain ⟨c, hc⟩ := Catalog.exists_ofExpressions? hroom
  have hfacing : (s.facing fault now).disk.expressions = .ok es := hread
  refine ⟨_, openAt_eq_ok_iff.2 ⟨es, c, hfacing, hc, rfl⟩, ?_⟩
  rw [← hentries]
  exact (Catalog.ofExpressions?_eq_some_iff.1 hc).1

/-- **Durability.** Take any file of which a store `s` opens, and any attempts `as`, where each may meet a disk that
cannot be written. Afterwards:
* The store opens again from its file with the same entries, whatever `fault` and `now` are then.
* A further attempt that fails leaves the catalog, with its next number, and the content of the file as they are. -/
theorem durable (h : (Shelf.openAt path disk).1 = .ok s) (as : List Attempt) :
    (∀ fault now, ∃ t, (Shelf.openAt path ((s.after as).facing fault now).disk).1 = .ok t ∧
      t.catalog.entries = (s.after as).catalog.entries) ∧
    ∀ a e, ((s.after as).attempt a).1 = .error e →
      ((s.after as).attempt a).2.catalog = (s.after as).catalog ∧
      ((s.after as).attempt a).2.disk.content = (s.after as).disk.content := by
  refine ⟨((kept_openAt h).after as).openAt, fun a e he => ?_⟩
  have hun := unchanged_of_error he
  exact ⟨hun.catalog, hun.content⟩

/-- A file with the ids 1, 0 and 1, in this order. -/
def unorderedFile : Disk where
  content := .text (Snapshot.text ⟨none, [⟨.one, "x"⟩, ⟨.zero, "é\n\"\\"⟩, ⟨.one, "y"⟩]⟩)

/-- Attempts of which the first and the fourth meet a full disk. -/
def troubledCalls : List Attempt :=
  [⟨.create "p", some "disk full", .epoch⟩, ⟨.create "q", none, .epoch⟩, ⟨.save .zero "r", none, .epoch⟩,
    ⟨.delete .one, some "disk full", .epoch⟩, ⟨.get .one, none, .epoch⟩]

/-- `unorderedFile` after `troubledCalls` has three expressions, and so has the store that is opened from it. -/
theorem durable_unorderedFile :
    ∃ s t, (Shelf.openAt "expressions.json" unorderedFile).1 = .ok s ∧
      (Shelf.openAt "expressions.json" ((s.after troubledCalls).facing none .epoch).disk).1 = .ok t ∧
      t.catalog.entries.map (fun e => (e.id.value, e.definition)) = [(0, "r"), (1, "y"), (2, "q")] := by
  let es : List Expression := [⟨.one, "x"⟩, ⟨.zero, "é\n\"\\"⟩, ⟨.one, "y"⟩]
  let c : Catalog := ⟨(Catalog.placeAll es).1, ⟨2, by decide, by decide⟩, (Catalog.placeAll es).2⟩
  have hread : unorderedFile.expressions = .ok es := by
    simp only [Disk.expressions, unorderedFile, Snapshot.parse?_text, es]
  have hopen : (Shelf.openAt "expressions.json" unorderedFile).1 =
      .ok { catalog := c, path := some "expressions.json", disk := unorderedFile } :=
    openAt_eq_ok_iff.2 ⟨es, c, hread, rfl, rfl⟩
  obtain ⟨t, ht, hentries⟩ := (durable hopen troubledCalls).1 none .epoch
  exact ⟨_, t, hopen, ht, by rw [hentries]; rfl⟩

end Shelf

end BoolCalc.Store
