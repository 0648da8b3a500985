import BoolCalc.Proofs.Store.Durability

namespace BoolCalc.Store

/-!
# When the numbers run out

* `Catalog.Exhausted` : the next number is the greatest one, so that there is none for the expression after it;
* `Shelf.attempt_of_spoiled` : a spoiled store refuses every attempt;
* `Shelf.breaksOff_or` : **inversion**, an attempt breaks off because the numbers have run out, or it does not and
  spoils nothing;
* `Shelf.spoiled_after_iff` : which attempts leave a spoiled store behind;
* `Shelf.spoiled_refuses` : a spoiled store after any further attempts;
* `Shelf.exhaustion_spoils` : **exhaustion**, a store is spoiled by an attempt for a new expression when the numbers
  have run out, and by nothing else.
-/

/-- The next number is `Text.maxInt64`, so that there is none after it. -/
def Catalog.Exhausted (c : Catalog) : Prop := c.next.value = Text.maxInt64

/-- `change? (.create _)` fails exactly on an exhausted catalog. -/
theorem Catalog.change?_create_eq_none_iff {c : Catalog} {definition : String} :
    c.change? (.create definition) = none ↔ c.Exhausted := by
  rw [change?, Option.map_eq_none_iff, create?, Option.map_eq_none_iff, Id.next?_eq_none_iff]
  rfl

namespace Shelf

variable {s : Shelf} {a : Attempt}

/-! ### One attempt -/

/-- `commit` never breaks off with `.overflow`: the number was found before. -/
theorem commit_ne_overflow (s : Shelf) (value : α) (staged : Catalog) :
    (s.commit value staged).1 ≠ .error .overflow := by
  unfold commit
  split
  · nofun
  · split <;> nofun

/-- A `spoiled` store refuses every attempt. Nothing changes but what is outside. -/
theorem attempt_of_spoiled (hspoiled : s.spoiled = true) (a : Attempt) :
    s.attempt a = (.error (.failed spoiledError), s.facing a.fault a.now) := by
  rw [attempt, perform_eq, guarded]
  exact if_pos hspoiled

/-- **Inversion.** On a store that is not `spoiled`, an attempt to create on an `Exhausted` catalog breaks off with
`.overflow`, and leaves the store spoiled and otherwise as it was. No other attempt breaks off or spoils the store. -/
theorem breaksOff_or (hsound : s.spoiled = false) (a : Attempt) :
    (a.call.creates = true ∧ s.catalog.Exhausted ∧
      s.attempt a = (.error .overflow, { s.facing a.fault a.now with spoiled := true })) ∨
    (¬(a.call.creates = true ∧ s.catalog.Exhausted) ∧ (s.attempt a).1 ≠ .error .overflow ∧
      (s.attempt a).2.spoiled = false) := by
  have hcatalog : (s.facing a.fault a.now).catalog = s.catalog := rfl
  have hspoiled : (s.facing a.fault a.now).spoiled = false := hsound
  cases hchange : s.catalog.change? a.call with
  -- Nothing to change: the store only looks, and a call to create breaks off in the middle.
  | none =>
    have hattempt : s.attempt a = (s.catalog.look a.call, if a.call.creates then
        { s.facing a.fault a.now with spoiled := true } else s.facing a.fault a.now) := by
      rw [attempt, perform_eq, guarded, hspoiled, hcatalog, hchange]
      rfl
    rw [hattempt]
    cases hcall : a.call with
    | create definition =>
      rw [hcall] at hchange
      exact .inl ⟨rfl, Catalog.change?_create_eq_none_iff.1 hchange, rfl⟩
    | get id =>
      refine .inr ⟨fun h => Bool.false_ne_true h.1, ?_, hsound⟩
      cases hfound : s.catalog.get? id <;> simp [Catalog.look, hfound]
    | all | save | delete => exact .inr ⟨fun h => Bool.false_ne_true h.1, fun h => (by cases h), hsound⟩
  | some change =>
    obtain ⟨v, staged⟩ := change
    have hattempt : s.attempt a = (s.facing a.fault a.now).commit v staged := by
      rw [attempt, perform_eq, guarded, hspoiled, hcatalog, hchange]
      rfl
    rw [hattempt]
    refine .inr ⟨?_, commit_ne_overflow _ v staged, ?_⟩
    · -- With a change to make, there is a number left.
      rintro ⟨hcreates, hexhausted⟩
      cases hcall : a.call with
      | create definition =>
        rw [hcall, Catalog.change?_create_eq_none_iff.2 hexhausted] at hchange
        cases hchange
      | all | get | save | delete =>
        rw [hcall] at hcreates
        cases hcreates
    · rcases commit_cases v staged hspoiled with ⟨-, e, hcommit⟩ | ⟨t, hcommit, ht⟩
      · rw [hcommit]
        exact hsound
      · rw [hcommit]
        exact ht.sound

/-- An attempt leaves a `spoiled` store exactly if the store was spoiled, or the attempt is to create on an
`Exhausted` catalog. -/
theorem spoiled_attempt_iff (s : Shelf) (a : Attempt) : (s.attempt a).2.spoiled = true ↔
    s.spoiled = true ∨ a.call.creates = true ∧ s.catalog.Exhausted := by
  cases hspoiled : s.spoiled with
  | true => simp [attempt_of_spoiled hspoiled, facing, hspoiled]
  | false =>
    rcases breaksOff_or hspoiled a with ⟨hcreates, hexhausted, hattempt⟩ | ⟨hnot, -, hsound⟩
    · simp [hattempt, hcreates, hexhausted]
    · simp [hsound, hnot]

/-- An attempt breaks off with `.overflow` exactly if it is to create on an exhausted catalog, and the store is not
spoiled. -/
theorem attempt_eq_overflow_iff (s : Shelf) (a : Attempt) : (s.attempt a).1 = .error .overflow ↔
    s.spoiled = false ∧ a.call.creates = true ∧ s.catalog.Exhausted := by
  cases hspoiled : s.spoiled with
  | true => simp [attempt_of_spoiled hspoiled]
  | false =>
    rcases breaksOff_or hspoiled a with ⟨hcreates, hexhausted, hattempt⟩ | ⟨hnot, hreply, -⟩
    · simp [hattempt, hcreates, hexhausted]
    · simp [hreply, hnot]

/-! ### Any attempts -/

/-- A store is `spoiled` after attempts exactly if it was before, or one of them was to create on an `Exhausted`
catalog. -/
theorem spoiled_after_iff (s : Shelf) (as : List Attempt) : (s.after as).spoiled = true ↔ s.spoiled = true ∨
    ∃ before a later, as = before ++ a :: later ∧ a.call.creates = true ∧ (s.after before).catalog.Exhausted := by
  induction as generalizing s with
  | nil => simp [after]
  | cons b as ih =>
    have hafter (xs : List Attempt) : s.after (b :: xs) = (s.attempt b).2.after xs := rfl
    rw [hafter, ih, spoiled_attempt_iff]
    constructor
    · rintro ((hspoiled | ⟨hcreates, hexhausted⟩) | ⟨before, a, later, rfl, hcreates, hexhausted⟩)
      · exact .inl hspoiled
      · -- The shelf is spoiled by the first attempt.
        exact .inr ⟨[], b, as, rfl, hcreates, hexhausted⟩
      · exact .inr ⟨b :: before, a, later, rfl, hcreates, hexhausted⟩
    · rintro (hspoiled | ⟨before, a, later, has, hcreates, hexhausted⟩)
      · exact .inl (.inl hspoiled)
      · -- It is the first of the attempts, or one of the others.
        cases before with
        | nil =>
          obtain ⟨rfl, rfl⟩ := List.cons.inj has
          exact .inl (.inr ⟨hcreates, hexhausted⟩)
        | cons c before =>
          obtain ⟨rfl, rfl⟩ := List.cons.inj has
          exact .inr ⟨before, a, later, rfl, hcreates, hexhausted⟩

/-- A `spoiled` store refuses all further attempts, stays as it is, and writes nothing. -/
theorem spoiled_refuses (hspoiled : s.spoiled = true) (as : List Attempt) :
    s.replies as = List.replicate as.length (.error (.failed spoiledError)) ∧ s.Unchanged (s.after as) := by
  induction as generalizing s with
  | nil => exact ⟨rfl, rfl, rfl, rfl⟩
  | cons a as ih =>
    have hattempt := attempt_of_spoiled hspoiled a
    have hfacing : (s.attempt a).2.spoiled = true := by
      rw [hattempt]
      exact hspoiled
    obtain ⟨hreplies, hun⟩ := ih hfacing
    have hafter : s.after (a :: as) = (s.attempt a).2.after as := rfl
    rw [hattempt] at hreplies hun hafter
    constructor
    · rw [replies, hattempt, hreplies]
      rfl
    · rw [hafter]
      exact ⟨hun.path, hun.catalog, hun.content⟩

/-- **Exhaustion.** Let all ids of `es` be below `Text.maxInt64`. Then `es` make a catalog `c`, and so do the same
expressions in a file. Take any store `s` of `c` that is not spoiled, with a file or without, and let `t` be the
store after any attempts, which may meet a disk that cannot be written.
* `t` is spoiled exactly if one of them was to create when the catalog was `Exhausted`.
* If `t` is not spoiled, a further attempt spoils it exactly if it is to create and `t.catalog` is `Exhausted`. This
  attempt, and no other, breaks off with `.overflow`; the catalog and the content of the file stay as they are.
* If `t` is spoiled, every call fails because the lock is poisoned, the catalog stays, and nothing is written, even
  to a `disk` that someone else has changed. -/
theorem exhaustion_spoils (es : List Expression) (hbelow : ∀ e ∈ es, e.id.value < Text.maxInt64) :
    ∃ c, ofExpressions es = .ok { catalog := c } ∧
      (∀ path disk, disk.expressions = .ok es →
        (openAt path disk).1 = .ok { catalog := c, path := some path, disk := disk }) ∧
      ∀ (s : Shelf) (as : List Attempt), s.catalog = c → s.spoiled = false →
        let t := s.after as
        (t.spoiled = true ↔ ∃ before a later, as = before ++ a :: later ∧ a.call.creates = true ∧
          (s.after before).catalog.Exhausted) ∧
        (∀ a, t.spoiled = false →
          ((t.attempt a).2.spoiled = true ↔ a.call.creates = true ∧ t.catalog.Exhausted) ∧
          ((t.attempt a).1 = .error .overflow ↔ (t.attempt a).2.spoiled = true) ∧
          ((t.attempt a).2.spoiled = true → (t.attempt a).2.catalog = t.catalog ∧
            (t.attempt a).2.disk.content = t.disk.content)) ∧
        (t.spoiled = true → ∀ (disk : Disk) (bs : List Attempt), let u : Shelf := { t with disk := disk }
          u.replies bs = List.replicate bs.length (.error (.failed (.storage "repository lock poisoned"))) ∧
          (u.after bs).catalog = t.catalog ∧ (u.after bs).disk.content = disk.content) := by
  obtain ⟨c, hc⟩ := Catalog.exists_ofExpressions? hbelow
  refine ⟨c, by rw [ofExpressions, hc], fun path disk hread => ?_, ?_⟩
  · exact openAt_eq_ok_iff.2 ⟨es, c, hread, hc, rfl⟩
  rintro s as rfl hsound t
  refine ⟨?_, fun a ht => ?_, fun ht disk bs => ?_⟩
  · have hafter := spoiled_after_iff s as
    rw [hsound] at hafter
    simpa using hafter
  · have hspoils := spoiled_attempt_iff t a
    have hbreaks := attempt_eq_overflow_iff t a
    rw [ht] at hspoils hbreaks
    -- An overflow and a spoiled shelf are the same event, met by a `create` at the last number.
    have hsame : (t.attempt a).1 = .error .overflow ↔ (t.attempt a).2.spoiled = true := by
      rw [hspoils, hbreaks]
      simp
    refine ⟨by simpa using hspoils, hsame, fun hspoiled => ?_⟩
    have hun := unchanged_of_error (hsame.2 hspoiled)
    exact ⟨hun.catalog, hun.content⟩
  · have hu : ({ t with disk := disk } : Shelf).spoiled = true := ht
    obtain ⟨hreplies, hun⟩ := spoiled_refuses hu bs
    exact ⟨hreplies, hun.catalog, hun.content⟩

/-- One expression, with the id `Text.maxInt64 - 2`. -/
def highSeed : List Expression := [⟨⟨9223372036854775805, by decide, by decide⟩, "x"⟩]

/-- The store of `highSeed`. -/
def highStore : Shelf where
  catalog := ⟨highSeed, ⟨9223372036854775806, by decide, by decide⟩, List.pairwise_singleton _ _⟩

/-- Two attempts to create, with one to delete in between that fails. -/
def highCalls : List Attempt :=
  [⟨.create "p", none, .epoch⟩, ⟨.delete .one, none, .epoch⟩, ⟨.create "q", none, .epoch⟩]

/-- On `highStore`, the second attempt to create is the one too many. After it nothing can be stored or found any
more. -/
theorem exhaustion_spoils_highSeed : (∀ e ∈ highSeed, e.id.value < Text.maxInt64) ∧
    ofExpressions highSeed = .ok highStore ∧ (highStore.after highCalls).spoiled = true ∧
      ({ highStore.after highCalls with disk := {} } : Shelf).replies
          [⟨.all, none, .epoch⟩, ⟨.save .one "r", none, .epoch⟩] =
        List.replicate 2 (.error (.failed (.storage "repository lock poisoned"))) := by
  have hbelow : ∀ e ∈ highSeed, e.id.value < Text.maxInt64 := by decide
  have hstore : ofExpressions highSeed = .ok highStore := rfl
  obtain ⟨c, hc, -, hall⟩ := exhaustion_spoils highSeed hbelow
  have hcatalog : highStore.catalog = c := congrArg catalog (Except.ok.inj (hstore.symm.trans hc))
  obtain ⟨hspoiled, -, hrefuses⟩ := hall highStore highCalls hcatalog rfl
  -- The next number after the first two calls is the greatest one.
  have hlast : (highStore.after (highCalls.take 2)).catalog.Exhausted := rfl
  have ht := hspoiled.2 ⟨highCalls.take 2, ⟨.create "q", none, .epoch⟩, [], rfl, rfl, hlast⟩
  exact ⟨hbelow, hstore, ht, (hrefuses ht {} _).1⟩

end Shelf

end BoolCalc.Store
