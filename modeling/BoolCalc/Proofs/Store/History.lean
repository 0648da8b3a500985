import BoolCalc.Proofs.Store.Contents
import BoolCalc.Store.Scripted
import BoolCalc.Store.Shelf

namespace BoolCalc.Store

/-!
# Calls of a store, one after the other

* `Answer`, `StoreCall.perform` : any of the five calls, with answers of one type;
* `Catalog.look`, `Catalog.change?` : what a call does where nothing fails outside;
* `Attempt`, `Shelf.attempt`, `Shelf.after` : a call and what the store finds outside meanwhile; the store
  after several of them;
* `Shelf.perform_eq` : every call looks, or puts a changed catalog in place;
* `Shelf.attempt_cases` : **inversion**, what an attempt leaves behind;
* `Shelf.entries_attempt` : what it does to the expressions;
* `Shelf.attempt_next` : the number it gives out, and the next number afterwards;
* `Catalog.Fresh`, `Shelf.fresh_after` : the next number is above all numbers of the catalog, and stays so.
-/

/-! ### Any call -/

/-- What a `StoreCall` answers. -/
inductive Answer where
  | all (es : List Expression)
  | one (e : Expression)
  | done
  deriving DecidableEq

/-- A reply in the common type `Answer`. -/
def Reply.under (f : α → Answer) : Reply α × ρ → Reply Answer × ρ := Prod.map (Except.map f) id

@[simp] theorem Reply.under_ok (f : α → Answer) (v : α) (r : ρ) :
    Reply.under f (.ok v, r) = (.ok (f v), r) := rfl

@[simp] theorem Reply.under_error (f : α → Answer) (e : Stop StoreError) (r : ρ) :
    Reply.under f (.error e, r) = (.error e, r) := rfl

/-- The call, made of the repository `r`. -/
def StoreCall.perform [Repository ρ] (call : StoreCall) (r : ρ) : Reply Answer × ρ :=
  match call with
  | .all => Reply.under .all (Repository.all r)
  | .get id => Reply.under .one (Repository.get id r)
  | .create definition => Reply.under .one (Repository.create definition r)
  | .save id definition => Reply.under .one (Repository.save id definition r)
  | .delete id => Reply.under (fun _ => .done) (Repository.delete id r)

def StoreCall.creates : StoreCall → Bool
  | .create _ => true
  | _ => false

/-- The id of the new expression, if the call was `.create` and has made one. -/
def StoreCall.newId? : StoreCall → Reply Answer → Option Id
  | .create _, .ok (.one e) => some e.id
  | _, _ => none

/-- The expression that the call has put into the store, if it was `.create` or `.save` and succeeded. -/
def StoreCall.put? : StoreCall → Reply Answer → Option Expression
  | .create definition, .ok (.one e) => some ⟨e.id, definition⟩
  | .save id definition, .ok _ => some ⟨id, definition⟩
  | _, _ => none

/-- What is `put?` into the store has the definition of the call. -/
theorem StoreCall.eq_of_put? {call : StoreCall} {reply : Reply Answer} {e : Expression}
    (h : call.put? reply = some e) : call = .create e.definition ∨ call = .save e.id e.definition := by
  unfold put? at h
  split at h <;> simp_all
  all_goals simp [← h]

/-- A call that has `put?` nothing into the store has made no new expression. -/
theorem StoreCall.newId?_of_put? {call : StoreCall} {reply : Reply Answer}
    (h : call.put? reply = none) : call.newId? reply = none := by
  unfold put? at h
  split at h <;> simp_all [newId?]

namespace Catalog

/-- The answer of a call for which `change?` finds nothing to change. -/
def look (c : Catalog) : StoreCall → Reply Answer
  | .all => .ok (.all c.entries)
  | .get id =>
    match c.get? id with
    | some e => .ok (.one e)
    | none => .error (.failed (.notFound id))
  | .create _ => .error .overflow
  | .save id _ | .delete id => .error (.failed (.notFound id))

/-- The answer of a call that changes the catalog, and the changed catalog; `none` if there is nothing to change. -/
def change? (c : Catalog) : StoreCall → Option (Answer × Catalog)
  | .all | .get _ => none
  | .create definition => (c.create? definition).map fun (e, c) => (.one e, c)
  | .save id definition => (c.replace? id definition).map fun (e, c) => (.one e, c)
  | .delete id => (c.erase? id).map fun c => (.done, c)

/-- The answer `look` puts nothing into the catalog. -/
theorem put?_look (c : Catalog) (call : StoreCall) : call.put? (c.look call) = none := by
  cases call <;> rfl

/-! ### The next number is free -/

/-- `c.next` is above all ids of the catalog. -/
def Fresh (c : Catalog) : Prop := ∀ e ∈ c.entries, e.id < c.next

variable {c c' : Catalog} {es : List Expression} {call : StoreCall} {v : Answer}

theorem fresh_ofExpressions? (h : ofExpressions? es = some c) : c.Fresh := by
  obtain ⟨hentries, hnext⟩ := ofExpressions?_eq_some_iff.1 h
  intro e he
  rw [hentries] at he
  rw [Id.lt_iff, hnext]
  exact lt_firstNumber (mem_of_mem_placeAll he)

/-- What a change does to the ids: a new one is `c.next`, an old one stays or goes. -/
theorem change?_cases (h : c.change? call = some (v, c')) :
    (∃ definition, call = .create definition ∧ v = .one ⟨c.next, definition⟩ ∧
      c'.entries = place ⟨c.next, definition⟩ c.entries ∧ c'.next.value = c.next.value + 1) ∨
    (call.creates = false ∧ c'.next = c.next ∧ ∀ e ∈ c'.entries, ∃ x ∈ c.entries, x.id = e.id) := by
  cases call with
  | all => cases h
  | get id => cases h
  | create definition =>
    obtain ⟨⟨e, c''⟩, hcreate, heq⟩ := Option.map_eq_some_iff.1 h
    obtain ⟨rfl, rfl⟩ := Prod.mk.inj heq
    obtain ⟨rfl, hentries, hnext⟩ := create?_eq_some_iff.1 hcreate
    exact .inl ⟨definition, rfl, rfl, hentries, hnext⟩
  | save id definition =>
    obtain ⟨⟨e, c''⟩, hreplace, heq⟩ := Option.map_eq_some_iff.1 h
    obtain ⟨rfl, rfl⟩ := Prod.mk.inj heq
    obtain ⟨⟨x, hx, hid⟩, rfl, rfl⟩ := replace?_eq_some_iff.1 hreplace
    refine .inr ⟨rfl, rfl, fun y hy => ?_⟩
    -- The expression that is placed has an id that was there before.
    rcases mem_place hy with rfl | hy
    · exact ⟨x, hx, hid⟩
    · exact ⟨y, hy, rfl⟩
  | delete id =>
    obtain ⟨c'', herase, heq⟩ := Option.map_eq_some_iff.1 h
    obtain ⟨rfl, rfl⟩ := Prod.mk.inj heq
    obtain ⟨-, hentries, hnext⟩ := erase?_eq_some_iff.1 herase
    refine .inr ⟨rfl, hnext, fun y hy => ?_⟩
    rw [hentries] at hy
    exact ⟨y, (List.mem_filter.1 hy).1, rfl⟩

/-- What a change does to the expressions: the one that is `put?` is placed, or none is added. -/
theorem entries_of_change? (h : c.change? call = some (v, c')) :
    (∃ e, call.put? (.ok v) = some e ∧ c'.entries = place e c.entries) ∨
    (call.put? (.ok v) = none ∧ ∀ e ∈ c'.entries, e ∈ c.entries) := by
  cases call with
  | all => cases h
  | get id => cases h
  | create definition =>
    obtain ⟨⟨e, c''⟩, hcreate, heq⟩ := Option.map_eq_some_iff.1 h
    obtain ⟨rfl, rfl⟩ := Prod.mk.inj heq
    obtain ⟨rfl, hentries, -⟩ := create?_eq_some_iff.1 hcreate
    exact .inl ⟨_, rfl, hentries⟩
  | save id definition =>
    obtain ⟨⟨e, c''⟩, hreplace, heq⟩ := Option.map_eq_some_iff.1 h
    obtain ⟨rfl, rfl⟩ := Prod.mk.inj heq
    obtain ⟨-, rfl, rfl⟩ := replace?_eq_some_iff.1 hreplace
    exact .inl ⟨_, rfl, rfl⟩
  | delete id =>
    obtain ⟨c'', herase, heq⟩ := Option.map_eq_some_iff.1 h
    obtain ⟨rfl, rfl⟩ := Prod.mk.inj heq
    obtain ⟨-, hentries, -⟩ := erase?_eq_some_iff.1 herase
    refine .inr ⟨rfl, fun e he => ?_⟩
    rw [hentries] at he
    exact (List.mem_filter.1 he).1

/-- **One change** keeps the catalog `Fresh`. -/
theorem Fresh.change? (hc : c.Fresh) (h : c.change? call = some (v, c')) : c'.Fresh := by
  intro e he
  rcases change?_cases h with ⟨definition, -, -, hentries, hnext⟩ | ⟨-, hnext, hold⟩
  · rw [hentries] at he
    rw [Id.lt_iff, hnext]
    rcases mem_place he with rfl | he
    · exact Int.lt_succ _
    · have := hc e he
      rw [Id.lt_iff] at this
      omega
  · obtain ⟨x, hx, hid⟩ := hold e he
    rw [hnext, ← hid]
    exact hc x hx

end Catalog

/-! ### Attempts -/

/-- A `StoreCall`, and what the store finds outside meanwhile. -/
structure Attempt where
  call : StoreCall
  fault : Option String := none
  now : Timestamp := .epoch
  deriving DecidableEq

namespace Shelf

/-- The store with another `fault` and `now` outside. The content of the file stays. -/
def facing (s : Shelf) (fault : Option String) (now : Timestamp) : Shelf :=
  { s with disk := { s.disk with fault := fault, now := now } }

/-- The reply to an attempt, and the store that it leaves. -/
def attempt (s : Shelf) (a : Attempt) : Reply Answer × Shelf := a.call.perform (s.facing a.fault a.now)

/-- The store after the attempts `as`. -/
def after (s : Shelf) (as : List Attempt) : Shelf := as.foldl (fun s a => (s.attempt a).2) s

/-- The replies to the attempts, one after the other. -/
def replies (s : Shelf) : List Attempt → List (Reply Answer)
  | [] => []
  | a :: as => (s.attempt a).1 :: (s.attempt a).2.replies as

/-- The ids of the new expressions that the attempts make (`newId?`). -/
def created (s : Shelf) : List Attempt → List Id
  | [] => []
  | a :: as => (a.call.newId? (s.attempt a).1).toList ++ (s.attempt a).2.created as

variable {s t : Shelf} {a : Attempt} {as : List Attempt}

theorem after_append (s : Shelf) (as bs : List Attempt) : s.after (as ++ bs) = (s.after as).after bs :=
  List.foldl_append

/-! ### What a call does -/

theorem under_guarded (f : α → Answer) (s : Shelf) (call : Reply α × Shelf) :
    Reply.under f (s.guarded call) = s.guarded (Reply.under f call) := by
  rw [guarded, guarded]
  split <;> rfl

theorem under_commit (f : α → Answer) (s : Shelf) (value : α) (staged : Catalog) :
    Reply.under f (s.commit value staged) = s.commit (f value) staged := by
  rw [commit, commit]
  split
  · rfl
  · split <;> rfl

/-- Every call of a store is `guarded`, and then looks, or commits the changed catalog. One to create that finds
nothing to change breaks off. -/
theorem perform_eq (call : StoreCall) (s : Shelf) :
    call.perform s = s.guarded (match s.catalog.change? call with
      | some (v, staged) => s.commit v staged
      | none => (s.catalog.look call, if call.creates then { s with spoiled := true } else s)) := by
  -- The calls differ in the question that they ask the catalog; `guarded` and `commit` do not depend on
  -- the type of the answer.
  cases call with
  | all =>
    have h : StoreCall.perform .all s = Reply.under .all s.list := rfl
    rw [h, list, under_guarded]
    rfl
  | get id =>
    have h : StoreCall.perform (.get id) s = Reply.under .one (s.get id) := rfl
    rw [h, get, under_guarded]
    cases hget : s.catalog.get? id <;>
      simp [Catalog.change?, Catalog.look, StoreCall.creates, hget]
  | create definition =>
    have h : StoreCall.perform (.create definition) s = Reply.under .one (s.create definition) := rfl
    rw [h, create, under_guarded]
    cases hcreate : s.catalog.create? definition <;>
      simp [Catalog.change?, Catalog.look, StoreCall.creates, hcreate, under_commit]
  | save id definition =>
    have h : StoreCall.perform (.save id definition) s = Reply.under .one (s.save id definition) := rfl
    rw [h, save, under_guarded]
    cases hreplace : s.catalog.replace? id definition <;>
      simp [Catalog.change?, Catalog.look, StoreCall.creates, hreplace, under_commit]
  | delete id =>
    have h : StoreCall.perform (.delete id) s = Reply.under (fun _ => .done) (s.delete id) := rfl
    rw [h, delete, under_guarded]
    cases herase : s.catalog.erase? id <;>
      simp [Catalog.change?, Catalog.look, StoreCall.creates, herase, under_commit]

/-- `t` is `s`, but for what is outside beside the content of the file. -/
structure Unchanged (s t : Shelf) : Prop where
  path : t.path = s.path
  catalog : t.catalog = s.catalog
  content : t.disk.content = s.disk.content

/-- `t` is `s` with the catalog `staged`, which is in the file if there is one. -/
structure Changed (s : Shelf) (staged : Catalog) (now : Timestamp) (t : Shelf) : Prop where
  path : t.path = s.path
  catalog : t.catalog = staged
  content : t.path.isSome → t.disk.content = .text (fileText staged now)
  sound : t.spoiled = false

/-- `commit` puts the catalog in place, or fails on a disk that cannot be written and changes nothing. -/
theorem commit_cases (value : α) (staged : Catalog) (hsound : s.spoiled = false) :
    (s.disk.fault ≠ none ∧ ∃ e, s.commit value staged = (.error e, s)) ∨
    ∃ t, s.commit value staged = (.ok value, t) ∧ s.Changed staged s.disk.now t := by
  cases hpath : s.path with
  | none =>
    refine .inr ⟨{ s with catalog := staged }, by rw [commit, hpath], rfl, rfl, ?_, hsound⟩
    simp [hpath]
  | some path =>
    cases hfault : s.disk.fault with
    | some reason =>
      refine .inl ⟨nofun, .failed (.storage s!"writing {path}: {reason}"), ?_⟩
      simp only [commit, hpath, Disk.write, hfault]
    | none =>
      let disk := { s.disk with content := .text (fileText staged s.disk.now) }
      refine .inr ⟨{ s with catalog := staged, disk := disk }, ?_, rfl, rfl, fun _ => rfl, hsound⟩
      simp only [commit, hpath, Disk.write, hfault, disk]

/-- **Inversion.** An attempt leaves the store `Unchanged` and puts nothing into it, or it succeeds and leaves the
store `Changed` to the catalog of `change?`. -/
theorem attempt_cases (s : Shelf) (a : Attempt) :
    (s.Unchanged (s.attempt a).2 ∧ a.call.put? (s.attempt a).1 = none) ∨
    ∃ v staged, s.catalog.change? a.call = some (v, staged) ∧ (s.attempt a).1 = .ok v ∧
      s.Changed staged a.now (s.attempt a).2 := by
  have hfailed : ∀ e, a.call.put? (.error e) = none := fun e => by cases a.call <;> rfl
  have hcatalog : (s.facing a.fault a.now).catalog = s.catalog := rfl
  rw [attempt, perform_eq, guarded, hcatalog]
  split
  · -- After a call that broke off the store is not even looked at.
    exact .inl ⟨⟨rfl, rfl, rfl⟩, hfailed _⟩
  · next hspoiled =>
    cases hchange : s.catalog.change? a.call with
    | none =>
      -- A call that breaks off changes nothing but the mark that it did.
      refine .inl ⟨?_, Catalog.put?_look _ _⟩
      dsimp only
      split <;> exact ⟨rfl, rfl, rfl⟩
    | some change =>
      obtain ⟨v, staged⟩ := change
      dsimp only
      rcases commit_cases v staged (Bool.eq_false_iff.2 hspoiled) with
        ⟨-, e, hcommit⟩ | ⟨t, hcommit, ht⟩
      · rw [hcommit]
        exact .inl ⟨⟨rfl, rfl, rfl⟩, hfailed e⟩
      · rw [hcommit]
        exact .inr ⟨v, staged, rfl, rfl, ht.path, ht.catalog, ht.content, ht.sound⟩

/-- An attempt that finds nothing to change answers `look`. -/
theorem attempt_of_look (hsound : s.spoiled = false) (hlook : s.catalog.change? a.call = none)
    (hcreates : a.call.creates = false) :
    s.attempt a = (s.catalog.look a.call, s.facing a.fault a.now) := by
  have hcatalog : (s.facing a.fault a.now).catalog = s.catalog := rfl
  have hspoiled : (s.facing a.fault a.now).spoiled = false := hsound
  simp [attempt, perform_eq, guarded, hspoiled, hcatalog, hlook, hcreates]

/-- On a store that can write, an attempt for which `change?` has a catalog puts it in place. -/
theorem attempt_of_change {v : Answer} {staged : Catalog} (hsound : s.spoiled = false)
    (hquiet : a.fault = none) (hchange : s.catalog.change? a.call = some (v, staged)) :
    ∃ t, s.attempt a = (.ok v, t) ∧ t.catalog = staged ∧ t.spoiled = false := by
  have hcatalog : (s.facing a.fault a.now).catalog = s.catalog := rfl
  have hspoiled : (s.facing a.fault a.now).spoiled = false := hsound
  rw [attempt, perform_eq, guarded, hspoiled, hcatalog, hchange]
  rcases commit_cases v staged hspoiled with ⟨hfault, -⟩ | ⟨t, hcommit, ht⟩
  · exact absurd hquiet hfault
  · exact ⟨t, hcommit, ht.catalog, ht.sound⟩

/-- An attempt gives out no id and leaves the next one, or gives out `s.catalog.next` and moves on by one. -/
theorem attempt_next (s : Shelf) (a : Attempt) :
    (a.call.newId? (s.attempt a).1 = none ∧ (s.attempt a).2.catalog.next = s.catalog.next) ∨
    (a.call.newId? (s.attempt a).1 = some s.catalog.next ∧
      (s.attempt a).2.catalog.next.value = s.catalog.next.value + 1) := by
  rcases attempt_cases s a with ⟨hun, hnone⟩ | ⟨v, staged, hchange, hv, hch⟩
  · exact .inl ⟨StoreCall.newId?_of_put? hnone, congrArg Catalog.next hun.catalog⟩
  · obtain ⟨-, rfl, -, -⟩ := hch
    rcases Catalog.change?_cases hchange with ⟨definition, hcall, rfl, -, hnext⟩ | ⟨hcreates, hnext, -⟩
    · exact .inr ⟨by rw [hcall, hv]; rfl, hnext⟩
    · refine .inl ⟨?_, hnext⟩
      cases hcall : a.call <;> simp_all [StoreCall.newId?, StoreCall.creates]

/-- **One attempt** keeps the catalog `Fresh`. -/
theorem fresh_attempt (h : s.catalog.Fresh) (a : Attempt) : (s.attempt a).2.catalog.Fresh := by
  rcases attempt_cases s a with ⟨hun, -⟩ | ⟨v, staged, hchange, -, hch⟩
  · rwa [hun.catalog]
  · rw [hch.catalog]
    exact h.change? hchange

/-- `next` does not go back. -/
theorem next_le_after (s : Shelf) (as : List Attempt) :
    s.catalog.next.value ≤ (s.after as).catalog.next.value := by
  induction as generalizing s with
  | nil => exact Int.le_refl _
  | cons a as ih =>
    refine Int.le_trans ?_ (ih (s.attempt a).2)
    rcases attempt_next s a with ⟨-, hnext⟩ | ⟨-, hnext⟩
    · exact Int.le_of_eq (congrArg Id.value hnext.symm)
    · omega

/-- **Any attempts** keep the catalog `Fresh`. -/
theorem fresh_after (h : s.catalog.Fresh) (as : List Attempt) : (s.after as).catalog.Fresh := by
  induction as generalizing s with
  | nil => exact h
  | cons a as ih => exact ih (fresh_attempt h a)

/-- An attempt that fails leaves the store `Unchanged`. -/
theorem unchanged_of_error {e : Stop StoreError} (h : (s.attempt a).1 = .error e) :
    s.Unchanged (s.attempt a).2 := by
  rcases attempt_cases s a with ⟨hun, -⟩ | ⟨v, -, -, hv, -⟩
  · exact hun
  · rw [h] at hv
    cases hv

/-- What an attempt does to the expressions: the one that is `put?` is placed, or none is added. -/
theorem entries_attempt (s : Shelf) (a : Attempt) :
    (∃ e, a.call.put? (s.attempt a).1 = some e ∧
      (s.attempt a).2.catalog.entries = place e s.catalog.entries) ∨
    (a.call.put? (s.attempt a).1 = none ∧
      ∀ e ∈ (s.attempt a).2.catalog.entries, e ∈ s.catalog.entries) := by
  rcases attempt_cases s a with ⟨hun, hnone⟩ | ⟨v, staged, hchange, hv, hch⟩
  · refine .inr ⟨hnone, fun e he => ?_⟩
    rwa [hun.catalog] at he
  · rw [hv, hch.catalog]
    exact Catalog.entries_of_change? hchange

end Shelf

end BoolCalc.Store
