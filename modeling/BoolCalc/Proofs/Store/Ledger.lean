import BoolCalc.Proofs.Store.History
import Mathlib.Data.Finmap
import Mathlib.Data.Finset.Sort

namespace BoolCalc.Store

/-!
# A store is a finite map with a counter

* `Ledger`, `Ledger.ofSeed`, `Ledger.answer` : definitions by their numbers and a counter, without any
  file; what the five calls mean there;
* `Shelf.Reflects` : the store and the ledger have the same expressions and the same next number;
* `Shelf.Reflects.listing_eq` : the list of all expressions;
* `Shelf.Reflects.attempt` : **simulation**, one attempt and one call of the ledger;
* `Shelf.Reflects.replies_eq` : any number of them;
* `Shelf.replies_ofExpressions` : **refinement**, for every seed and all calls.
-/

/-! ### Numbers in order -/

instance : LinearOrder Id :=
  { LinearOrder.lift' Id.value fun _ _ => Id.ext with
    le := (· ≤ ·)
    lt := (· < ·) }

/-! ### The ledger -/

/-- The specification of a store: a map from ids to definitions, and a counter for the next id. -/
structure Ledger where
  content : Finmap fun _ : Id => String
  counter : Int

namespace Ledger

/-- The ledger of `es`. Of several expressions with one id the last stays, and the counter is `firstNumber es`. -/
def ofSeed (es : List Expression) : Ledger where
  content := es.foldl (fun m e => m.insert e.id e.definition) ∅
  counter := firstNumber es

/-- All expressions of `l.content`, in the order of their ids. -/
def listing (l : Ledger) : List Expression :=
  (l.content.keys.sort (· ≤ ·)).filterMap fun id => (l.content.lookup id).map (⟨id, ·⟩)

/-- What a `StoreCall` means. -/
def answer (l : Ledger) : StoreCall → Reply Answer × Ledger
  | .all => (.ok (.all l.listing), l)
  | .get id =>
    match l.content.lookup id with
    | some definition => (.ok (.one ⟨id, definition⟩), l)
    | none => (.error (.failed (.notFound id)), l)
  | .create definition =>
    match Id.ofInt? l.counter with
    | some id =>
      (.ok (.one ⟨id, definition⟩), { content := l.content.insert id definition, counter := l.counter + 1 })
    | none => (.error .overflow, l)
  | .save id definition =>
    if id ∈ l.content then
      (.ok (.one ⟨id, definition⟩), { l with content := l.content.insert id definition })
    else (.error (.failed (.notFound id)), l)
  | .delete id =>
    if id ∈ l.content then (.ok .done, { l with content := l.content.erase id })
    else (.error (.failed (.notFound id)), l)

/-- The answers to the calls, one after the other. -/
def answers (l : Ledger) : List StoreCall → List (Reply Answer)
  | [] => []
  | call :: calls => (l.answer call).1 :: (l.answer call).2.answers calls

variable {l : Ledger} {e : Expression}

/-! ### What is in a ledger -/

theorem mem_listing : e ∈ l.listing ↔ l.content.lookup e.id = some e.definition := by
  simp only [listing, List.mem_filterMap, Finset.mem_sort, Finmap.mem_keys, Option.map_eq_some_iff]
  constructor
  · rintro ⟨id, -, definition, hlookup, rfl⟩
    exact hlookup
  · intro hlookup
    exact ⟨e.id, Finmap.mem_iff.2 ⟨_, hlookup⟩, e.definition, hlookup, rfl⟩

theorem increasing_listing (l : Ledger) : Increasing l.listing := by
  refine List.Pairwise.filterMap _ (fun id id' hlt e he e' he' => ?_) (Finset.sortedLT_sort _).pairwise
  obtain ⟨_, -, rfl⟩ := Option.map_eq_some_iff.1 he
  obtain ⟨_, -, rfl⟩ := Option.map_eq_some_iff.1 he'
  exact hlt

/-- Every list among `answers` is in the order of the ids. -/
theorem increasing_of_mem_answers {calls : List StoreCall} {xs : List Expression}
    (h : .ok (.all xs) ∈ l.answers calls) : Increasing xs := by
  induction calls generalizing l with
  | nil => cases h
  | cons call calls ih =>
    rcases List.mem_cons.1 h with hhead | htail
    · cases call with
      | all =>
        obtain rfl : xs = l.listing := by simpa [answer] using hhead
        exact l.increasing_listing
      | get id => cases hlookup : l.content.lookup id <;> simp [answer, hlookup] at hhead
      | create definition => cases hid : Id.ofInt? l.counter <;> simp [answer, hid] at hhead
      | save id definition => by_cases hmem : id ∈ l.content <;> simp [answer, hmem] at hhead
      | delete id => by_cases hmem : id ∈ l.content <;> simp [answer, hmem] at hhead
    · exact ih htail

end Ledger

/-! ### A finite map and a list of expressions -/

/-- `m` and `xs` have the same expressions. -/
def SameContent (m : Finmap fun _ : Id => String) (xs : List Expression) : Prop :=
  ∀ e : Expression, m.lookup e.id = some e.definition ↔ e ∈ xs

namespace SameContent

variable {m : Finmap fun _ : Id => String} {xs : List Expression} {id : Id} {definition : String}

theorem empty : SameContent ∅ [] := by simp [SameContent]

theorem mem_iff (h : SameContent m xs) : id ∈ m ↔ ∃ x ∈ xs, x.id = id := by
  rw [Finmap.mem_iff]
  constructor
  · rintro ⟨definition, hlookup⟩
    exact ⟨⟨id, definition⟩, (h _).1 hlookup, rfl⟩
  · rintro ⟨x, hx, rfl⟩
    exact ⟨x.definition, (h x).2 hx⟩

theorem insert (h : SameContent m xs) (hxs : Increasing xs) :
    SameContent (m.insert id definition) (place ⟨id, definition⟩ xs) := by
  intro e
  rw [mem_place_iff hxs]
  by_cases hid : e.id = id
  · subst hid
    have heq : definition = e.definition ↔ e = ⟨e.id, definition⟩ := by
      rw [Expression.mk.injEq]
      simp [eq_comm]
    simp [Finmap.lookup_insert, heq]
  · have hne : e ≠ ⟨id, definition⟩ := fun heq => hid (congrArg Expression.id heq)
    simp [Finmap.lookup_insert_of_ne _ hid, hid, hne, h e]

theorem erase (h : SameContent m xs) : SameContent (m.erase id) (xs.filter (·.id ≠ id)) := by
  intro e
  by_cases hid : e.id = id
  · subst hid
    simp [Finmap.lookup_erase]
  · simp [Finmap.lookup_erase_ne hid, hid, h e]

/-- `placeAll es` has the content of `ofSeed es`. -/
theorem placeAll (es : List Expression) :
    SameContent (es.foldl (fun m e => m.insert e.id e.definition) ∅) (Catalog.placeAll es).1 := by
  have hfold : ∀ (es xs : List Expression) (m : Finmap fun _ : Id => String), Increasing xs →
      SameContent m xs → SameContent (es.foldl (fun m e => m.insert e.id e.definition) m)
        (es.foldl (fun xs e => place e xs) xs) := by
    intro es
    induction es with
    | nil => exact fun _ _ _ h => h
    | cons e es ih => exact fun xs m hxs h => ih _ _ (pairwise_place hxs) (h.insert hxs)
  rw [Catalog.placeAll_val]
  exact hfold es [] ∅ increasing_nil empty

end SameContent

namespace Shelf

/-- `s` and `l` have the same expressions and the same next number, and `s` is not spoiled. -/
structure Reflects (s : Shelf) (l : Ledger) : Prop where
  sound : s.spoiled = false
  content : SameContent l.content s.catalog.entries
  counter : l.counter = s.catalog.next.value

namespace Reflects

variable {s : Shelf} {l : Ledger} {a : Attempt} {id : Id}

theorem listing_eq (h : s.Reflects l) : l.listing = s.catalog.entries := by
  -- Two increasing lists with the same members are the same.
  have hirrefl : Std.Irrefl fun x y : Expression => x.id < y.id := ⟨fun x => lt_irrefl x.id⟩
  have hantisymm : Std.Antisymm fun x y : Expression => x.id < y.id :=
    ⟨fun _ _ hxy hyx => absurd hyx (lt_asymm hxy)⟩
  exact List.Pairwise.eq_of_mem_iff l.increasing_listing s.catalog.increasing fun e =>
    Ledger.mem_listing.trans (h.content e)

theorem get?_eq (h : s.Reflects l) : s.catalog.get? id = (l.content.lookup id).map (⟨id, ·⟩) := by
  cases hlookup : l.content.lookup id with
  | some definition => exact Catalog.get?_eq_some_iff.2 ⟨(h.content ⟨id, definition⟩).1 hlookup, rfl⟩
  | none =>
    refine Catalog.get?_eq_none_iff.2 fun e he hid => ?_
    have := (h.content e).2 he
    rw [hid, hlookup] at this
    cases this

/-- The attempt `a` on `s` has the answer of `l`, and leaves a store that reflects the ledger behind it. -/
structure Simulated (s : Shelf) (l : Ledger) (a : Attempt) : Prop where
  reply : (s.attempt a).1 = (l.answer a.call).1
  reflects : (s.attempt a).2.Reflects (l.answer a.call).2

/-- An attempt that finds nothing to change is simulated by an answer that leaves `l` as it is. -/
theorem simulated_of_look (h : s.Reflects l) (hlook : s.catalog.change? a.call = none)
    (hcreates : a.call.creates = false) (hanswer : l.answer a.call = (s.catalog.look a.call, l)) :
    Simulated s l a := by
  have hattempt := attempt_of_look h.sound hlook hcreates
  constructor
  · rw [hattempt, hanswer]
  · rw [hattempt, hanswer]
    exact ⟨h.sound, h.content, h.counter⟩

/-- An attempt that changes the catalog is simulated by an answer that changes `l` alike. -/
theorem simulated_of_change {v : Answer} {staged : Catalog} {l' : Ledger} (h : s.Reflects l)
    (hquiet : a.fault = none) (hchange : s.catalog.change? a.call = some (v, staged))
    (hanswer : l.answer a.call = (.ok v, l'))
    (hcontent : SameContent l'.content staged.entries) (hcounter : l'.counter = staged.next.value) :
    Simulated s l a := by
  obtain ⟨t, hattempt, rfl, hsound⟩ := attempt_of_change h.sound hquiet hchange
  constructor
  · rw [hattempt, hanswer]
  · rw [hattempt, hanswer]
    exact ⟨hsound, hcontent, hcounter⟩

/-- **Simulation.** On a store that `Reflects l`, an attempt that can write, and finds a number if it is to create,
has the answer of `l`. -/
theorem attempt (h : s.Reflects l) (hquiet : a.fault = none)
    (hroom : a.call.creates → l.counter < Text.maxInt64) : Simulated s l a := by
  obtain ⟨call, fault, now⟩ := a
  cases call with
  -- Without a change on either side, the two answers have to be the same.
  | all =>
    refine h.simulated_of_look rfl rfl ?_
    rw [Ledger.answer, h.listing_eq]
    rfl
  | get id =>
    refine h.simulated_of_look rfl rfl ?_
    simp only [Ledger.answer, Catalog.look, h.get?_eq]
    cases l.content.lookup id <;> rfl
  | create definition =>
    -- By `hroom` there is an id after the next one, so that the store does not break off.
    have hnext : s.catalog.next.next? ≠ none := by
      rw [Ne, Id.next?_eq_none_iff, ← h.counter]
      exact (hroom rfl).ne
    obtain ⟨next, hnext⟩ := Option.ne_none_iff_exists'.1 hnext
    have hchange : s.catalog.change? (.create definition) =
        some (.one ⟨s.catalog.next, definition⟩,
          { s.catalog.put ⟨s.catalog.next, definition⟩ with next := next }) := by
      rw [Catalog.change?, Catalog.create?, hnext]
      rfl
    have hanswer : l.answer (.create definition) =
        (.ok (.one ⟨s.catalog.next, definition⟩),
          { content := l.content.insert s.catalog.next definition, counter := l.counter + 1 }) := by
      rw [Ledger.answer, h.counter, Id.ofInt?_value]
    -- Both insert the definition under the same id, and both counters move on by one.
    refine h.simulated_of_change hquiet hchange hanswer (h.content.insert s.catalog.increasing) ?_
    rw [h.counter, Id.next?_eq_some_iff.1 hnext]
  | save id definition =>
    -- The map and the list have the same ids, so both find the expression or neither does.
    by_cases hmem : id ∈ l.content
    · have hreplace : s.catalog.replace? id definition =
          some (⟨id, definition⟩, s.catalog.put ⟨id, definition⟩) :=
        Catalog.replace?_eq_some_iff.2 ⟨h.content.mem_iff.1 hmem, rfl, rfl⟩
      have hchange : s.catalog.change? (.save id definition) =
          some (.one ⟨id, definition⟩, s.catalog.put ⟨id, definition⟩) := by
        rw [Catalog.change?, hreplace]
        rfl
      exact h.simulated_of_change hquiet hchange (if_pos hmem) (h.content.insert s.catalog.increasing)
        h.counter
    · have hnone : s.catalog.get? id = none := by rw [h.get?_eq, Finmap.lookup_eq_none.2 hmem]; rfl
      refine h.simulated_of_look ?_ rfl (if_neg hmem)
      rw [Catalog.change?, Catalog.replace?, hnone]
      rfl
  | delete id =>
    by_cases hmem : id ∈ l.content
    · obtain ⟨x, hx⟩ := h.content.mem_iff.1 hmem
      have hchange : s.catalog.change? (.delete id) = some (.done, { s.catalog with
          entries := s.catalog.entries.filter (·.id ≠ id),
          increasing := List.Pairwise.filter _ s.catalog.increasing }) := by
        rw [Catalog.change?, Catalog.erase?, Catalog.get?_eq_some_iff.2 hx]
        rfl
      exact h.simulated_of_change hquiet hchange (if_pos hmem) h.content.erase h.counter
    · have hnone : s.catalog.get? id = none := by rw [h.get?_eq, Finmap.lookup_eq_none.2 hmem]; rfl
      refine h.simulated_of_look ?_ rfl (if_neg hmem)
      rw [Catalog.change?, Catalog.erase?, hnone]
      rfl

/-- Every attempt to create gives out `s.catalog.next`, and no other attempt gives out an id. -/
theorem newId?_attempt (h : s.Reflects l) (hquiet : a.fault = none)
    (hroom : a.call.creates → l.counter < Text.maxInt64) :
    a.call.newId? (s.attempt a).1 = (if a.call.creates then some s.catalog.next else none) := by
  rw [(h.attempt hquiet hroom).reply]
  cases hcall : a.call with
  | create definition =>
    rw [Ledger.answer, h.counter, Id.ofInt?_value]
    rfl
  | _ => rfl

/-- `counter` moves on by one with every attempt to create. -/
theorem counter_attempt (h : s.Reflects l) (hquiet : a.fault = none)
    (hroom : a.call.creates → l.counter < Text.maxInt64) :
    (l.answer a.call).2.counter = l.counter + if a.call.creates then 1 else 0 := by
  rw [(h.attempt hquiet hroom).reflects.counter, h.counter]
  have hnew := h.newId?_attempt hquiet hroom
  rcases attempt_next s a with ⟨hnone, hnext⟩ | ⟨hsome, hnext⟩
  · rw [hnone] at hnew
    have hcreates : a.call.creates = false := by by_contra hne; simp [hne] at hnew
    simp [hcreates, hnext]
  · rw [hsome] at hnew
    have hcreates : a.call.creates = true := by by_contra hne; simp [hne] at hnew
    simp [hcreates, hnext]

/-- **All attempts** have the answers of the ledger, and the new ids are `l.counter`, `l.counter + 1` and so on. -/
theorem replies_eq {as : List Attempt} (h : s.Reflects l) (hquiet : ∀ a ∈ as, a.fault = none)
    (hroom : l.counter + as.countP (·.call.creates) ≤ Text.maxInt64) :
    s.replies as = l.answers (as.map (·.call)) ∧
      (s.created as).map Id.value =
        (List.range (as.countP (·.call.creates))).map fun k : Nat => l.counter + k := by
  -- The counter and the number of new expressions still to come have the same sum all along.
  induction as generalizing s l with
  | nil => exact ⟨rfl, rfl⟩
  | cons a as ih =>
    have hquiet_a := hquiet a List.mem_cons_self
    have hcount : (as.countP (·.call.creates) : Int) + (if a.call.creates then 1 else 0) =
        (a :: as).countP (·.call.creates) := by
      rw [List.countP_cons]
      split <;> simp
    have hroom_a : a.call.creates → l.counter < Text.maxInt64 := fun hcreates => by
      rw [if_pos hcreates] at hcount
      omega
    have hcounter := h.counter_attempt hquiet_a hroom_a
    obtain ⟨hreplies, hcreated⟩ := ih (h.attempt hquiet_a hroom_a).reflects
      (fun b hb => hquiet b (List.mem_cons_of_mem a hb)) (by omega)
    constructor
    · rw [Shelf.replies, (h.attempt hquiet_a hroom_a).reply, hreplies]
      rfl
    · rw [Shelf.created, h.newId?_attempt hquiet_a hroom_a, List.map_append, hcreated, hcounter,
        List.countP_cons]
      by_cases hcreates : a.call.creates
      · have hshift (k : Nat) : l.counter + 1 + k = l.counter + (k + 1) := by omega
        simp [hcreates, List.range_succ_eq_map, h.counter.symm, hshift]
      · simp [hcreates]

end Reflects

/-- A store of `es` reflects `ofSeed es`. -/
theorem reflects_ofSeed {es : List Expression} {s : Shelf} (h : Catalog.ofExpressions? es = some s.catalog)
    (hsound : s.spoiled = false) : s.Reflects (Ledger.ofSeed es) := by
  obtain ⟨hentries, hnext⟩ := Catalog.ofExpressions?_eq_some_iff.1 h
  refine ⟨hsound, ?_, hnext.symm⟩
  rw [hentries]
  exact SameContent.placeAll es

/-- A new id is none of those that were in the store `earlier`. -/
theorem ne_of_newId? {s : Shelf} {a : Attempt} {id : Id} {e : Expression} {before earlier : List Attempt}
    (hfresh : s.catalog.Fresh) (hid : a.call.newId? ((s.after before).attempt a).1 = some id)
    (hearlier : earlier <+: before) (he : e ∈ (s.after earlier).catalog.entries) : e.id ≠ id := by
  obtain ⟨later, rfl⟩ := hearlier
  have hlt := Id.lt_iff.1 (fresh_after hfresh earlier e he)
  have hle := next_le_after (s.after earlier) later
  rw [after_append] at hid
  rcases attempt_next ((s.after earlier).after later) a with ⟨hnone, -⟩ | ⟨hsome, -⟩
  · rw [hnone] at hid
    cases hid
  · rw [hsome] at hid
    obtain rfl := Option.some.inj hid
    exact Id.ne_of_lt (Int.lt_of_lt_of_le hlt hle)

/-- **Refinement.** Take any expressions `es`, and any attempts `as` that can write and do not run out of numbers,
on a store of `es` with a file or without.
* The replies are the answers of `Ledger.ofSeed es`.
* All lists are in the order of the ids.
* The new ids are `firstNumber es` and the numbers behind it, without gaps.
* No new id was in the store at any earlier time. -/
theorem replies_ofExpressions (es : List Expression) (as : List Attempt) (hquiet : ∀ a ∈ as, a.fault = none)
    (hroom : firstNumber es + as.countP (·.call.creates) ≤ Text.maxInt64) :
    ∃ c, ofExpressions es = .ok { catalog := c } ∧ ∀ s : Shelf, s.catalog = c → s.spoiled = false →
      s.replies as = (Ledger.ofSeed es).answers (as.map (·.call)) ∧
      (∀ xs, .ok (.all xs) ∈ s.replies as → Increasing xs) ∧
      (s.created as).map Id.value =
        (List.range (as.countP (·.call.creates))).map (fun k : Nat => firstNumber es + k) ∧
      ∀ before a after id, as = before ++ a :: after →
        a.call.newId? ((s.after before).attempt a).1 = some id →
        ∀ earlier, earlier <+: before → ∀ e ∈ (s.after earlier).catalog.entries, e.id ≠ id := by
  have hbelow : ∀ e ∈ es, e.id.value < Text.maxInt64 := fun e he => by
    have := lt_firstNumber he
    omega
  obtain ⟨c, hc⟩ := Catalog.exists_ofExpressions? hbelow
  refine ⟨c, by rw [ofExpressions, hc], ?_⟩
  rintro s rfl hsound
  obtain ⟨hreplies, hcreated⟩ := (reflects_ofSeed hc hsound).replies_eq hquiet hroom
  refine ⟨hreplies, fun xs hxs => ?_, hcreated, fun before a after id _ hid earlier hearlier e he => ?_⟩
  · rw [hreplies] at hxs
    exact Ledger.increasing_of_mem_answers hxs
  · exact ne_of_newId? (Catalog.fresh_ofExpressions? hc) hid hearlier he

/-- Expressions with the ids 1, -5 and 1, in this order. -/
def unorderedSeed : List Expression := [⟨.one, "x"⟩, ⟨⟨-5, by decide, by decide⟩, "y"⟩, ⟨.one, "z"⟩]

/-- Attempts about ids that are there, and about some that are not. -/
def mixedCalls : List Attempt :=
  [⟨.create "p", none, .epoch⟩, ⟨.delete .one, none, .epoch⟩, ⟨.save .one "q", none, .epoch⟩,
    ⟨.all, none, .epoch⟩, ⟨.delete ⟨2, by decide, by decide⟩, none, .epoch⟩, ⟨.create "r", none, .epoch⟩,
    ⟨.get .zero, none, .epoch⟩]

/-- `mixedCalls` have the answers of the ledger, and the new ids are 2 and 3. -/
theorem replies_unorderedSeed :
    (∀ a ∈ mixedCalls, a.fault = none) ∧
      firstNumber unorderedSeed + mixedCalls.countP (·.call.creates) ≤ Text.maxInt64 ∧
      ∃ s, ofExpressions unorderedSeed = .ok s ∧
        s.replies mixedCalls = (Ledger.ofSeed unorderedSeed).answers (mixedCalls.map (·.call)) ∧
        (s.created mixedCalls).map Id.value = [2, 3] := by
  have hquiet : ∀ a ∈ mixedCalls, a.fault = none := by decide
  have hroom : firstNumber unorderedSeed + mixedCalls.countP (·.call.creates) ≤ Text.maxInt64 := by decide
  obtain ⟨c, hc, hall⟩ := replies_ofExpressions unorderedSeed mixedCalls hquiet hroom
  obtain ⟨hreplies, -, hcreated, -⟩ := hall { catalog := c } rfl rfl
  exact ⟨hquiet, hroom, _, hc, hreplies, hcreated.trans (by decide)⟩

end Shelf

end BoolCalc.Store
