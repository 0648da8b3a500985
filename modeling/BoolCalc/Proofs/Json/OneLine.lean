import BoolCalc.Proofs.Json.RoundTrip
import BoolCalc.Proofs.Text.OneLine

namespace BoolCalc.Json

open Text

/-!
# Values on one line

* `spells_compactOnto` : the text of a plain value without white space is a spelling of it;
* `parse?_compact` : **round trip**, out of this text the reader makes the value;
* `oneLine_compact` : **escapes**, this text has no line break.
-/

variable {v : Json} {rest : List Char}

/-! ### Spellings -/

/-- Wherever `v` stands, its text without white space is a spelling of it. -/
def IsSpelledCompactly (v : Json) : Prop :=
  ∀ rest : List Char, EndsNumber rest → Spells (.value v) (compactOnto v rest) rest

/-- A number ends before the next item or `]`. -/
theorem endsNumber_compactItemsOnto (vs : List Json) : EndsNumber (compactItemsOnto vs (']' :: rest)) := by
  cases vs <;> exact endsNumber_cons rfl _

/-- `compactMembersOnto` begins with no character that could go on with a number. -/
theorem endsNumber_compactMembersOnto (ms : List (String × Json)) :
    EndsNumber (compactMembersOnto ms ('\x7d' :: rest)) := by
  cases ms <;> exact endsNumber_cons rfl _

/-- The items `v :: vs` of an array, without white space. -/
theorem spells_compactItems {vs : List Json} (hv : IsSpelledCompactly v) (hvs : ∀ w ∈ vs, IsSpelledCompactly w) :
    Spells (.items (v :: vs)) (compactOnto v (compactItemsOnto vs (']' :: rest))) rest := by
  induction vs generalizing v with
  | nil =>
    refine .lastItem (hv _ (endsNumber_compactItemsOnto [])) ?_
    rw [compactItemsOnto, skip_cons_of_not_space rfl]
  | cons w vs ih =>
    refine .item (hv _ (endsNumber_compactItemsOnto _)) ?_
      (ih (hvs w List.mem_cons_self) fun x hx => hvs x (List.mem_cons_of_mem w hx))
    rw [compactItemsOnto, skip_cons_of_not_space rfl]

/-- The members of an object, the first of which is `(k, v)`, without white space. -/
theorem spells_compactMembers {k : String} {ms : List (String × Json)} (hv : IsSpelledCompactly v)
    (hms : ∀ m ∈ ms, IsSpelledCompactly m.2) :
    Spells (.members ((k, v) :: ms))
      (quoteOnto k (':' :: compactOnto v (compactMembersOnto ms ('\x7d' :: rest)))) rest := by
  induction ms generalizing k v with
  | nil =>
    refine .lastMember (skip_quoteOnto _ _) (skip_cons_of_not_space rfl _)
      (hv _ (endsNumber_compactMembersOnto [])) ?_
    rw [compactMembersOnto, skip_cons_of_not_space rfl]
  | cons m ms ih =>
    refine .member (skip_quoteOnto _ _) (skip_cons_of_not_space rfl _)
      (hv _ (endsNumber_compactMembersOnto _)) ?_
      (ih (hms m List.mem_cons_self) fun x hx => hms x (List.mem_cons_of_mem m hx))
    rw [compactMembersOnto, skip_cons_of_not_space rfl]

/-- `compactOnto` of a plain value spells it. -/
theorem spells_compactOnto (hv : Plain v) : IsSpelledCompactly v := by
  induction hv with
  | null =>
    intro rest _
    exact .null
  | bool b =>
    intro rest _
    cases b
    · exact .false
    · exact .true
  | int n =>
    intro rest hrest
    exact .int n hrest
  | string s =>
    intro rest _
    exact .string s
  | @array vs _ ih =>
    intro rest _
    cases vs with
    | nil => exact .emptyArray (skip_cons_of_not_space rfl rest)
    | cons v vs =>
      exact .array (spells_compactItems (ih v List.mem_cons_self) fun w hw => ih w (List.mem_cons_of_mem v hw))
  | @object ms _ ih =>
    intro rest _
    cases ms with
    | nil => exact .emptyObject (skip_cons_of_not_space rfl rest)
    | cons m ms =>
      exact .object (spells_compactMembers (ih m List.mem_cons_self) fun w hw => ih w (List.mem_cons_of_mem m hw))

/-- **Round trip.** Out of `v.compact`, for a plain value `v`, the reader makes `v`. -/
theorem parse?_compact (hv : Plain v) : parse? v.compact = some v := by
  refine parse?_of_spells ?_
  rw [compact, String.toList_ofList]
  exact spells_compactOnto hv [] nofun

/-! ### Line breaks -/

theorem unbroken_escapeChar (c : Char) : Unbroken (escapeChar c) := by
  have hdigit : ∀ d < 16, Nat.digitChar d ≠ '\n' ∧ Nat.digitChar d ≠ '\r' := by decide
  have hpair : Unbroken (hexPair c.toNat) :=
    unbroken_cons.2 ⟨hdigit _ (Nat.mod_lt _ (by decide)),
      unbroken_cons.2 ⟨hdigit _ (Nat.mod_lt _ (by decide)), List.forall_mem_nil _⟩⟩
  -- Both line breaks have escapes of their own, so no other character is one.
  unfold escapeChar
  split
  · decide
  split
  · decide
  split
  · decide
  split
  · decide
  split
  · decide
  next hfeed =>
  split
  · decide
  split
  · decide
  next hreturn =>
  split
  · exact unbroken_append.2 ⟨by decide, hpair⟩
  · exact unbroken_cons.2 ⟨⟨hfeed, hreturn⟩, List.forall_mem_nil _⟩

/-- A string in front of characters without line break has none, since `escapeChar` leaves none. -/
theorem unbroken_quoteOnto (s : String) (h : Unbroken rest) : Unbroken (quoteOnto s rest) := by
  have hescaped : Unbroken (s.toList.flatMap escapeChar) := by
    intro c hc
    obtain ⟨d, -, hc⟩ := List.mem_flatMap.1 hc
    exact unbroken_escapeChar d c hc
  exact unbroken_cons.2 ⟨by decide, unbroken_append.2 ⟨hescaped, unbroken_cons.2 ⟨by decide, h⟩⟩⟩

/-- In front of characters without a line break, the text of `v` has none. -/
def IsUnbroken (v : Json) : Prop := ∀ rest : List Char, Unbroken rest → Unbroken (compactOnto v rest)

theorem unbroken_compactItemsOnto {vs : List Json} (hvs : ∀ v ∈ vs, IsUnbroken v) (h : Unbroken rest) :
    Unbroken (compactItemsOnto vs rest) := by
  induction vs with
  | nil => exact h
  | cons v vs ih =>
    obtain ⟨hv, hvs⟩ := List.forall_mem_cons.1 hvs
    exact unbroken_cons.2 ⟨by decide, hv _ (ih hvs)⟩

theorem unbroken_compactMembersOnto {ms : List (String × Json)} (hms : ∀ m ∈ ms, IsUnbroken m.2)
    (h : Unbroken rest) : Unbroken (compactMembersOnto ms rest) := by
  induction ms with
  | nil => exact h
  | cons m ms ih =>
    obtain ⟨hm, hms⟩ := List.forall_mem_cons.1 hms
    exact unbroken_cons.2 ⟨by decide, unbroken_quoteOnto _ (unbroken_cons.2 ⟨by decide, hm _ (ih hms)⟩)⟩

/-- `compactOnto` of a plain value has no line break. -/
theorem unbroken_compactOnto (hv : Plain v) : IsUnbroken v := by
  induction hv with
  | null =>
    intro rest h
    exact unbroken_append.2 ⟨by decide, h⟩
  | bool b =>
    intro rest h
    cases b <;> exact unbroken_append.2 ⟨by decide, h⟩
  | int n =>
    intro rest h
    exact unbroken_append.2 ⟨oneLine_int n, h⟩
  -- The one case with an idea: a line break in a string is written by its number.
  | string s =>
    intro rest h
    exact unbroken_quoteOnto s h
  | @array vs _ ih =>
    intro rest h
    cases vs with
    | nil => exact unbroken_cons.2 ⟨by decide, unbroken_cons.2 ⟨by decide, h⟩⟩
    | cons v vs =>
      obtain ⟨hv, hvs⟩ := List.forall_mem_cons.1 ih
      exact unbroken_cons.2 ⟨by decide, hv _ (unbroken_compactItemsOnto hvs (unbroken_cons.2 ⟨by decide, h⟩))⟩
  | @object ms _ ih =>
    intro rest h
    cases ms with
    | nil => exact unbroken_cons.2 ⟨by decide, unbroken_cons.2 ⟨by decide, h⟩⟩
    | cons m ms =>
      obtain ⟨hm, hms⟩ := List.forall_mem_cons.1 ih
      refine unbroken_cons.2 ⟨by decide, unbroken_quoteOnto _ (unbroken_cons.2 ⟨by decide, hm _ ?_⟩)⟩
      exact unbroken_compactMembersOnto hms (unbroken_cons.2 ⟨by decide, h⟩)

/-- **Escapes.** The text `v.compact` of a plain value has no line break, whatever its strings have. -/
theorem oneLine_compact (hv : Plain v) : OneLine v.compact :=
  oneLine_ofList.2 (unbroken_compactOnto hv [] (List.forall_mem_nil _))

end BoolCalc.Json
