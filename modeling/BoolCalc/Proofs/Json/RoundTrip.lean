import BoolCalc.Proofs.Json.Spelling

namespace BoolCalc.Json

/-!
# Reading what was written

* `Plain` : values whose numbers are integers and whose strings are sequences of characters;
* `spells_prettyOnto` : the indented text of a plain value is a spelling of it;
* `parse?_pretty` : **round trip**, out of the indented text the reader makes the value.
-/

/-- The numbers in the value are integers, and its strings are sequences of characters, unlike `Json.broken`. -/
inductive Plain : Json → Prop where
  | null : Plain .null
  | bool (b : Bool) : Plain (.bool b)
  | int (n : Int) : Plain (.int n)
  | string (s : String) : Plain (.string s)
  | array {vs : List Json} : (∀ v ∈ vs, Plain v) → Plain (.array vs)
  | object {ms : List (String × Json)} : (∀ m ∈ ms, Plain m.2) → Plain (.object ms)

variable {v : Json} {cs rest : List Char} {level : Nat}

/-! ### Lines -/

/-- The white space of `newLineOnto` may stand in front of a value. -/
theorem Spells.newLine (h : Spells (.value v) cs rest) (level : Nat) :
    Spells (.value v) (newLineOnto level cs) rest := by
  have hspaces (n : Nat) : Spells (.value v) (List.replicate n ' ' ++ cs) rest := by
    induction n with
    | zero => exact h
    | succ n ih => exact ih.space rfl
  exact (hspaces (2 * level)).space rfl

theorem skip_newLineOnto (level : Nat) (cs : List Char) : skip (newLineOnto level cs) = skip cs := by
  have hspaces (n : Nat) : skip (List.replicate n ' ' ++ cs) = skip cs := by
    induction n with
    | zero => rfl
    | succ n ih => exact (skip_cons_of_space rfl _).trans ih
  exact (skip_cons_of_space rfl _).trans (hspaces (2 * level))

theorem skip_quoteOnto (s : String) (rest : List Char) : skip (quoteOnto s rest) = quoteOnto s rest :=
  skip_cons_of_not_space rfl _

/-- A number ends before a character `c` that belongs to no number. -/
theorem endsNumber_cons {c : Char}
    (hc : (Text.isAsciiDigit c || c == '.' || c == 'e' || c == 'E') = false) (cs : List Char) :
    EndsNumber (c :: cs) := by
  intro d hd
  obtain rfl := Option.some.inj hd
  simpa [Bool.or_eq_false_iff, and_assoc] using hc

/-- A number ends before the next item or `]` on a line of its own. -/
theorem endsNumber_prettyItemsOnto (vs : List Json) (outer : Nat) :
    EndsNumber (prettyItemsOnto level vs (newLineOnto outer cs)) := by
  cases vs <;> exact endsNumber_cons rfl _

/-- `prettyMembersOnto` begins with no character that could go on with a number. -/
theorem endsNumber_prettyMembersOnto (ms : List (String × Json)) (outer : Nat) :
    EndsNumber (prettyMembersOnto level ms (newLineOnto outer cs)) := by
  cases ms <;> exact endsNumber_cons rfl _

/-! ### Values -/

/-- Wherever `v` stands, its indented text is a spelling of it. -/
def IsSpelledPretty (v : Json) : Prop :=
  ∀ (level : Nat) (rest : List Char), EndsNumber rest →
    Spells (.value v) (prettyOnto level v rest) rest

/-- The items `v :: vs` of an array, each on a line of its own. -/
theorem spells_items {vs : List Json} (hv : IsSpelledPretty v) (hvs : ∀ w ∈ vs, IsSpelledPretty w)
    (outer : Nat) : Spells (.items (v :: vs)) (newLineOnto level (prettyOnto level v
      (prettyItemsOnto level vs (newLineOnto outer (']' :: rest))))) rest := by
  induction vs generalizing v with
  | nil =>
    refine .lastItem ((hv level _ (endsNumber_prettyItemsOnto [] outer)).newLine level) ?_
    rw [prettyItemsOnto, skip_newLineOnto]
    rfl
  | cons w vs ih =>
    refine .item ((hv level _ (endsNumber_prettyItemsOnto _ outer)).newLine level) ?_
      (ih (hvs w List.mem_cons_self) fun x hx => hvs x (List.mem_cons_of_mem w hx))
    rw [prettyItemsOnto, skip_cons_of_not_space rfl]

/-- The members of an object, the first of which is `(k, v)`, each on a line of its own. -/
theorem spells_members {k : String} {ms : List (String × Json)} (hv : IsSpelledPretty v)
    (hms : ∀ m ∈ ms, IsSpelledPretty m.2) (outer : Nat) :
    Spells (.members ((k, v) :: ms)) (newLineOnto level (quoteOnto k (':' :: ' ' :: prettyOnto level v
      (prettyMembersOnto level ms (newLineOnto outer ('\x7d' :: rest)))))) rest := by
  induction ms generalizing k v with
  | nil =>
    refine .lastMember ((skip_newLineOnto _ _).trans (skip_quoteOnto _ _))
      (skip_cons_of_not_space rfl _)
      ((hv level _ (endsNumber_prettyMembersOnto [] outer)).space rfl) ?_
    rw [prettyMembersOnto, skip_newLineOnto]
    rfl
  | cons m ms ih =>
    refine .member ((skip_newLineOnto _ _).trans (skip_quoteOnto _ _))
      (skip_cons_of_not_space rfl _)
      ((hv level _ (endsNumber_prettyMembersOnto _ outer)).space rfl) ?_
      (ih (hms m List.mem_cons_self) fun x hx => hms x (List.mem_cons_of_mem m hx))
    rw [prettyMembersOnto, skip_cons_of_not_space rfl]

/-- `prettyOnto` of a plain value spells it. -/
theorem spells_prettyOnto (hv : Plain v) : IsSpelledPretty v := by
  induction hv with
  | null =>
    intro level rest _
    exact .null
  | bool b =>
    intro level rest _
    cases b
    · exact .false
    · exact .true
  -- A number has to end before `rest`, which is why `IsSpelledPretty` asks for it.
  | int n =>
    intro level rest hrest
    exact .int n hrest
  | string s =>
    intro level rest _
    exact .string s
  -- Brackets end what is inside them, whatever `rest` is.
  | @array vs _ ih =>
    intro level rest _
    cases vs with
    | nil => exact .emptyArray (skip_cons_of_not_space rfl rest)
    | cons v vs =>
      exact .array (spells_items (ih v List.mem_cons_self)
        (fun w hw => ih w (List.mem_cons_of_mem v hw)) level)
  | @object ms _ ih =>
    intro level rest _
    cases ms with
    | nil => exact .emptyObject (skip_cons_of_not_space rfl rest)
    | cons m ms =>
      exact .object (spells_members (ih m List.mem_cons_self)
        (fun w hw => ih w (List.mem_cons_of_mem m hw)) level)

/-- **Round trip.** Out of `v.pretty`, for a plain value `v`, the reader makes `v`. -/
theorem parse?_pretty (hv : Plain v) : parse? v.pretty = some v := by
  refine parse?_of_spells ?_
  rw [pretty, String.toList_ofList]
  exact spells_prettyOnto hv 0 [] nofun

end BoolCalc.Json
