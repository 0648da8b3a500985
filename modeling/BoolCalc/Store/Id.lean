import BoolCalc.Text.Integer

namespace BoolCalc.Store

/-!
# Numbers of stored expressions

* `Id` : an integer of 64 bits;
* `Id.ofInt?`, `Id.parse?` : an integer and a text as an `Id`, where they are one;
* `Id.next?` : the number one above; `next?_eq_none_iff` says that only the greatest number has none.
-/

/-- The id of a stored expression, a signed integer of 64 bits. -/
structure Id where
  value : Int
  lower : Text.minInt64 ≤ value
  upper : value ≤ Text.maxInt64
  deriving DecidableEq

namespace Id

/-- Ids with the same `value` are equal. -/
@[ext] theorem ext {a b : Id} (h : a.value = b.value) : a = b := by
  cases a; cases b; simp_all

instance : LT Id := ⟨fun a b => a.value < b.value⟩

instance : LE Id := ⟨fun a b => a.value ≤ b.value⟩

instance (a b : Id) : Decidable (a < b) := inferInstanceAs (Decidable (a.value < b.value))

instance (a b : Id) : Decidable (a ≤ b) := inferInstanceAs (Decidable (a.value ≤ b.value))

theorem lt_iff {a b : Id} : a < b ↔ a.value < b.value := .rfl

theorem le_iff {a b : Id} : a ≤ b ↔ a.value ≤ b.value := .rfl

/-- The id `n`, if it fits into 64 bits. -/
def ofInt? (n : Int) : Option Id :=
  if h : Text.minInt64 ≤ n ∧ n ≤ Text.maxInt64 then some ⟨n, h.1, h.2⟩ else none

theorem ofInt?_value (a : Id) : ofInt? a.value = some a := by
  simp [ofInt?, a.lower, a.upper]

theorem ofInt?_eq_none_iff {n : Int} :
    ofInt? n = none ↔ ¬(Text.minInt64 ≤ n ∧ n ≤ Text.maxInt64) := by
  unfold ofInt?
  split <;> simp_all

def zero : Id := ⟨0, by decide, by decide⟩

def one : Id := ⟨1, by decide, by decide⟩

instance : Inhabited Id := ⟨zero⟩

/-- The id that `s` spells: an optional sign and digits, and nothing else. -/
def parse? (s : String) : Option Id := (Text.parseInt64? s).bind ofInt?

/-- The id one above `a`, if there is one. -/
def next? (a : Id) : Option Id := ofInt? (a.value + 1)

/-- Only `Text.maxInt64` has no id above it. -/
theorem next?_eq_none_iff {a : Id} : a.next? = none ↔ a.value = Text.maxInt64 := by
  have := a.lower
  have := a.upper
  rw [next?, ofInt?_eq_none_iff]
  constructor <;> intro h <;> omega

/-- The greater of `a` and `b`. -/
def max (a b : Id) : Id := if a < b then b else a

end Id

end BoolCalc.Store
