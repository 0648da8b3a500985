namespace BoolCalc

/-!
# Bindings of names to truth values

* `Bindings` : finitely many names, each with one value;
* `Bindings.get?`, `Bindings.contains`, `Bindings.insert`, `Bindings.ofPairs` : look-up and change;
* `Bindings.overriddenBy` : two sets of bindings, where the second wins;
* `Bindings.sorted` : the pairs in the order of their names.

The view of a set of bindings is `Bindings.get?`; `get?_insert` says what an insertion does to it.
-/

/-- Names with their values. The proof `distinct` says that no name is bound twice. -/
structure Bindings where
  pairs : List (String × Bool)
  distinct : (pairs.map Prod.fst).Nodup

namespace Bindings

def empty : Bindings := ⟨[], by simp⟩

instance : Inhabited Bindings := ⟨empty⟩

/-- The value that `b` gives to `name`, if it is bound. -/
def get? (b : Bindings) (name : String) : Option Bool := b.pairs.lookup name

/-- True if `b` gives `name` a value. -/
def contains (b : Bindings) (name : String) : Bool := (b.get? name).isSome

/-- The number of bound names; by `b.distinct` this is the number of pairs. -/
def size (b : Bindings) : Nat := b.pairs.length

def isEmpty (b : Bindings) : Bool := b.size == 0

/-- The bindings `b` with `name` bound to `value`, whatever it was bound to before. -/
def insert (b : Bindings) (name : String) (value : Bool) : Bindings where
  pairs := (name, value) :: b.pairs.filter (·.1 != name)
  distinct := by
    refine List.nodup_cons.2 ⟨?_, ?_⟩
    · simp
    · exact (List.filter_sublist.map Prod.fst).nodup b.distinct

/-- The bindings of `pairs`; a later pair wins over an earlier one. -/
def ofPairs (pairs : List (String × Bool)) : Bindings :=
  pairs.foldl (fun b (name, value) => b.insert name value) empty

/-- The bindings of `b` and `c`, where a name bound in both has its value in `c`. -/
def overriddenBy (b c : Bindings) : Bindings :=
  c.pairs.foldl (fun acc (name, value) => acc.insert name value) b

/-- The `pairs` in the order of the code points of their names. -/
def sorted (b : Bindings) : List (String × Bool) := b.pairs.mergeSort fun p q => p.1 ≤ q.1

/-- True if `b` and `c` bind the same names to the same values. -/
def equals (b c : Bindings) : Bool :=
  b.size == c.size && b.pairs.all fun (name, value) => c.get? name == some value

/-- A new binding of `name` replaces the old one and leaves those of other names as they are. -/
theorem get?_insert (b : Bindings) (name : String) (value : Bool) (n : String) :
    (b.insert name value).get? n = if n = name then some value else b.get? n := by
  by_cases h : n = name
  · simp [insert, get?, h]
  · have hn : (n == name) = false := by simp [h]
    have hlookup : ∀ ps : List (String × Bool),
        (ps.filter (·.1 != name)).lookup n = ps.lookup n := by
      intro ps
      induction ps with
      | nil => rfl
      | cons p ps ih =>
        obtain ⟨m, v⟩ := p
        by_cases hm : m = name
        · simp [hm, ih, List.lookup_cons, hn]
        · simp [hm, List.lookup_cons, ih]
    simp [insert, get?, h, List.lookup_cons, hn, hlookup]

end Bindings

end BoolCalc
