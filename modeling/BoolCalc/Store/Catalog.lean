import BoolCalc.Store.Expression

namespace BoolCalc.Store

/-!
# Expressions by their numbers

* `Catalog` : expressions in the order of their numbers, and the number for the next one;
* `Catalog.ofExpressions?` : the catalog of a list, where the last of several expressions of one number
  stays;
* `Catalog.get?`, `Catalog.create?`, `Catalog.replace?`, `Catalog.erase?` : look-up and change.

The expressions of a catalog have increasing numbers, which is part of the type; `pairwise_place` says why
putting one more in its place keeps it so.
-/

/-- The expressions `xs` with `e` in its place; one with `e.id` makes room. -/
def place (e : Expression) : List Expression → List Expression
  | [] => [e]
  | x :: xs =>
    if e.id < x.id then e :: x :: xs
    else if x.id < e.id then x :: place e xs
    else e :: xs

theorem mem_place {e y : Expression} {xs : List Expression} (h : y ∈ place e xs) : y = e ∨ y ∈ xs := by
  induction xs with
  | nil => simp_all [place]
  | cons x xs ih =>
    simp only [place] at h
    split at h
    · simpa using h
    · split at h
      · rcases List.mem_cons.1 h with h | h
        · exact .inr (h ▸ List.mem_cons_self)
        · exact (ih h).imp_right (List.mem_cons_of_mem x)
      · rcases List.mem_cons.1 h with h | h
        · exact .inl h
        · exact .inr (List.mem_cons_of_mem x h)

/-- The ids increase: `x.id < y.id` wherever `x` stands before `y`. -/
def Increasing (xs : List Expression) : Prop := xs.Pairwise fun x y => x.id < y.id

theorem increasing_nil : Increasing [] := .nil

/-- Increasing ids increase with `e` in its place. -/
theorem pairwise_place {e : Expression} {xs : List Expression} (h : Increasing xs) :
    Increasing (place e xs) := by
  induction xs with
  | nil => simp [place, Increasing]
  | cons x xs ih =>
    have hx := List.pairwise_cons.1 h
    simp only [place]
    split
    · next lt =>
      refine List.pairwise_cons.2 ⟨fun y hy => ?_, h⟩
      rcases List.mem_cons.1 hy with rfl | hy
      · exact lt
      · exact Int.lt_trans lt (hx.1 y hy)
    · split
      · next lt =>
        refine List.pairwise_cons.2 ⟨fun y hy => ?_, ih hx.2⟩
        rcases mem_place hy with rfl | hy
        · exact lt
        · exact hx.1 y hy
      · -- Neither id is below the other, so `e` takes the place of `x`, with the same id.
        next h₁ h₂ =>
        have he : x.id.value = e.id.value := by
          simp only [Id.lt_iff] at h₁ h₂; omega
        refine List.pairwise_cons.2 ⟨fun y hy => ?_, hx.2⟩
        have := hx.1 y hy
        simp only [Id.lt_iff] at this ⊢; omega

/-- Expressions with increasing ids, and the id for the next one. The order is part of the catalog, so that no
change can break it. -/
structure Catalog where
  entries : List Expression
  /-- The id for the next expression of `create?`. -/
  next : Id
  increasing : Increasing entries

namespace Catalog

/-- The catalog without any expression; its first one will have the id `1`. -/
def empty : Catalog := ⟨[], .one, increasing_nil⟩

instance : Inhabited Catalog := ⟨empty⟩

/-- The id of a new expression next to the given ones: one above the greatest, and `1` next to none. -/
def nextIdFor? : List Expression → Option Id
  | [] => Id.zero.next?
  | e :: rest => (rest.foldl (fun top x => top.max x.id) e.id).next?

/-- All expressions of `es`, put in their places with `place` from left to right. -/
def placeAll (es : List Expression) : { xs : List Expression // Increasing xs } :=
  es.foldl (fun xs e => ⟨place e xs.1, pairwise_place xs.2⟩) ⟨[], increasing_nil⟩

/-- The catalog of `es`; there is none where `nextIdFor?` finds no id. -/
def ofExpressions? (es : List Expression) : Option Catalog :=
  (nextIdFor? es).map fun next => ⟨(placeAll es).1, next, (placeAll es).2⟩

/-- The expression with the id `id`. -/
def get? (c : Catalog) (id : Id) : Option Expression := c.entries.find? (·.id = id)

/-- The catalog with `e` in its place. -/
def put (c : Catalog) (e : Expression) : Catalog :=
  { c with entries := place e c.entries, increasing := pairwise_place c.increasing }

/-- A new expression with the id `c.next`, and the catalog with it; there is none where `c.next` is the greatest id. -/
def create? (c : Catalog) (definition : String) : Option (Expression × Catalog) :=
  let e : Expression := ⟨c.next, definition⟩
  c.next.next?.map fun next => (e, { c.put e with next := next })

/-- The expression `id` with a new definition, and the catalog with it, if there is such an expression. -/
def replace? (c : Catalog) (id : Id) (definition : String) : Option (Expression × Catalog) :=
  let e : Expression := ⟨id, definition⟩
  (c.get? id).map fun _ => (e, c.put e)

/-- The catalog without the expression `id`, if there is such an expression. -/
def erase? (c : Catalog) (id : Id) : Option Catalog :=
  (c.get? id).map fun _ =>
    { c with
      entries := c.entries.filter (·.id ≠ id),
      increasing := List.Pairwise.filter _ c.increasing }

end Catalog

end BoolCalc.Store
