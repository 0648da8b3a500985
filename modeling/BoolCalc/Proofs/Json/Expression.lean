import BoolCalc.Expr
import BoolCalc.Proofs.Json.Nesting

namespace BoolCalc.Expr

/-!
# Expressions as JSON

* `plain_toJson` : the JSON value of an expression has strings and truth values only;
* `nesting_toJson_not`, `nesting_toJson_and`, `nesting_toJson_or` : a negation is nested one deeper than its operand, a
  conjunction or disjunction two deeper than the deeper one;
* `ofJsonAt?_toJson` : the value stands for the expression, at any depth that leaves room for it;
* `ofJson?_of_spells` : so does every spelling of the value;
* `ofJson?_written` : **round trip**, with and without white space, for every expression.
-/

variable {e l r : Expr} {text : String} {depth : Nat}

theorem plain_toJson (e : Expr) : Json.Plain e.toJson := by
  have hobject {k : String} {v : Json} (hv : Json.Plain v) : Json.Plain (.object [(k, v)]) :=
    .object (List.forall_mem_singleton.2 hv)
  have hpair {v w : Json} (hv : Json.Plain v) (hw : Json.Plain w) : Json.Plain (.array [v, w]) :=
    .array (List.forall_mem_cons.2 ⟨hv, List.forall_mem_singleton.2 hw⟩)
  induction e with
  | «variable» name => exact hobject (.string name)
  | literal value => exact hobject (.bool value)
  | not e ih => exact hobject ih
  | and l r ihl ihr => exact hobject (hpair ihl ihr)
  | or l r ihl ihr => exact hobject (hpair ihl ihr)

/-! ### Nesting -/

theorem nesting_toJson_not (e : Expr) : (Expr.not e).toJson.nesting = 1 + e.toJson.nesting := by
  simp only [toJson, Json.nesting, Json.membersNesting, Nat.max_zero]

theorem nesting_toJson_and (l r : Expr) :
    (Expr.and l r).toJson.nesting = 2 + max l.toJson.nesting r.toJson.nesting := by
  simp only [toJson, Json.nesting, Json.membersNesting, Json.itemsNesting]
  omega

theorem nesting_toJson_or (l r : Expr) :
    (Expr.or l r).toJson.nesting = 2 + max l.toJson.nesting r.toJson.nesting :=
  nesting_toJson_and l r

theorem nesting_toJson_pos (e : Expr) : 0 < e.toJson.nesting := by
  cases e <;> exact Nat.add_pos_left Nat.one_pos _

/-! ### Reading -/

/-- Two expressions `l` and `r` that are read two brackets deeper make a third one if there is room for both. -/
theorem ofJsonAt?_pair {make : Expr → Expr → Expr} {m n : Nat} (hm : 0 < m) :
    (if depth + 1 < jsonDepth then
      match if depth + 2 + m ≤ jsonDepth then some l else none, if depth + 2 + n ≤ jsonDepth then some r else none with
      | some l, some r => some (make l r)
      | _, _ => none
    else none) = if depth + (2 + max m n) ≤ jsonDepth then some (make l r) else none := by
  by_cases hl : depth + 2 + m ≤ jsonDepth
  · have hroom : depth + 1 < jsonDepth := by omega
    rw [if_pos hl, if_pos hroom]
    by_cases hr : depth + 2 + n ≤ jsonDepth
    · have hboth : depth + (2 + max m n) ≤ jsonDepth := by omega
      rw [if_pos hr, if_pos hboth]
    · have hboth : ¬depth + (2 + max m n) ≤ jsonDepth := by omega
      rw [if_neg hr, if_neg hboth]
  · have hboth : ¬depth + (2 + max m n) ≤ jsonDepth := by omega
    rw [if_neg hl, if_neg hboth, ite_self]

/-- `ofJsonAt?` reads the JSON value of `e` wherever the brackets that it needs may be open. -/
theorem ofJsonAt?_toJson (e : Expr) (depth : Nat) :
    ofJsonAt? depth e.toJson = if depth + e.toJson.nesting ≤ jsonDepth then some e else none := by
  induction e generalizing depth with
  | «variable» name => rfl
  | literal value => rfl
  | not e ih =>
    have hpos := e.nesting_toJson_pos
    rw [nesting_toJson_not, toJson, ofJsonAt?, ih, ← Nat.add_assoc]
    by_cases h : depth + 1 + e.toJson.nesting ≤ jsonDepth
    · have hroom : depth < jsonDepth := by omega
      rw [if_pos h, if_pos hroom, if_pos h]
      rfl
    · rw [if_neg h, if_neg h]
      exact ite_self none
  | and l r ihl ihr =>
    rw [nesting_toJson_and, toJson, ofJsonAt?, ihl, ihr]
    exact ofJsonAt?_pair l.nesting_toJson_pos
  | or l r ihl ihr =>
    rw [nesting_toJson_or, toJson, ofJsonAt?, ihl, ihr]
    exact ofJsonAt?_pair l.nesting_toJson_pos

/-- A text that spells the JSON value of `e` is read as `e`, if its brackets and braces keep to `jsonDepth`, and as
no expression otherwise. -/
theorem ofJson?_of_spells (h : Json.Spells (.value e.toJson) text.toList []) :
    (Json.parse? text).bind ofJson? = if Json.textNesting text ≤ jsonDepth then some e else none := by
  rw [Json.parse?_of_spells h, Option.bind_some, ofJson?, ofJsonAt?_toJson, Nat.zero_add,
    Json.textNesting_of_spells h]

/-- **Round trip.** Both texts that are written for `e`, `Json.compact` and `Json.pretty`, are read back as `e` if
their brackets and braces are nested at most `jsonDepth` deep, and as no expression otherwise. -/
theorem ofJson?_written (e : Expr) :
    (Json.parse? e.toJson.compact).bind ofJson? =
        (if Json.textNesting e.toJson.compact ≤ jsonDepth then some e else none) ∧
      (Json.parse? e.toJson.pretty).bind ofJson? =
        (if Json.textNesting e.toJson.pretty ≤ jsonDepth then some e else none) := by
  have hend : Json.EndsNumber [] := nofun
  constructor
  · refine ofJson?_of_spells ?_
    rw [Json.compact, String.toList_ofList]
    exact Json.spells_compactOnto e.plain_toJson [] hend
  · refine ofJson?_of_spells ?_
    rw [Json.pretty, String.toList_ofList]
    exact Json.spells_prettyOnto e.plain_toJson 0 [] hend

example : (Expr.and (.variable "a") (.not (.literal true))).toJson.compact =
    "\x7b\"and\":[\x7b\"variable\":\"a\"\x7d,\x7b\"not\":\x7b\"literal\":true\x7d\x7d]\x7d" := by
  decide

end BoolCalc.Expr
