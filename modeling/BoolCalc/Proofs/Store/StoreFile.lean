import BoolCalc.Proofs.Json.RoundTrip
import BoolCalc.Store.Expression

namespace BoolCalc.Store

/-!
# Reading a store file that was written

* `Expression.ofJson?_toJson`, `Snapshot.ofJson?_toJson` : the JSON values stand for what they were made
  of;
* `Snapshot.parse?_text` : out of the text of a store file comes the snapshot that was written, whatever
  characters are in its definitions.
-/

open Json (Plain)

namespace Expression

/-- `ofJson?` reads an expression back from `toJson`. -/
theorem ofJson?_toJson (e : Expression) : ofJson? e.toJson = some e := by
  have hid : (Json.int e.id.value).int64? = some e.id.value := by
    rw [Json.int, Json.int64?, beq_false_of_ne (Text.toString_ne_minus_zero _),
      if_neg Bool.false_ne_true, Text.parseInt64?_toString, Text.int64?,
      if_pos ⟨e.id.lower, e.id.upper⟩]
  have hfields : e.toJson.fields? ["id", "definition"] =
      some [some (.int e.id.value), some (.string e.definition)] := rfl
  rw [ofJson?, hfields]
  simp [hid, Id.ofInt?_value, Json.string?]

theorem plain_toJson (e : Expression) : e.toJson.Plain := by
  refine .object fun m hm => ?_
  simp only [List.mem_cons, List.not_mem_nil, or_false] at hm
  rcases hm with rfl | rfl
  · exact .int _
  · exact .string _

end Expression

namespace Snapshot

/-- `expressionsOfJson?` reads a list of expressions back. -/
theorem expressionsOfJson?_map (es : List Expression) :
    expressionsOfJson? (.array (es.map Expression.toJson)) = some es := by
  have hitems : (es.map Expression.toJson).mapM Expression.ofJson? = some es := by
    induction es with
    | nil => rfl
    | cons e es ih => simp [Expression.ofJson?_toJson, ih]
  exact hitems

/-- `ofJson?` reads a snapshot back from `toJson`. -/
theorem ofJson?_toJson (s : Snapshot) : ofJson? s.toJson = some s := by
  obtain ⟨savedAt, es⟩ := s
  have hes := expressionsOfJson?_map es
  cases savedAt with
  | none =>
    have hfields : (toJson ⟨none, es⟩).fields? ["saved_at", "expressions"] =
        some [none, some (.array (es.map Expression.toJson))] := rfl
    rw [ofJson?, hfields]
    simp [hes]
  | some t =>
    have hfields : (toJson ⟨some t, es⟩).fields? ["saved_at", "expressions"] =
        some [some (.string t.text), some (.array (es.map Expression.toJson))] := rfl
    rw [ofJson?, hfields]
    simp [hes, savedAtOfJson?, Timestamp.ofText?_text]

theorem plain_toJson (s : Snapshot) : s.toJson.Plain := by
  have hes : Plain (.array (s.expressions.map Expression.toJson)) := by
    refine .array fun v hv => ?_
    obtain ⟨e, -, rfl⟩ := List.mem_map.1 hv
    exact e.plain_toJson
  refine .object fun m hm => ?_
  rcases List.mem_append.1 hm with hm | hm
  · -- The time is a string, if it is there.
    obtain ⟨v, hv, rfl⟩ := List.mem_map.1 hm
    obtain ⟨t, -, rfl⟩ := Option.map_eq_some_iff.1 (Option.mem_toList.1 hv)
    exact .string _
  · obtain rfl := List.mem_singleton.1 hm
    exact hes

/-- **Round trip.** `Snapshot.parse?` reads a snapshot back from its `text`. -/
theorem parse?_text (s : Snapshot) : parse? s.text = some s := by
  rw [parse?, text, Json.parse?_pretty s.plain_toJson, Option.bind_some, ofJson?_toJson]

end Snapshot

end BoolCalc.Store
