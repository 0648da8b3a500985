import BoolCalc.Proofs.Binding.Reference
import BoolCalc.Proofs.Evaluation.Walk
import BoolCalc.Proofs.Pipeline.CanonicalText

namespace BoolCalc

/-!
# What an evaluation reads of a parameter string

* `Pipeline.identifiers` : the variables of an expression;
* `Parameters.Writes` : a parameter string is written as certain pairs of a name and a value;
* `Pipeline.evaluate_noninterference` : **noninterference**, two parameter strings that bind the variables of an
  expression alike have the same outcome.
-/

variable {values values' : String}

/-! ### Pairs as they are written -/

namespace Parameters

/-- `Writes p raw pairs`: within the limits, `raw` is written as the `pairs`, one for each segment. -/
inductive Writes (p : Preferences.Binding) : String → List (String × Bool) → Prop where
  | empty : Writes p "" []
  | pairs {raw : String} {segs : List (List Char)} {pairs : List (String × Bool)}
      (hshort : raw.utf8ByteSize ≤ Limits.parameterString) (hne : raw ≠ "") (hsegments : IsSegments raw segs)
      (hgood : List.Forall₂ (IsPair p) segs pairs) (hread : segs.length ≤ Limits.bindings) : Writes p raw pairs

variable {p : Preferences.Binding} {raw : String} {pairs : List (String × Bool)}

/-- The same, with the segments and the pairs computed by `segments` and `readPair`. -/
theorem writes_of_readPair {segs : List (List Char)} (hshort : raw.utf8ByteSize ≤ Limits.parameterString)
    (hne : raw ≠ "") (hsegments : segments raw = segs) (hread : segs.length ≤ Limits.bindings)
    (hgood : segs.map (readPair p 0) = pairs.map .ok) : Writes p raw pairs := by
  refine .pairs hshort hne (isSegments_iff.2 hsegments) ?_ hread
  rw [← List.forall₂_eq_eq_eq, List.forall₂_map_left_iff, List.forall₂_map_right_iff] at hgood
  exact hgood.imp fun _ _ h => readPair_eq_ok_iff.1 h

/-- A string that `Writes` pairs binds each name to its last value. -/
theorem Writes.exists_bind (h : Writes p raw pairs) :
    ∃ b, (bind p raw).value = .ok b ∧
      ∀ name v, b.get? name = some v ↔ IsLast Prod.fst pairs (name, v) := by
  have hmeaning : Meaning p raw (.ok (Bindings.ofPairs pairs).get?) := by
    cases h with
    | empty => exact .empty rfl
    | pairs hshort hne hsegments hgood hread =>
      exact .bound hshort hne hsegments hgood hread (lastWins_ofPairs pairs)
  obtain ⟨b, hbind, hb⟩ := hmeaning.exists_bind
  refine ⟨b, hbind, ?_⟩
  intro name v
  rw [hb, Bindings.get?_ofPairs_eq_some_iff]

end Parameters

/-! ### Outcomes -/

namespace Pipeline

variable {p : Preferences} {text : String}

/-- The `names` of the tree of `text`, as often as they occur. An expression that is not compiled has none. -/
def identifiers (p : Preferences) (text : String) : List String :=
  match treeOf p text with
  | .ok tree => tree.names
  | .error _ => []

/-- Parameter strings that give the `identifiers` the same values have the same `answerOf`, except that it repeats
the parameter string. -/
theorem answerOf_congr {b b' : Bindings} (hb : (bind p.binding values).value = .ok b)
    (hb' : (bind p.binding values').value = .ok b')
    (halike : ∀ name ∈ identifiers p text, b.get? name = b'.get? name) :
    answerOf p text values' = (answerOf p text values).map fun r => { r with values := values' } := by
  unfold answerOf
  unfold identifiers at halike
  cases htree : treeOf p text with
  | error e => rfl
  | ok tree =>
    rw [htree] at halike
    rw [hb, hb']
    show ((BoolCalc.evaluate p.evaluation tree b').value.mapError PipelineError.evaluation).bind _ =
      (((BoolCalc.evaluate p.evaluation tree b).value.mapError PipelineError.evaluation).bind _).map _
    rw [evaluate_congr halike]
    cases (BoolCalc.evaluate p.evaluation tree b').value <;> rfl

/-- **Noninterference.** Let both `values` and `values'` be bound. The outcome of `evaluate` is the same, result or
error, except that the answer repeats the parameter string, whatever the preferences and the caches,
* if the bindings give each of the `identifiers` of `text` the same value, or both none;
* for strings that are written as pairs (`Writes`), if each of the `identifiers` has the same last value. Other
  names, the order of the pairs, the spelling of names and values, and earlier pairs of a name do not matter. -/
theorem evaluate_noninterference (p : Preferences) (elapsed elapsed' : Nat) (text values values' : String)
    {m m' : Memory} (hm : m.Sound) (hm' : m'.Sound) (request request' : Option String) :
    (∀ b b' : Bindings, (bind p.binding values).value = .ok b → (bind p.binding values').value = .ok b' →
      (∀ name ∈ identifiers p text, b.get? name = b'.get? name) →
      ((evaluate p elapsed' text values').run request' m').1 =
        ((evaluate p elapsed text values).run request m).1.map fun r => { r with values := values' }) ∧
    ∀ pairs pairs' : List (String × Bool), Parameters.Writes p.binding values pairs →
      Parameters.Writes p.binding values' pairs' →
      (∀ name ∈ identifiers p text, ∀ v, IsLast Prod.fst pairs (name, v) ↔ IsLast Prod.fst pairs' (name, v)) →
      ((evaluate p elapsed' text values').run request' m').1 =
        ((evaluate p elapsed text values).run request m).1.map fun r => { r with values := values' } := by
  rw [run_evaluate_fst hm elapsed values, run_evaluate_fst hm' elapsed' values']
  constructor
  · intro b b' hb hb' halike
    exact answerOf_congr hb hb' halike
  · intro pairs pairs' hwrites hwrites' halike
    obtain ⟨b, hb, hlast⟩ := hwrites.exists_bind
    obtain ⟨b', hb', hlast'⟩ := hwrites'.exists_bind
    apply answerOf_congr hb hb'
    intro name hname
    apply Option.ext
    intro v
    rw [hlast, hlast', halike name hname]

/-- For `a and not (b or c) or d` it does not matter that `a` is bound twice, how `true` is spelled, that there is
an `x`, and in which order the names come. -/
theorem evaluate_noninterference_boundTwice :
    let text := "a and not (b or c) or d"
    let values := "a=0,d=0,b=1,a=TRUE,c=0"
    let values' := "c=false,b=1,x=0,d=0,a=1"
    let pairs := [("a", false), ("d", false), ("b", true), ("a", true), ("c", false)]
    let pairs' := [("c", false), ("b", true), ("x", false), ("d", false), ("a", true)]
    Memory.Sound {} ∧ Parameters.Writes Preferences.strict.binding values pairs ∧
      Parameters.Writes Preferences.strict.binding values' pairs' ∧ identifiers .strict text = ["a", "b", "c", "d"] ∧
      ((evaluate .strict 8 text values').run none {}).1 =
        ((evaluate .strict 3 text values).run none {}).1.map fun r => { r with values := values' } := by
  intro text values values' pairs pairs'
  have hm : Memory.Sound {} := nofun
  have hwrites : Parameters.Writes Preferences.strict.binding values pairs :=
    Parameters.writes_of_readPair (by decide) (by decide) rfl (by decide) (by decide +kernel)
  have hwrites' : Parameters.Writes Preferences.strict.binding values' pairs' :=
    Parameters.writes_of_readPair (by decide) (by decide) rfl (by decide) (by decide +kernel)
  have htree : treeOf .strict text = .ok negatedGroup.value := by
    rw [← compileExpression_eq_treeOf, compileExpression_negatedGroup]
  have hnames : identifiers .strict text = ["a", "b", "c", "d"] := by
    unfold identifiers
    rw [htree]
    rfl
  have halike : ∀ name ∈ identifiers .strict text,
      (Bindings.ofPairs pairs).get? name = (Bindings.ofPairs pairs').get? name := by
    rw [hnames]
    decide
  have houtcome := (evaluate_noninterference .strict 3 8 text values values' hm hm none none).2 pairs pairs'
    hwrites hwrites' fun name hname v => by
      rw [← Bindings.get?_ofPairs_eq_some_iff, ← Bindings.get?_ofPairs_eq_some_iff, halike name hname]
  exact ⟨hm, hwrites, hwrites', hnames, houtcome⟩

end Pipeline

end BoolCalc
