import BoolCalc.Proofs.Evaluation.Walk
import BoolCalc.Proofs.Pipeline.CanonicalText
import BoolCalc.Proofs.Pipeline.KeywordSpelling
import BoolCalc.Proofs.Token.Failures

namespace BoolCalc

/-!
# The tokens of a text and the tree of the text

* `IsFirstUnbound` : the identifier of a text that has no value and stands before all others without one;
* `exists_isFirstUnbound_iff` : the first unbound variable of a tree is the name of that identifier;
* `Pipeline.compile_isMadeOf` : **occurrences**, the tree of an expression has the operands that are written, in the
  order in which they are written, and the variable reported as unbound is the first such in the text.

The tree is read from the normalized text. The tokens that are counted here are those of the text that was given.
-/

variable {text name : String} {b : Bindings}

/-! ### The first identifier without a value -/

/-- `t` is an identifier of `text` whose `name` has no value in `b`, and all other such identifiers stand behind it. -/
structure IsFirstUnbound (text : String) (b : Bindings) (ts : List (Spanned Token)) (t : Spanned Token)
    (name : String) : Prop where
  mem : t ∈ ts
  value_eq : t.value = .identifier name
  /-- `name` is what is written in `text`. -/
  slice_eq : t.span.slice text = name
  unbound : b.get? name = none
  first : ∀ u ∈ ts, ∀ other, u.value = .identifier other → b.get? other = none →
    t.span.start.offset ≤ u.span.start.offset

/-- Where `key` increases along `xs`, `find? p` gives the element with the property `p` that has the least `key`. -/
theorem find?_eq_some_iff_of_pairwise {α : Type} {key : α → Nat} {p : α → Bool} {xs : List α} {x : α}
    (h : xs.Pairwise fun x y => key x < key y) :
    xs.find? p = some x ↔ x ∈ xs ∧ p x = true ∧ ∀ y ∈ xs, p y = true → key x ≤ key y := by
  induction h with
  | nil => simp
  | @cons y ys hlater _ ih =>
    rw [List.find?_cons]
    cases hy : p y with
    | true =>
      -- No other has a lesser key than the first.
      constructor
      · intro hsome
        obtain rfl := Option.some.inj hsome
        refine ⟨List.mem_cons_self, hy, ?_⟩
        rintro z hz -
        rcases List.mem_cons.1 hz with rfl | hz
        · exact Nat.le_refl _
        · exact Nat.le_of_lt (hlater z hz)
      · rintro ⟨hx, -, hleast⟩
        rcases List.mem_cons.1 hx with rfl | hx
        · rfl
        · exact absurd (hleast y List.mem_cons_self hy) (Nat.not_le.2 (hlater x hx))
    | false =>
      show ys.find? p = some x ↔ _
      have hne : p x = true → x ≠ y := by
        rintro hx rfl
        exact Bool.false_ne_true (hy.symm.trans hx)
      rw [ih, List.forall_mem_cons, List.mem_cons]
      constructor
      · rintro ⟨hmem, hx, hleast⟩
        exact ⟨.inr hmem, hx, fun hpy => absurd (hy.symm.trans hpy) Bool.false_ne_true, hleast⟩
      · rintro ⟨hmem, hx, -, hleast⟩
        exact ⟨hmem.resolve_left (hne hx), hx, hleast⟩

/-- If `e` is made of the tokens of `text`, `e.unbound? b` is the identifier that `IsFirstUnbound`. -/
theorem exists_isFirstUnbound_iff {l : Lexer} {s : TokenStream} {e : Expr}
    (h : (l.tokenize text).value.1 = .ok s) (he : e.IsMadeOf (s.body.map Spanned.value)) :
    e.unbound? b = some name ↔ ∃ t, IsFirstUnbound text b s.body t name := by
  -- `unbound?` searches the names of the tree; by `names_eq` it searches the tokens of the text.
  have hunbound (u : Spanned Token) : (u.value.name?.any fun name => !b.contains name) = true ↔
      ∃ other, u.value = .identifier other ∧ b.get? other = none := by
    cases u.value <;> simp [Token.name?, Bindings.contains]
  rw [Expr.unbound?, he.names_eq, List.filterMap_map, List.find?_filterMap, Option.bind_eq_some_iff]
  refine exists_congr fun t => ?_
  rw [find?_eq_some_iff_of_pairwise (Lexer.pairwise_start_lt h)]
  constructor
  · rintro ⟨⟨hmem, hnone, hfirst⟩, hname⟩
    have hvalue : t.value = .identifier name := Token.name?_eq_some_iff.1 hname
    obtain ⟨other, hother, hnone⟩ := (hunbound t).1 hnone
    obtain rfl := Token.identifier.inj (hvalue.symm.trans hother)
    refine ⟨hmem, hvalue, Lexer.slice_of_identifier h hmem hvalue, hnone, ?_⟩
    intro u hu other hother hnone
    exact hfirst u hu ((hunbound u).2 ⟨other, hother, hnone⟩)
  · rintro ⟨hmem, hvalue, -, hnone, hfirst⟩
    refine ⟨⟨hmem, (hunbound t).2 ⟨name, hvalue, hnone⟩, ?_⟩, Token.name?_eq_some_iff.2 hvalue⟩
    intro u hu hother
    obtain ⟨other, hother, hnone⟩ := (hunbound u).1 hother
    exact hfirst u hu other hother hnone

/-! ### Expressions -/

namespace Pipeline

variable {p : Preferences} {values : String} {tree : Expr}

/-- The answer is the error for an unbound `name` exactly if the parameter string is bound and `name` is
`tree.unbound? b`. -/
theorem answerOf_eq_unbound_iff (htree : treeOf p text = .ok tree) :
    answerOf p text values = .error (.evaluation (.unboundVariable name)) ↔
      ∃ b, (bind p.binding values).value = .ok b ∧ tree.unbound? b = some name := by
  unfold answerOf
  rw [htree]
  show ((bind p.binding values).value.mapError PipelineError.binding).bind _ = _ ↔ _
  cases hbind : (bind p.binding values).value with
  | error e => exact ⟨nofun, nofun⟩
  | ok b =>
    simp only [Except.ok.injEq, exists_eq_left', ← evaluate_eq_unbound_iff (p := p.evaluation)]
    show ((BoolCalc.evaluate p.evaluation tree b).value.mapError PipelineError.evaluation).bind _ = _ ↔ _
    cases hvalue : (BoolCalc.evaluate p.evaluation tree b).value with
    | error e =>
      show Except.error (PipelineError.evaluation e) = _ ↔ _
      simp
    | ok result =>
      show Except.ok _ = _ ↔ _
      simp

/-- **Occurrences.** Let `compile` come to an `object` for `text`. Then `text` has tokens `s`, and
* `object.tree` is made of them (`IsMadeOf`): from left to right its leaves are the identifiers and the literals of
  `s`, it has one inner node for each AND, OR and NOT, and as many nodes as `s` has tokens other than parentheses;
* `evaluate` reports `name` as unbound exactly if an identifier of `s` `IsFirstUnbound` with this name, for the tree
  under any bindings `b` as well as for the whole call, where `b` is bound from `values`. -/
theorem compile_isMadeOf {object : TreeObject} {m : Memory} {request : Option String} (hm : m.Sound)
    (h : ((compile p text).run request m).1 = .ok object) :
    ∃ s : TokenStream, (tokenize p.lexical text).value = .ok s ∧
      object.tree.IsMadeOf (s.body.map Spanned.value) ∧
      (∀ (q : Preferences.Evaluation) (b : Bindings) (name : String),
        (BoolCalc.evaluate q object.tree b).value = .error (.unboundVariable name) ↔
          ∃ t, IsFirstUnbound text b s.body t name) ∧
      ∀ (elapsed : Nat) (values name : String) (m' : Memory) (request' : Option String), m'.Sound →
        (((evaluate p elapsed text values).run request' m').1 = .error (.evaluation (.unboundVariable name)) ↔
          ∃ b, (bind p.binding values).value = .ok b ∧ ∃ t, IsFirstUnbound text b s.body t name) := by
  have htree := treeOf_of_compile hm h
  have hreading := htree
  rw [treeOf_eq_reading] at hreading
  obtain ⟨s, htokens, hmade⟩ := CacheKey.exists_isMadeOf_of_reading hreading
  have hlexer : (Lexer.tokenize { preferences := { acceptBang := p.lexical.acceptBang } } text).value.1 = .ok s :=
    htokens
  have hfirst (b : Bindings) (name : String) : object.tree.unbound? b = some name ↔
      ∃ t, IsFirstUnbound text b s.body t name := exists_isFirstUnbound_iff hlexer hmade
  refine ⟨s, (tokenize_value p.lexical text).trans htokens, hmade, ?_, ?_⟩
  · intro q b name
    rw [evaluate_eq_unbound_iff, hfirst]
  · intro elapsed values name m' request' hm'
    rw [run_evaluate_fst hm' elapsed values, answerOf_eq_unbound_iff htree]
    simp only [hfirst]

/-- In `a and not (b or c) or d`, the first variable without a value is `b` when `d` and `a` are bound. -/
theorem compile_isMadeOf_negatedGroup :
    let text := "a and not (b or c) or d"
    Memory.Sound {} ∧ ∃ object s, ((compile .strict text).run none {}).1 = .ok object ∧
      (tokenize Preferences.strict.lexical text).value = .ok s ∧
      object.tree.IsMadeOf (s.body.map Spanned.value) ∧
      ((evaluate .strict 7 text "d=0,a=1").run none {}).1 = .error (.evaluation (.unboundVariable "b")) ∧
      ∃ b t, (bind Preferences.strict.binding "d=0,a=1").value = .ok b ∧ IsFirstUnbound text b s.body t "b" := by
  intro text
  have hm : Memory.Sound {} := nofun
  obtain ⟨object, hrun, htree⟩ := Syntax.map_eq_ok.1 compileExpression_negatedGroup
  obtain ⟨s, htokens, hmade, htrees, hcalls⟩ := compile_isMadeOf hm hrun
  have hbind : (bind Preferences.strict.binding "d=0,a=1").value = .ok (.ofPairs [("d", false), ("a", true)]) :=
    rfl
  have hunbound : (BoolCalc.evaluate {} object.tree (.ofPairs [("d", false), ("a", true)])).value =
      .error (.unboundVariable "b") := by
    rw [evaluate_eq_unbound_iff, htree]
    decide
  obtain ⟨t, ht⟩ := (htrees {} _ "b").1 hunbound
  have hcall := (hcalls 7 "d=0,a=1" "b" {} none hm).2 ⟨_, hbind, t, ht⟩
  exact ⟨hm, object, s, hrun, htokens, hmade, hcall, _, t, hbind, ht⟩

end Pipeline

end BoolCalc
