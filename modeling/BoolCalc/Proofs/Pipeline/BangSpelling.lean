import BoolCalc.Proofs.Grammar.Places
import BoolCalc.Proofs.Pipeline.CanonicalText
import BoolCalc.Proofs.Pipeline.KeywordSpelling
import BoolCalc.Proofs.Token.Bang

namespace BoolCalc

/-!
# Expressions with exclamation marks

* `PipelineError.unplaced` : errors that have lost their places;
* `CacheKey.reading_unplaced` : what is read from a text is read from the tokens of its scan, except for the places;
* `Pipeline.compile_bang` : **NOT**, an exclamation mark is another spelling of NOT in one dialect, and no part of
  any expression in the other; the dialects agree on all other texts.
-/

/-- The error without its span, if it has one. -/
def PipelineError.unplaced : PipelineError → PipelineError
  | .lex e => .lex e.unplaced
  | .parse e => .parse e.unplaced
  | .binding e => .binding e
  | .evaluation e => .evaluation e

/-- If `x` and `y` are the same after `mapError f`, they are the same value, or errors with the same `f`. -/
theorem exists_of_mapError_eq {x y : Except ε α} {f : ε → δ} (h : x.mapError f = y.mapError f) :
    (∃ a, x = .ok a ∧ y = .ok a) ∨ ∃ e e', x = .error e ∧ y = .error e' ∧ f e = f e' := by
  cases x with
  | ok a =>
    cases y with
    | ok b =>
      cases h
      exact .inl ⟨a, rfl, rfl⟩
    | error e' => cases h
  | error e =>
    cases y with
    | ok b => cases h
    | error e' => exact .inr ⟨e, e', rfl, rfl, Except.error.inj h⟩

namespace CacheKey

variable {bang : Bool} {text : String}

/-- The reading of a text within the limit in terms of its `scan`, without spans: the tokens are parsed as
`.unplaced`. -/
theorem reading_unplaced (h : text.utf8ByteSize ≤ Limits.expression) :
    (CacheKey.reading ⟨bang, text⟩).mapError PipelineError.unplaced =
      ((scan bang 0 .start text.toList).unplaced.mapError PipelineError.lex).bind fun ts =>
        (parse (.unplaced ts)).value.mapError .parse := by
  unfold reading
  rw [tokenize_eq_ite, if_neg (Nat.not_lt.2 h)]
  unfold Scan.result Scan.unplaced
  dsimp only
  cases hending : (scan bang 0 .start text.toList).ending with
  | error f => rfl
  | ok q =>
    let s : TokenStream := { body := (scan bang 0 .start text.toList).tokens, final := .point q }
    have hs : ∀ t ∈ s.body, t.value ≠ .endOfInput := fun t ht =>
      (lexes_of_scan hending).ne_endOfInput (List.mem_map_of_mem ht)
    show ((parse s).value.mapError PipelineError.parse).mapError PipelineError.unplaced =
      (parse (.unplaced (s.body.map Spanned.value))).value.mapError .parse
    rw [← Syntax.parse_unplaced hs]
    cases (parse s).value <;> rfl

/-- A text without `!` has the same `reading` in both dialects. -/
theorem reading_eq_of_not_mem (h : '!' ∉ text.toList) (bang bang' : Bool) :
    CacheKey.reading ⟨bang, text⟩ = CacheKey.reading ⟨bang', text⟩ := by
  unfold reading
  rw [tokenize_eq_ite, tokenize_eq_ite, scan_eq_of_not_mem h bang bang']

/-- Without `bang`, a text with `!` has no tokens. -/
theorem reading_of_mem (h : '!' ∈ text.toList) :
    ∃ e, CacheKey.reading ⟨false, text⟩ = .error (.lex e) := by
  unfold reading
  rw [tokenize_eq_ite]
  split
  · exact ⟨_, rfl⟩
  · unfold Scan.result
    dsimp only
    cases hending : (scan false 0 .start text.toList).ending with
    | error f => exact ⟨f.error, rfl⟩
    | ok q => exact absurd h (not_mem_of_lexes (lexes_of_scan hending))

end CacheKey

namespace Pipeline

/-- With `acceptBang`, `text` and `spellBang text` have the same tree, or the same error up to `unplaced`. -/
theorem treeOf_spellBang {p : Preferences} (hp : p.lexical.acceptBang = true) {text : String}
    (hlength : (String.ofList (spellBang text.toList)).utf8ByteSize ≤ Limits.expression) :
    (treeOf p text).mapError PipelineError.unplaced =
      (treeOf p (String.ofList (spellBang text.toList))).mapError PipelineError.unplaced := by
  have hshorter : text.utf8ByteSize ≤ Limits.expression := by
    have hspelled := byteLength_le_spellBang text.toList
    rw [← Text.byteLength_toList, String.toList_ofList] at hlength
    rw [← Text.byteLength_toList]
    omega
  rw [treeOf_eq_reading, treeOf_eq_reading, hp, CacheKey.reading_unplaced hshorter,
    CacheKey.reading_unplaced hlength, String.toList_ofList, scan_spellBang]

/-- **NOT.** The compilation of a text, under any sound caches and request ids:
* With `acceptBang`, `text` and `spellBang text`, which has NOT between blanks for every `!`, are compiled into the
  same tree, or both fail with the same error up to its place. The longer text has to keep to `Limits.expression`.
* Without `acceptBang`, every text with `!` fails with a `LexError`.
* A text without `!` is compiled alike under all preferences. -/
theorem compile_bang :
    (∀ (p : Preferences) (text : String), p.lexical.acceptBang = true →
      (String.ofList (spellBang text.toList)).utf8ByteSize ≤ Limits.expression →
      ∀ (m m' : Memory) (request request' : Option String), m.Sound → m'.Sound →
        let compiled := ((compile p text).run request m).1.map TreeObject.tree
        let compiled' := ((compile p (String.ofList (spellBang text.toList))).run request' m').1.map TreeObject.tree
        (∃ tree, compiled = .ok tree ∧ compiled' = .ok tree) ∨
          ∃ e e', compiled = .error e ∧ compiled' = .error e' ∧ e.unplaced = e'.unplaced) ∧
    (∀ (p : Preferences) (text : String), p.lexical.acceptBang = false → '!' ∈ text.toList →
      ∀ (m : Memory) (request : Option String), m.Sound →
        ∃ e, ((compile p text).run request m).1 = .error (.lex e)) ∧
    ∀ (p p' : Preferences) (text : String), '!' ∉ text.toList →
      ∀ (m m' : Memory) (request request' : Option String), m.Sound → m'.Sound →
        ((compile p text).run request m).1.map TreeObject.tree =
          ((compile p' text).run request' m').1.map TreeObject.tree := by
  refine ⟨?_, ?_, ?_⟩
  · intro p text hp hlength m m' request request' hm hm' compiled compiled'
    have hcompiled : compiled = treeOf p text := (Work.meets_run (meets_compile p text) hm request).1
    have hcompiled' : compiled' = treeOf p (String.ofList (spellBang text.toList)) :=
      (Work.meets_run (meets_compile p _) hm' request').1
    -- Sound caches make no difference, so that it is enough to compare the trees that are read.
    have hsame := treeOf_spellBang hp hlength
    rw [← hcompiled, ← hcompiled'] at hsame
    exact exists_of_mapError_eq hsame
  · intro p text hp hmem m request hm
    have hcompiled := (Work.meets_run (meets_compile p text) hm request).1
    obtain ⟨e, he⟩ := CacheKey.reading_of_mem hmem
    rw [treeOf_eq_reading, hp, he] at hcompiled
    cases h : ((compile p text).run request m).1 with
    | ok object => rw [h] at hcompiled; cases hcompiled
    | error err =>
      rw [h] at hcompiled
      cases hcompiled
      exact ⟨e, rfl⟩
  · intro p p' text hmem m m' request request' hm hm'
    have hcompiled := (Work.meets_run (meets_compile p text) hm request).1
    have hcompiled' := (Work.meets_run (meets_compile p' text) hm' request').1
    rw [hcompiled, hcompiled', treeOf_eq_reading, treeOf_eq_reading, CacheKey.reading_eq_of_not_mem hmem]

/-- With `acceptBang`, both `a AND!b` and `a AND NOT b` are compiled into `tree`. Without it, `a AND!b` fails with a
`LexError`. The text `a AND b` has one tree under both preferences. -/
theorem compile_bang_andBang :
    let deaf : Preferences := { lexical := { acceptBang := false } }
    let tree : Expr := .and (.variable "a") (.not (.variable "b"))
    String.ofList (spellBang "a AND!b".toList) = "a AND NOT b" ∧ Memory.Sound {} ∧
    ((compile .strict "a AND!b").run none {}).1.map TreeObject.tree = .ok tree ∧
    ((compile .strict "a AND NOT b").run none {}).1.map TreeObject.tree = .ok tree ∧
    '!' ∈ "a AND!b".toList ∧ (∃ e, ((compile deaf "a AND!b").run none {}).1 = .error (.lex e)) ∧
    '!' ∉ "a AND b".toList ∧ ((compile .strict "a AND b").run none {}).1.map TreeObject.tree =
      ((compile deaf "a AND b").run none {}).1.map TreeObject.tree := by
  intro deaf tree
  have hspelled : String.ofList (spellBang "a AND!b".toList) = "a AND NOT b" := by decide
  have hlength : (String.ofList (spellBang "a AND!b".toList)).utf8ByteSize ≤ Limits.expression := by decide
  have hm : Memory.Sound {} := nofun
  let d : Grammar.Derivation .disjunction :=
    .disjunction (.conjunction (.plain (.identifier "a")) (.andCons (.not (.plain (.identifier "b"))) .andNil)) .orNil
  have hnot : ((compile .strict "a AND NOT b").run none {}).1.map TreeObject.tree = .ok tree :=
    compileExpression_of_scan (d := d) (q := ⟨11, 1, 12⟩) (by decide +kernel) (by decide +kernel) (by decide)
      (by decide)
  have hsame := compile_bang.1 .strict "a AND!b" rfl hlength {} {} none none hm hm
  rw [hspelled] at hsame
  have hbang : ((compile .strict "a AND!b").run none {}).1.map TreeObject.tree = .ok tree := by
    rcases hsame with ⟨tree', hbang, hnot'⟩ | ⟨e, e', -, hnot', -⟩
    · cases hnot.symm.trans hnot'
      exact hbang
    · cases hnot.symm.trans hnot'
  have hmem : '!' ∈ "a AND!b".toList := by decide
  have hnone : '!' ∉ "a AND b".toList := by decide
  exact ⟨hspelled, hm, hbang, hnot, hmem, compile_bang.2.1 deaf "a AND!b" rfl hmem {} none hm, hnone,
    compile_bang.2.2 .strict deaf "a AND b" hnone {} {} none none hm hm⟩

end Pipeline

end BoolCalc
