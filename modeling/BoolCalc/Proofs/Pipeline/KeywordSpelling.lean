import BoolCalc.Proofs.Pipeline.Contract
import BoolCalc.Proofs.Token.KeywordCase

namespace BoolCalc.Pipeline

/-!
# Expressions that differ in the case of keywords

* `keyOf_eq_of_recased` : such expressions have one key;
* `treeOf_eq_reading` : an expression is read as its normalized text is;
* `tokenize_normalize` : **case of keywords**, the tokens of a text are those of the normalized text, and
  expressions that differ in the case of keywords are compiled alike.
-/

/-- `Recased` texts have the same key. -/
theorem keyOf_eq_of_recased {text text' : String} (h : Recased text.toList text'.toList) (p : Preferences) :
    keyOf p text = keyOf p text' := by
  have hnormal : (normalize text).value.text = (normalize text').value.text :=
    congrArg String.ofList h.normalizeChars_eq
  rw [keyOf, keyOf, hnormal]

/-- `treeOf` is the `reading` of the text itself: the normalization changes neither tokens nor errors. -/
theorem treeOf_eq_reading (p : Preferences) (text : String) :
    treeOf p text = CacheKey.reading ⟨p.lexical.acceptBang, text⟩ := by
  have htokens : (tokenize { acceptBang := p.lexical.acceptBang } (normalize text).value.text).value =
      (tokenize { acceptBang := p.lexical.acceptBang } text).value :=
    ((recased_normalize text).tokenize_eq { preferences := { acceptBang := p.lexical.acceptBang } }).symm
  show CacheKey.reading ⟨p.lexical.acceptBang, (normalize text).value.text⟩ = _
  unfold CacheKey.reading
  rw [htokens]

/-- **Case of keywords.** The normalization, and the case of words that are keywords:
* `l.tokenize` of the normalized text is `l.tokenize` of the text, with the same tokens and spans, or the same
  error.
* `Recased` texts are compiled into the same tree, or fail with the same error, whatever the preferences and the
  caches. -/
theorem tokenize_normalize :
    (∀ (l : Lexer) (text : String),
      (l.tokenize (normalize text).value.text).value.1 = (l.tokenize text).value.1) ∧
    ∀ text text' : String, Recased text.toList text'.toList →
      ∀ (p : Preferences) (m m' : Memory) (request request' : Option String), m.Sound → m'.Sound →
        ((compile p text).run request m).1.map TreeObject.tree =
          ((compile p text').run request' m').1.map TreeObject.tree := by
  constructor
  · intro l text
    exact ((recased_normalize text).tokenize_eq l).symm
  · intro text text' h p m m' request request' hm hm'
    have hcompiled := (Work.meets_run (meets_compile p text) hm request).1
    have hcompiled' := (Work.meets_run (meets_compile p text') hm' request').1
    rw [hcompiled, hcompiled', treeOf, treeOf, keyOf_eq_of_recased h p]

/-- `noT a1 aNd b` and `NOT a1 AND b`. -/
theorem tokenize_normalize_mixedCase : Recased "noT a1 aNd b".toList "NOT a1 AND b".toList ∧ Memory.Sound {} ∧
    (Lexer.tokenize { preferences := {} } "NOT a1 AND b").value.1 =
      (Lexer.tokenize { preferences := {} } "noT a1 aNd b").value.1 ∧
    ((compile .strict "noT a1 aNd b").run none {}).1.map TreeObject.tree =
      ((compile .strict "NOT a1 AND b").run none {}).1.map TreeObject.tree := by
  have hblank : Text.isWordChar ' ' = false := by decide
  have hb : Recased "b".toList "b".toList :=
    .word (w := "b".toList) (by decide) (List.all_eq_true.1 (by decide)) endsWord_nil .nil
  have hand : Recased "aNd b".toList "AND b".toList :=
    .keyword (k := .and) (v := "aNd".toList) (w := "AND".toList) (by decide) (by decide)
      (endsWord_cons hblank) (.sign hblank hb)
  have ha : Recased "a1 aNd b".toList "a1 AND b".toList :=
    .word (w := "a1".toList) (by decide) (List.all_eq_true.1 (by decide)) (endsWord_cons hblank)
      (.sign hblank hand)
  have hrecased : Recased "noT a1 aNd b".toList "NOT a1 AND b".toList :=
    .keyword (k := .not) (v := "noT".toList) (w := "NOT".toList) (by decide) (by decide)
      (endsWord_cons hblank) (.sign hblank ha)
  have hm : Memory.Sound {} := nofun
  have hnormal : (normalize "noT a1 aNd b").value.text = "NOT a1 AND b" := by decide +kernel
  have htokens := tokenize_normalize.1 { preferences := {} } "noT a1 aNd b"
  rw [hnormal] at htokens
  exact ⟨hrecased, hm, htokens, tokenize_normalize.2 _ _ hrecased .strict {} {} none none hm hm⟩

end BoolCalc.Pipeline
