import BoolCalc.Proofs.Grammar.DepthLimit
import BoolCalc.Proofs.Pipeline.CanonicalText

namespace BoolCalc

open Grammar

/-!
# Canonical texts and the limits

* `CacheKey.reading_of_long`, `CacheKey.reading_of_many`, `CacheKey.reading_of_deep`,
  `CacheKey.reading_of_within` : what reading a text comes to whose characters make the tokens of a
  derivation, by the first limit that it breaks;
* `Pipeline.compile_render` : **limits**, the canonical text of a tree is compiled into the tree, or fails with
  the first limit that it breaks: length, number of tokens, depth.
-/

/-! ### Reading the tokens of a derivation -/

namespace CacheKey

variable {key : CacheKey} {d : Derivation .disjunction}

/-- A text over `Limits.expression` has no `reading`. -/
theorem reading_of_long (h : Limits.expression < key.text.utf8ByteSize) :
    key.reading = .error (.lex (.expressionTooLong key.text.utf8ByteSize)) := by
  rw [reading, tokenize_eq_ite, if_pos h]
  rfl

/-- Within `Limits.expression`, `reading` is `parse` of the tokens of the `scan`. -/
theorem reading_of_short (h : key.text.utf8ByteSize ≤ Limits.expression) :
    key.reading = ((scan key.bang 0 .start key.text.toList).result.mapError .lex).bind fun tokens =>
      (parse tokens).value.mapError .parse := by
  rw [reading, tokenize_eq_ite, if_neg (Nat.not_lt.2 h)]

/-- A text whose characters make more than `Limits.tokens` tokens has no `reading`. -/
theorem reading_of_many {ts : List Token} (hlexes : Lexes key.bang key.text.toList ts)
    (hlength : key.text.utf8ByteSize ≤ Limits.expression) (h : Limits.tokens < ts.length) :
    ∃ offset, key.reading = .error (.lex (.tooManyTokens offset)) := by
  obtain ⟨offset, span, hending⟩ :=
    (scan_of_lexes hlexes 0 .start).2 (Nat.zero_le _) (by rwa [Nat.zero_add])
  refine ⟨offset, ?_⟩
  rw [reading_of_short hlength, Scan.result, hending]
  rfl

/-- The stream of a text whose characters make the tokens of `d`: its body are these, and none of them is an
`.endOfInput`. -/
theorem exists_stream (hlexes : Lexes key.bang key.text.toList d.tokens)
    (hlength : key.text.utf8ByteSize ≤ Limits.expression) (hcount : d.tokens.length ≤ Limits.tokens) :
    ∃ s : TokenStream, key.reading = (parse s).value.mapError .parse ∧
      d.tokens = s.body.map Spanned.value ∧ ∀ t ∈ s.body, t.value ≠ .endOfInput := by
  obtain ⟨hvalues, q, hending⟩ := (scan_of_lexes hlexes 0 .start).1 (by rwa [Nat.zero_add])
  refine ⟨{ body := (scan key.bang 0 .start key.text.toList).tokens, final := .point q }, ?_, hvalues.symm, ?_⟩
  · rw [reading_of_short hlength, Scan.result, hending]
    rfl
  · intro t ht
    exact hlexes.ne_endOfInput (hvalues ▸ List.mem_map_of_mem ht)

/-- If `d` nests beyond `Limits.parseDepth`, `reading` fails with `.tooDeep`. -/
theorem reading_of_deep (hlexes : Lexes key.bang key.text.toList d.tokens)
    (hlength : key.text.utf8ByteSize ≤ Limits.expression) (hcount : d.tokens.length ≤ Limits.tokens)
    (h : Limits.parseDepth < d.nesting) : ∃ span, key.reading = .error (.parse (.tooDeep span)) := by
  obtain ⟨s, hreading, hd, hs⟩ := exists_stream hlexes hlength hcount
  obtain ⟨span, hparse⟩ := Syntax.parse_tooDeep_of_derivation hs hd h
  exact ⟨span, by rw [hreading, hparse]; rfl⟩

/-- Within all three limits, `reading` is `d.value`. -/
theorem reading_of_within (hlexes : Lexes key.bang key.text.toList d.tokens)
    (hlength : key.text.utf8ByteSize ≤ Limits.expression) (hcount : d.tokens.length ≤ Limits.tokens)
    (hdepth : d.nesting ≤ Limits.parseDepth) : key.reading = .ok d.value := by
  obtain ⟨s, hreading, hd, hs⟩ := exists_stream hlexes hlength hcount
  rw [hreading, (Syntax.parse_of_derivation hs hd hdepth).1]
  rfl

end CacheKey

/-! ### The canonical text -/

namespace Pipeline

/-- `keyOf` leaves the text of `e.render` alone. -/
theorem keyOf_render {e : Expr} (hnames : ∀ name ∈ e.names, IsName name.toList) (p : Preferences) :
    keyOf p e.render = ⟨p.lexical.acceptBang, e.render⟩ := by
  rw [keyOf, cacheKey, normalize_render hnames]

/-- **Limits.** Let `compiled` be what `compile` makes of `e.render`, where the variables of `e` have names.
* It is `e` exactly if the text is within `Limits.expression`, its `size` within `Limits.tokens` (a token for each
  node, and two more for each conjunction and disjunction), and `e.depth - 1` within `Limits.parseDepth`.
* Otherwise it is the error for the first of these limits, in this order, that is exceeded. -/
theorem compile_render {e : Expr} (hnames : ∀ name ∈ e.names, IsName name.toList) (p : Preferences)
    {m : Memory} (hm : m.Sound) (request : Option String) :
    let compiled := ((compile p e.render).run request m).1.map TreeObject.tree
    let length := e.render.utf8ByteSize
    let size := e.nodeCount + 2 * e.joins
    (compiled = .ok e ↔
      length ≤ Limits.expression ∧ size ≤ Limits.tokens ∧ e.depth - 1 ≤ Limits.parseDepth) ∧
    (Limits.expression < length → compiled = .error (.lex (.expressionTooLong length))) ∧
    (length ≤ Limits.expression → Limits.tokens < size →
      ∃ offset, compiled = .error (.lex (.tooManyTokens offset))) ∧
    (length ≤ Limits.expression → size ≤ Limits.tokens → Limits.parseDepth < e.depth - 1 →
      ∃ span, compiled = .error (.parse (.tooDeep span))) := by
  intro compiled length size
  let key : CacheKey := ⟨p.lexical.acceptBang, e.render⟩
  have hcompiled : compiled = key.reading := by
    rw [show compiled = treeOf p e.render from (Work.meets_run (meets_compile p e.render) hm request).1]
    rw [treeOf, keyOf_render hnames p]
  -- The tokens of the text are those of the canonical derivation, whose size and nesting are known.
  have hlexes : Lexes key.bang key.text.toList e.canonical.tokens := lexes_render hnames
  have hsize : e.canonical.tokens.length = size := e.length_tokens_canonical
  have hlong : Limits.expression < length → compiled = .error (.lex (.expressionTooLong length)) := by
    intro h
    rw [hcompiled, CacheKey.reading_of_long h]
  have hmany : length ≤ Limits.expression → Limits.tokens < size →
      ∃ offset, compiled = .error (.lex (.tooManyTokens offset)) := by
    intro hlength h
    rw [hcompiled]
    exact CacheKey.reading_of_many hlexes hlength (by rwa [hsize])
  have hdeep : length ≤ Limits.expression → size ≤ Limits.tokens → Limits.parseDepth < e.depth - 1 →
      ∃ span, compiled = .error (.parse (.tooDeep span)) := by
    intro hlength hcount h
    rw [hcompiled]
    exact CacheKey.reading_of_deep hlexes hlength (by rwa [hsize]) (by rwa [e.nesting_canonical])
  refine ⟨⟨?_, ?_⟩, hlong, hmany, hdeep⟩
  · -- A broken limit is a failure.
    intro h
    by_contra hnot
    by_cases hlength : length ≤ Limits.expression
    · by_cases hcount : size ≤ Limits.tokens
      · have hdepth : Limits.parseDepth < e.depth - 1 :=
          Nat.lt_of_not_le fun hdepth => hnot ⟨hlength, hcount, hdepth⟩
        obtain ⟨span, herror⟩ := hdeep hlength hcount hdepth
        cases h.symm.trans herror
      · obtain ⟨offset, herror⟩ := hmany hlength (Nat.lt_of_not_le hcount)
        cases h.symm.trans herror
    · cases h.symm.trans (hlong (Nat.lt_of_not_le hlength))
  · rintro ⟨hlength, hcount, hdepth⟩
    rw [hcompiled, CacheKey.reading_of_within hlexes hlength (by rwa [hsize]) (by rwa [e.nesting_canonical]),
      e.value_canonical]

/-- The disjunction of `n + 1` operands `a`, joined from the left. -/
def longOr : Nat → Expr
  | 0 => .variable "a"
  | n + 1 => .or (longOr n) (.variable "a")

theorem isName_of_mem_longOr (n : Nat) : ∀ name ∈ (longOr n).names, IsName name.toList := by
  induction n with
  | zero =>
    intro name hname
    rw [List.mem_singleton.1 hname]
    exact isName_a
  | succ n ih =>
    intro name hname
    rcases List.mem_append.1 hname with hleft | hright
    · exact ih name hleft
    · rw [List.mem_singleton.1 hright]
      exact isName_a

/-- Each operand of `longOr` adds seven bytes, four tokens and one level. -/
theorem measures_longOr (n : Nat) : (longOr n).render.utf8ByteSize = 7 * n + 1 ∧
    (longOr n).nodeCount + 2 * (longOr n).joins = 4 * n + 1 ∧ (longOr n).depth = n + 1 := by
  induction n with
  | zero => decide
  | succ n ih =>
    obtain ⟨hlength, hsize, hdepth⟩ := ih
    have hopen : "(".utf8ByteSize = 1 := by decide
    have hor : " OR ".utf8ByteSize = 4 := by decide
    have ha : "a".utf8ByteSize = 1 := by decide
    have hclose : ")".utf8ByteSize = 1 := by decide
    refine ⟨?_, ?_, ?_⟩
    · simp only [longOr, Expr.render, String.utf8ByteSize_append, hlength, hopen, hor, ha, hclose]
      omega
    · simp only [longOr, Expr.nodeCount, Expr.joins]
      omega
    · simp only [longOr, Expr.depth, hdepth]
      omega

/-- `longOr` on both sides of each limit: the depth, the number of tokens, the length. -/
theorem compile_render_longOr : (∀ n, ∀ name ∈ (longOr n).names, IsName name.toList) ∧ Memory.Sound {} ∧
    let compiled := fun n => ((compile .strict (longOr n).render).run none {}).1.map TreeObject.tree
    compiled 128 = .ok (longOr 128) ∧
    (∃ span, compiled 129 = .error (.parse (.tooDeep span))) ∧
    (∃ span, compiled 2499 = .error (.parse (.tooDeep span))) ∧
    (∃ offset, compiled 2500 = .error (.lex (.tooManyTokens offset))) ∧
    (∃ offset, compiled 9362 = .error (.lex (.tooManyTokens offset))) ∧
    compiled 9363 = .error (.lex (.expressionTooLong 65542)) := by
  have hm : Memory.Sound {} := nofun
  refine ⟨isName_of_mem_longOr, hm, ?_⟩
  intro compiled
  have hlimits := fun n => compile_render (isName_of_mem_longOr n) .strict hm none
  have hlength : ∀ n, (longOr n).render.utf8ByteSize = 7 * n + 1 := fun n => (measures_longOr n).1
  have hsize : ∀ n, (longOr n).nodeCount + 2 * (longOr n).joins = 4 * n + 1 := fun n => (measures_longOr n).2.1
  have hdepth : ∀ n, (longOr n).depth = n + 1 := fun n => (measures_longOr n).2.2
  simp only [hlength, hsize, hdepth] at hlimits
  exact ⟨(hlimits 128).1.2 ⟨by decide, by decide, by decide⟩,
    (hlimits 129).2.2.2 (by decide) (by decide) (by decide),
    (hlimits 2499).2.2.2 (by decide) (by decide) (by decide),
    (hlimits 2500).2.2.1 (by decide) (by decide),
    (hlimits 9362).2.2.1 (by decide) (by decide),
    (hlimits 9363).2.1 (by decide)⟩

end Pipeline

end BoolCalc
