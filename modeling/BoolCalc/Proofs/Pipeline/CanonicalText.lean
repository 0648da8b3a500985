import BoolCalc.Proofs.Grammar.Nodes
import BoolCalc.Proofs.Grammar.Places
import BoolCalc.Proofs.Pipeline.Contract
import BoolCalc.Proofs.Token.Printed

namespace BoolCalc

open Grammar

/-!
# Reading canonical texts again

* `compileExpression_eq_ok_iff` : an expression is compiled by normalizing, scanning and parsing it;
* `CacheKey.exists_isMadeOf_of_reading` : a tree that is read from a text is made of the tokens of the text;
* `CacheKey.isName_of_reading`, `isName_of_compileExpression` : the variables of a compiled expression have
  names;
* `parse_eq_ok_iff_of_tokens` : the tokens of a derivation are read as its tree, or nest too deep;
* `compileExpression_render_iff` : when the canonical text of a tree is compiled;
* `compileExpression_render` : **round trip**, the canonical text of a compiled expression is compiled
  into the same tree if and only if it keeps to the limits.

The canonical text has parentheses around every conjunction and disjunction, where the given text may have
none. So it may break a limit that the given text keeps to.
-/

/-! ### Compiling without a cache -/

theorem compileExpression_eq_treeOf (text : String) :
    compileExpression text = Pipeline.treeOf .strict text :=
  (Work.meets_run (Pipeline.meets_compile .strict text) (m := {}) nofun none).1

/-- `reading` is a tree if `tokenize` and `parse` succeed. -/
theorem CacheKey.reading_eq_ok_iff {key : CacheKey} {e : Expr} :
    key.reading = .ok e ↔ ∃ s : TokenStream,
      (tokenize { acceptBang := key.bang } key.text).value = .ok s ∧ (parse s).value = .ok e := by
  rw [reading]
  cases (tokenize { acceptBang := key.bang } key.text).value with
  | error err => simp [Except.mapError, Except.bind]
  | ok s =>
    cases hparse : (parse s).value <;> simp [Except.mapError, Except.bind, hparse]

/-- The same for `compileExpression`, which reads the normalized text. -/
theorem compileExpression_eq_ok_iff {text : String} {e : Expr} :
    compileExpression text = .ok e ↔ ∃ s : TokenStream,
      (tokenize { acceptBang := true } (normalize text).value.text).value = .ok s ∧
        (parse s).value = .ok e := by
  rw [compileExpression_eq_treeOf]
  exact CacheKey.reading_eq_ok_iff

/-- The tokens of `s` are those that the characters of `text` make (`Lexes`). -/
theorem lexes_of_tokenize {bang : Bool} {text : String} {s : TokenStream}
    (h : (tokenize { acceptBang := bang } text).value = .ok s) :
    Lexes bang text.toList (s.body.map Spanned.value) := by
  obtain ⟨-, q, hending, rfl⟩ := tokenize_eq_ok_iff.1 h
  exact lexes_of_scan hending

/-- A tree that is the `reading` of `key` is made of the tokens of its text. -/
theorem CacheKey.exists_isMadeOf_of_reading {key : CacheKey} {e : Expr} (h : key.reading = .ok e) :
    ∃ s : TokenStream, (tokenize { acceptBang := key.bang } key.text).value = .ok s ∧
      e.IsMadeOf (s.body.map Spanned.value) := by
  obtain ⟨s, htokens, hparse⟩ := reading_eq_ok_iff.1 h
  have hvalues (t : Spanned Token) (ht : t ∈ s.body) : t.value ≠ .endOfInput :=
    (lexes_of_tokenize htokens).ne_endOfInput (List.mem_map_of_mem ht)
  obtain ⟨d, hd, rfl, -⟩ := Syntax.exists_derivation_of_stream hvalues hparse
  refine ⟨s, htokens, ?_⟩
  rw [← hd]
  exact d.isMadeOf

/-- The variables of a tree that was read have names. -/
theorem CacheKey.isName_of_reading {key : CacheKey} {e : Expr} (h : key.reading = .ok e) {name : String}
    (hname : name ∈ e.names) : IsName name.toList := by
  obtain ⟨s, htokens, hmade⟩ := exists_isMadeOf_of_reading h
  exact (lexes_of_tokenize htokens).isName (hmade.identifier_mem hname)

/-- The same for `compileExpression`. -/
theorem isName_of_compileExpression {text : String} {e : Expr} (h : compileExpression text = .ok e)
    {name : String} (hname : name ∈ e.names) : IsName name.toList := by
  rw [compileExpression_eq_treeOf] at h
  exact CacheKey.isName_of_reading h hname

/-! ### The tokens of a derivation -/

/-- Tokens that have a derivation `d` are read as `d.value`, and only if `d.nesting` is within `Limits.parseDepth`. -/
theorem parse_eq_ok_iff_of_tokens {s : TokenStream} {d : Derivation .disjunction} {e : Expr}
    (hs : ∀ t ∈ s.body, t.value ≠ .endOfInput) (hd : d.tokens = s.body.map Spanned.value) :
    (parse s).value = .ok e ↔ e = d.value ∧ d.nesting ≤ Limits.parseDepth := by
  constructor
  · intro h
    obtain ⟨d', htokens, hvalue, hlimit⟩ := Syntax.exists_derivation_of_stream hs h
    have hnil : Rule.disjunction.EndsBefore [] := fun _ h => by cases h
    obtain rfl := (d'.unique d (by rw [hd, htokens]) hnil hnil).1
    exact ⟨hvalue.symm, hlimit⟩
  · rintro ⟨rfl, hlimit⟩
    exact (Syntax.parse_of_derivation hs hd hlimit).1

/-- If the normalized text makes the tokens of `d`, within the limits, `compileExpression` gives `d.value`. -/
theorem compileExpression_of_lexes {text normal : String} {d : Derivation .disjunction}
    (hnormal : (normalize text).value.text = normal) (hlexes : Lexes true normal.toList d.tokens)
    (hlength : normal.utf8ByteSize ≤ Limits.expression) (hcount : d.tokens.length ≤ Limits.tokens)
    (hdepth : d.nesting ≤ Limits.parseDepth) : compileExpression text = .ok d.value := by
  rw [compileExpression_eq_ok_iff, hnormal]
  obtain ⟨htokens, q, hending⟩ := (scan_of_lexes hlexes 0 .start).1 (by rwa [Nat.zero_add])
  refine ⟨_, tokenize_eq_ok_iff.2 ⟨hlength, q, hending, rfl⟩, ?_⟩
  refine (parse_eq_ok_iff_of_tokens (fun t ht => ?_) htokens.symm).2 ⟨rfl, hdepth⟩
  exact hlexes.ne_endOfInput (htokens ▸ List.mem_map_of_mem ht)

/-- The same with the tokens computed by `scan`. -/
theorem compileExpression_of_scan {text : String} {d : Derivation .disjunction} {q : Position}
    (hscan : (scan true 0 .start (normalize text).value.text.toList).ending = .ok q ∧
      (scan true 0 .start (normalize text).value.text.toList).tokens.map Spanned.value = d.tokens)
    (hlength : (normalize text).value.text.utf8ByteSize ≤ Limits.expression)
    (hcount : d.tokens.length ≤ Limits.tokens) (hdepth : d.nesting ≤ Limits.parseDepth) :
    compileExpression text = .ok d.value := by
  have hlexes := lexes_of_scan hscan.1
  rw [hscan.2] at hlexes
  exact compileExpression_of_lexes rfl hlexes hlength hcount hdepth

theorem Pipeline.treeOf_true : treeOf .strict "true" = .ok (.literal true) := by
  let d : Derivation .disjunction := .disjunction (.conjunction (.plain (.literal true)) .andNil) .orNil
  exact (compileExpression_eq_treeOf _).symm.trans (compileExpression_of_scan (d := d) (q := ⟨4, 1, 5⟩)
    (by decide +kernel) (by decide +kernel) (by decide) (by decide))

/-! ### The canonical text -/

/-- `normalize` leaves `e.render` alone. -/
theorem normalize_render {e : Expr} (hnames : ∀ name ∈ e.names, IsName name.toList) :
    (normalize e.render).value.text = e.render := by
  have hprinted := printed_render hnames endsWord_nil .nil
  rw [List.append_nil] at hprinted
  exact hprinted.normalize_text

/-- The characters of `e.render` make the tokens of `e.canonical`. -/
theorem lexes_render {bang : Bool} {e : Expr} (hnames : ∀ name ∈ e.names, IsName name.toList) :
    Lexes bang e.render.toList e.canonical.tokens := by
  have hprinted := printed_render hnames endsWord_nil .nil
  rw [List.append_nil, List.append_nil] at hprinted
  rw [e.tokens_canonical]
  exact hprinted.lexes

/-- **The canonical text.** If the variables of `e` have names, `compileExpression` reads `e.render` as `e`, or not
at all: it has to keep to the limits of length, tokens (`e.canonicalSize`) and depth (`e.depth - 1`). -/
theorem compileExpression_render_iff {e e' : Expr} (hnames : ∀ name ∈ e.names, IsName name.toList) :
    compileExpression e.render = .ok e' ↔ e' = e ∧ e.render.utf8ByteSize ≤ Limits.expression ∧
      e.canonicalSize ≤ Limits.tokens ∧ e.depth - 1 ≤ Limits.parseDepth := by
  have hlexes : Lexes true e.render.toList e.canonical.tokens := lexes_render hnames
  constructor
  · rw [compileExpression_eq_ok_iff, normalize_render hnames]
    rintro ⟨s, htokens, htree⟩
    obtain ⟨hlength, q, hending, rfl⟩ := tokenize_eq_ok_iff.1 htokens
    obtain ⟨hfew, hmany⟩ := scan_of_lexes hlexes 0 .start
    rw [Nat.zero_add, e.length_tokens_canonical] at hfew hmany
    -- More tokens than the limit would have stopped the scan.
    have hcount : e.canonicalSize ≤ Limits.tokens := by
      by_contra hnot
      obtain ⟨offset, span, herror⟩ := hmany (Nat.zero_le _) (Nat.lt_of_not_le hnot)
      rw [hending] at herror
      cases herror
    have hvalues := (hfew hcount).1
    rw [parse_eq_ok_iff_of_tokens (fun t ht => ?_) hvalues.symm, e.value_canonical, e.nesting_canonical]
      at htree
    · exact ⟨htree.1, hlength, hcount, htree.2⟩
    · exact hlexes.ne_endOfInput (hvalues ▸ List.mem_map_of_mem ht)
  · rintro ⟨rfl, hlength, hcount, hdepth⟩
    have hcompiled := compileExpression_of_lexes (normalize_render hnames) hlexes hlength
      (by rwa [e'.length_tokens_canonical]) (by rwa [e'.nesting_canonical])
    rwa [e'.value_canonical] at hcompiled

/-- **Round trip.** For a compiled expression `e`, `compileExpression e.render` is `e` if the text keeps to
`Limits.expression`, `Limits.tokens` and `Limits.parseDepth`. Otherwise it is no tree. -/
theorem compileExpression_render {text : String} {e : Expr} (h : compileExpression text = .ok e) (e' : Expr) :
    compileExpression e.render = .ok e' ↔ e' = e ∧ e.render.utf8ByteSize ≤ Limits.expression ∧
      e.canonicalSize ≤ Limits.tokens ∧ e.depth - 1 ≤ Limits.parseDepth :=
  compileExpression_render_iff fun _ hname => isName_of_compileExpression h hname

/-- The derivation of `a AND NOT (b OR c) OR d`. -/
def negatedGroup : Derivation .disjunction :=
  .disjunction (.conjunction (.plain (.identifier "a")) (.andCons (.not (.plain (.group
    (.disjunction (.conjunction (.plain (.identifier "b")) .andNil)
      (.orCons (.conjunction (.plain (.identifier "c")) .andNil) .orNil))))) .andNil))
    (.orCons (.conjunction (.plain (.identifier "d")) .andNil) .orNil)

/-- `a and not (b or c) or d` is compiled into the tree of `negatedGroup`. -/
theorem compileExpression_negatedGroup :
    compileExpression "a and not (b or c) or d" = .ok negatedGroup.value :=
  compileExpression_of_scan (q := ⟨23, 1, 24⟩) (by decide +kernel) (by decide +kernel) (by decide) (by decide)

/-- The canonical text of `a and not (b or c) or d` is compiled into the same tree. -/
theorem compileExpression_render_negatedGroup :
    compileExpression "a and not (b or c) or d" = .ok negatedGroup.value ∧
      negatedGroup.value.render = "((a AND NOT (b OR c)) OR d)" ∧
      compileExpression "((a AND NOT (b OR c)) OR d)" = .ok negatedGroup.value := by
  have hrender : negatedGroup.value.render = "((a AND NOT (b OR c)) OR d)" := by decide
  have hagain := (compileExpression_render compileExpression_negatedGroup negatedGroup.value).2
    ⟨rfl, by rw [hrender]; decide, by decide, by decide⟩
  rw [hrender] at hagain
  exact ⟨compileExpression_negatedGroup, hrender, hagain⟩

/-! ### A long disjunction -/

/-- The further operands of a disjunction, `n` times `a`. -/
def moreOperands : Nat → Derivation .disjunctionTail
  | 0 => .orNil
  | n + 1 => .orCons (.conjunction (.plain (.identifier "a")) .andNil) (moreOperands n)

/-- The disjunction of `n + 1` times `a`, without parentheses. -/
def longDisjunction (n : Nat) : Derivation .disjunction :=
  .disjunction (.conjunction (.plain (.identifier "a")) .andNil) (moreOperands n)

/-- The characters of `moreOperands`, `n` times ` OR a`. -/
def moreChars : Nat → List Char
  | 0 => []
  | n + 1 => ' ' :: 'O' :: 'R' :: ' ' :: 'a' :: moreChars n

theorem endsWord_moreChars (n : Nat) : EndsWord (moreChars n) := by
  cases n with
  | zero => exact endsWord_nil
  | succ n => exact endsWord_cons (by decide)

theorem isName_a : IsName "a".toList :=
  ⟨⟨⟨_, _, rfl, by decide⟩, List.all_eq_true.1 (by decide), by decide⟩, by decide⟩

theorem printed_moreChars (n : Nat) : Printed (moreChars n) (moreOperands n).tokens := by
  induction n with
  | zero => exact .nil
  | succ n ih =>
    have ha := Printed.name isName_a (endsWord_moreChars n) ih
    exact .blank (.keyword .or (endsWord_cons (by decide)) (.blank ha))

/-- The text of `longDisjunction n`. -/
def longText (n : Nat) : String := String.ofList ('a' :: moreChars n)

theorem printed_longText (n : Nat) : Printed (longText n).toList (longDisjunction n).tokens := by
  rw [longText, String.toList_ofList]
  exact .name isName_a (endsWord_moreChars n) (printed_moreChars n)

/-- `longText 129` has 130 operands and is compiled. Its canonical text has 129 parentheses, one in the other, and
is not. -/
theorem compileExpression_longText :
    compileExpression (longText 129) = .ok (longDisjunction 129).value ∧
      compileExpression (longDisjunction 129).value.render ≠ .ok (longDisjunction 129).value := by
  have hprinted := printed_longText 129
  have hcompiled := compileExpression_of_lexes hprinted.normalize_text hprinted.lexes (by decide +kernel)
    (by decide +kernel) (by decide +kernel)
  refine ⟨hcompiled, fun h => ?_⟩
  have hnames : ∀ name ∈ (longDisjunction 129).value.names, IsName name.toList := fun _ hname =>
    isName_of_compileExpression hcompiled hname
  obtain ⟨-, -, -, hdepth⟩ := (compileExpression_render_iff hnames).1 h
  exact absurd hdepth (by decide +kernel)

end BoolCalc
