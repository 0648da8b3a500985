import BoolCalc.Proofs.Binding.Reference
import BoolCalc.Proofs.Pipeline.CanonicalText
import BoolCalc.Proofs.Pipeline.Depth

namespace BoolCalc

/-!
# Every expression under every assignment

* `assignmentText` : the parameter string of an assignment, its names in any order;
* `Parameters.isPair_pairText` : a name and its value are written so that they are read;
* `value_bind_assignmentText` : the bindings of an assignment's parameter string;
* `Pipeline.evaluate_assignment` : **assignments**, an expression that is compiled has its truth value under every
  assignment that can be written within the limits.

A name has no comma, no equals sign and no blank in it, so the separators of the parameter string stand
between names and values only.
-/

open Evaluation

variable {v : String → Bool} {name : String} {names : List String}

/-- The pair `name=true` or `name=false`, by `v`. -/
def pairText (v : String → Bool) (name : String) : String := name ++ "=" ++ Expr.boolText (v name)

/-- The pairs of the `names`, in their order, with commas between them. -/
def assignmentText (v : String → Bool) (names : List String) : String :=
  ",".intercalate (names.map (pairText v))

/-- `v` on the `names`, and nothing on others. -/
def restriction (v : String → Bool) (names : List String) (name : String) : Option Bool :=
  if name ∈ names then some (v name) else none

/-! ### Names and separators -/

/-- A name has no character `d` that is not a word character, so no separator. -/
theorem IsName.not_mem {d : Char} (h : IsName name.toList) (hd : Text.isWordChar d = false) :
    d ∉ name.toList := fun hmem => ne_of_isWordChar (h.chars d hmem) hd rfl

theorem toList_pairText (v : String → Bool) (name : String) :
    (pairText v name).toList = name.toList ++ '=' :: (Expr.boolText (v name)).toList := by
  unfold pairText
  simp

theorem isWordChar_of_mem_boolText (b : Bool) : ∀ c ∈ (Expr.boolText b).toList, Text.isWordChar c = true := by
  rw [← List.all_eq_true]
  cases b <;> decide

namespace Parameters

variable {p : Preferences.Binding}

/-- `pairText v name` is a segment that `IsPair`, of `name` and `v name`. -/
theorem isPair_pairText (hname : IsName name.toList) :
    IsPair p (pairText v name).toList (name, v name) := by
  have hblank : ∀ c ∈ name.toList, Text.isBlank c = false := fun c hc =>
    Text.isBlank_eq_false (hname.chars c hc)
  have hvalue : ∀ c ∈ (Expr.boolText (v name)).toList, Text.isBlank c = false := fun c hc =>
    Text.isBlank_eq_false (isWordChar_of_mem_boolText _ c hc)
  have hne : name ≠ "" := fun heq => hname.ne_nil (congrArg String.toList heq)
  rw [toList_pairText]
  exact .intro ⟨rfl, hname.not_mem (by decide)⟩ (cleans_self hblank) hne (cleans_self hvalue)
    (.word (beq_iff_eq.2 rfl))

theorem comma_not_mem_pairText (hname : IsName name.toList) : ',' ∉ (pairText v name).toList := by
  rw [toList_pairText]
  intro hmem
  rcases List.mem_append.1 hmem with hleft | hright
  · exact hname.not_mem (by decide) hleft
  · rcases List.mem_cons.1 hright with heq | hvalue
    · exact absurd heq (by decide)
    · exact ne_of_isWordChar (isWordChar_of_mem_boolText _ _ hvalue) (by decide : Text.isWordChar ',' = false) rfl

/-- The segments of `assignmentText v names` are the pairs. -/
theorem isSegments_assignmentText (hne : names ≠ []) (hnames : ∀ name ∈ names, IsName name.toList) :
    IsSegments (assignmentText v names) (names.map fun name => (pairText v name).toList) := by
  refine ⟨by simpa using hne, ?_, ?_⟩
  · intro segment hsegment
    obtain ⟨name, hname, rfl⟩ := List.mem_map.1 hsegment
    exact comma_not_mem_pairText (hnames name hname)
  · unfold assignmentText
    rw [String.toList_intercalate, List.map_map]
    rfl

/-- The pairs bind the `names` as `v` does, also if a name stands among them twice. -/
theorem lastWins_restriction (v : String → Bool) (names : List String) :
    LastWins (names.map fun name => (name, v name)) (restriction v names) := by
  have hfirst : (names.map fun name => (name, v name)).map Prod.fst = names := by
    rw [List.map_map]
    exact List.map_id names
  constructor
  · intro name
    rw [hfirst, restriction]
    by_cases hmem : name ∈ names <;> simp [hmem]
  · intro name b hb
    rw [restriction] at hb
    split at hb
    · next hmem =>
      rw [← hfirst] at hmem
      obtain ⟨⟨n, w⟩, rfl, hlast⟩ := exists_isLast hmem
      -- Whichever pair is the last of its name, it has the value of the name.
      obtain ⟨_, _, hpair⟩ := List.mem_map.1 hlast.mem
      cases hpair
      cases hb
      exact hlast
    · cases hb

/-- `assignmentText v names` means the `restriction` of `v` to the names. -/
theorem meaning_assignmentText (hnames : ∀ name ∈ names, IsName name.toList)
    (hcount : names.length ≤ Limits.bindings)
    (hsize : (assignmentText v names).utf8ByteSize ≤ Limits.parameterString) :
    Meaning p (assignmentText v names) (.ok (restriction v names)) := by
  by_cases hne : names = []
  · subst hne
    exact .empty rfl
  · have hsegments : IsSegments (assignmentText v names) _ := isSegments_assignmentText hne hnames
    have hgood : List.Forall₂ (IsPair p) (names.map fun name => (pairText v name).toList)
        (names.map fun name => (name, v name)) := by
      rw [List.forall₂_map_left_iff, List.forall₂_map_right_iff, List.forall₂_same]
      exact fun name hname => isPair_pairText (hnames name hname)
    have hfilled : assignmentText v names ≠ "" := by
      -- The one segment of the empty string has no equals sign.
      intro hempty
      rw [hempty, isSegments_iff] at hsegments
      obtain ⟨name, rest, rfl⟩ := List.exists_cons_of_ne_nil hne
      have hhead : [] = (pairText v name).toList := (List.cons.inj hsegments).1
      rw [toList_pairText] at hhead
      exact absurd hhead.symm (by simp)
    refine .bound hsize hfilled hsegments hgood ?_ (lastWins_restriction v names)
    rwa [List.length_map]

/-- `bind` of `assignmentText v names` gives each of the names the value of `v`. -/
theorem value_bind_assignmentText (hnames : ∀ name ∈ names, IsName name.toList)
    (hcount : names.length ≤ Limits.bindings)
    (hsize : (assignmentText v names).utf8ByteSize ≤ Limits.parameterString) :
    ∃ b, (bind p (assignmentText v names)).value = .ok b ∧ b.get? = restriction v names :=
  (meaning_assignmentText hnames hcount hsize).exists_bind

end Parameters

/-! ### The truth value -/

namespace Pipeline

variable {p : Preferences} {text : String} {tree : Expr}

/-- The answer for `text` and the assignment of `v` to its variables, in the order of `names`, is `tree.truth v`,
with both strings as they were given. -/
theorem answerOf_assignmentText (htree : treeOf p text = .ok tree) (hnames : names.Perm tree.vars)
    (hcount : names.length ≤ Limits.bindings)
    (hsize : (assignmentText v names).utf8ByteSize ≤ Limits.parameterString) :
    answerOf p text (assignmentText v names) = .ok ⟨text, assignmentText v names, tree.truth v⟩ := by
  have hvars : ∀ name, name ∈ names ↔ name ∈ tree.names := by
    intro name
    rw [hnames.mem_iff, Expr.vars, List.mem_eraseDups]
  obtain ⟨b, hbind, hb⟩ := Parameters.value_bind_assignmentText (p := p.binding)
    (fun name hname => CacheKey.isName_of_reading htree ((hvars name).1 hname)) hcount hsize
  have hagrees : tree.Agrees v b := by
    intro name hname
    rw [hb]
    exact if_pos ((hvars name).2 hname)
  have hvalue := evaluate_of_agrees hagrees (nesting_le_of_reading htree) p.evaluation
  unfold answerOf
  rw [htree, Except.bind, hbind, Except.mapError, Except.bind, hvalue]
  rfl

/-- **Assignments.** If `compile` reads a tree from `text`, `evaluate` with the assignment of any `v` to its
variables, written in any order `names`, answers `tree.truth v` and echoes both strings. The variables are at most
`Limits.bindings`, and `assignmentText v names` is not longer than `Limits.parameterString`. -/
theorem evaluate_assignment (p : Preferences) (elapsed : Nat) {text : String} {tree : TreeObject}
    {m m' : Memory} {request request' : Option String} (hm : m.Sound) (hm' : m'.Sound)
    (hcompiled : ((compile p text).run request m).1 = .ok tree) (v : String → Bool) {names : List String}
    (hnames : names.Perm tree.tree.vars) (hcount : tree.tree.vars.length ≤ Limits.bindings)
    (hsize : (assignmentText v names).utf8ByteSize ≤ Limits.parameterString) :
    ((evaluate p elapsed text (assignmentText v names)).run request' m').1 =
      .ok ⟨text, assignmentText v names, tree.tree.truth v⟩ := by
  have htree : treeOf p text = .ok tree.tree := by
    rw [← (Work.meets_run (meets_compile p text) hm request).1, hcompiled]
    rfl
  rw [(Work.meets_run (meets_evaluate p elapsed text (assignmentText v names)) hm' request').1]
  apply answerOf_assignmentText htree hnames _ hsize
  rwa [hnames.length_eq]

/-- The derivation of `a AND NOT b OR a`. -/
def repeatedDerivation : Grammar.Derivation .disjunction :=
  .disjunction (.conjunction (.plain (.identifier "a")) (.andCons (.not (.plain (.identifier "b"))) .andNil))
    (.orCons (.conjunction (.plain (.identifier "a")) .andNil) .orNil)

/-- The two variables of `a AND NOT b OR a`, with `b` first. -/
theorem evaluate_assignment_swapped :
    let v := fun name => name == "a"
    Memory.Sound {} ∧
      (∃ tree, ((compile .strict "a and not b or a").run none {}).1 = .ok tree ∧
        ["b", "a"].Perm tree.tree.vars) ∧
      assignmentText v ["b", "a"] = "b=false,a=true" ∧
      ((evaluate .strict 5 "a and not b or a" "b=false,a=true").run none {}).1 =
        .ok ⟨"a and not b or a", "b=false,a=true", true⟩ := by
  intro v
  have hm : Memory.Sound {} := nofun
  have hcompiled : compileExpression "a and not b or a" = .ok repeatedDerivation.value :=
    compileExpression_of_scan (q := ⟨16, 1, 17⟩) (by decide +kernel) (by decide +kernel) (by decide) (by decide)
  obtain ⟨tree, hrun, htree⟩ := Syntax.map_eq_ok.1 hcompiled
  have hnames : ["b", "a"].Perm tree.tree.vars := by
    rw [htree]
    exact List.Perm.swap _ _ _
  have htext : assignmentText v ["b", "a"] = "b=false,a=true" := by decide
  have h : ((evaluate .strict 5 _ (assignmentText v ["b", "a"])).run none {}).1 = _ :=
    evaluate_assignment .strict 5 hm hm hrun v hnames (by rw [htree]; decide) (by rw [htext]; decide)
  rw [htext, htree] at h
  exact ⟨hm, ⟨tree, hrun, hnames⟩, htext, h⟩

end Pipeline

end BoolCalc
