import Mathlib.Data.List.Forall2
import Mathlib.Data.List.Induction
import BoolCalc.Expr
import BoolCalc.Parameters
import BoolCalc.Proofs.LastEntry
import BoolCalc.Proofs.Text.Decimal

namespace BoolCalc

/-!
# What a parameter string means

* `Text.trimChars_eq_of_blanks` : dropping the blanks at the ends of a text;
* `Bindings.get?_ofPairs_eq_some_iff` : the value of a name is that of its last pair;
* `Parameters.Cleans`, `Parameters.Denotes` : the text of a name or value, and the truth value it spells;
* `Parameters.IsPair`, `Parameters.IsFault` : what a segment binds, and what is wrong with it;
* `Parameters.Meaning` : the bindings of a parameter string or the failure, without a loop;
* `Parameters.value_of_meaning`, `Parameters.exists_meaning` : binding gives the meaning, and there is one;
* `bind_eq_iff_meaning` : the reading of a parameter string as a whole.

The loop stops at the first fault, and a later pair wins over an earlier one. Both are statements about the
segments in front of the current one: they are all good, and the bindings so far are those of their pairs.
-/

/-! ### Blank ends -/

namespace Text

variable {before cs behind : List Char}

/-- The blanks `before` in front are dropped, up to the first character that is none. -/
theorem trimStart_append (hbefore : ∀ c ∈ before, isBlank c = true)
    (hhead : ∀ c ∈ cs.head?, isBlank c = false) : trimStart (before ++ cs) = cs :=
  dropWhile_run hbefore hhead

/-- The blanks `behind` at the end are dropped, up to the last character that is none. -/
theorem trimEnd_append (hbehind : ∀ c ∈ behind, isBlank c = true)
    (hlast : ∀ c ∈ cs.getLast?, isBlank c = false) : trimEnd (cs ++ behind) = cs := by
  unfold trimEnd
  rw [List.reverse_append, dropWhile_run, List.reverse_reverse]
  · simpa using hbehind
  · simpa using hlast

/-- Blanks at both ends of `cs` are dropped, and nothing else. -/
theorem trimChars_eq_of_blanks (hbefore : ∀ c ∈ before, isBlank c = true)
    (hbehind : ∀ c ∈ behind, isBlank c = true) (hhead : ∀ c ∈ cs.head?, isBlank c = false)
    (hlast : ∀ c ∈ cs.getLast?, isBlank c = false) : trimChars (before ++ cs ++ behind) = cs := by
  unfold trimChars
  cases cs with
  | nil =>
    -- Nothing but blanks: all of them are in front.
    have hall : ∀ c ∈ before ++ behind, isBlank c = true := by
      intro c hc
      exact (List.mem_append.1 hc).elim (hbefore c) (hbehind c)
    have hstart : trimStart (before ++ behind ++ []) = [] := trimStart_append hall nofun
    rw [List.append_nil] at hstart ⊢
    rw [hstart]
    rfl
  | cons c cs =>
    rw [List.append_assoc, trimStart_append hbefore (by simpa using hhead), trimEnd_append hbehind hlast]

/-- The text `raw` is `trimChars raw`, with blanks at both ends. -/
theorem exists_blanks_trimChars (raw : List Char) : ∃ before behind,
    raw = before ++ trimChars raw ++ behind ∧ (∀ c ∈ before, isBlank c = true) ∧
      (∀ c ∈ behind, isBlank c = true) ∧ (∀ c ∈ (trimChars raw).head?, isBlank c = false) ∧
      ∀ c ∈ (trimChars raw).getLast?, isBlank c = false := by
  obtain ⟨before, rest, rfl, hbefore, hrest⟩ := exists_leading_run isBlank raw
  obtain ⟨tail, front, hfront, htail, hlast⟩ := exists_leading_run isBlank rest.reverse
  -- `front` is the rest without its blanks at the end, from the last character to the first.
  have hsplit : rest = front.reverse ++ tail.reverse := by
    rw [← List.reverse_append, ← hfront, List.reverse_reverse]
  have htail' : ∀ c ∈ tail.reverse, isBlank c = true := by simpa using htail
  have hlast' : ∀ c ∈ front.reverse.getLast?, isBlank c = false := by simpa using hlast
  have htrim : trimChars (before ++ rest) = front.reverse := by
    unfold trimChars
    rw [trimStart_append hbefore hrest, hsplit, trimEnd_append htail' hlast']
  refine ⟨before, tail.reverse, ?_, hbefore, htail', ?_, ?_⟩
  · rw [htrim, hsplit, List.append_assoc]
  · intro c hc
    rw [htrim] at hc
    apply hrest c
    rw [hsplit]
    exact List.mem_head?_append_of_mem_head? hc
  · rw [htrim]
    exact hlast'

end Text

/-! ### Bindings of a list of pairs -/

namespace Bindings

/-- One more pair at the end is one more `insert`. -/
theorem ofPairs_concat (pairs : List (String × Bool)) (name : String) (v : Bool) :
    ofPairs (pairs ++ [(name, v)]) = (ofPairs pairs).insert name v := by
  unfold ofPairs
  rw [List.foldl_append]
  rfl

/-- The value of `name` is the one in its last pair. -/
theorem get?_ofPairs_eq_some_iff {pairs : List (String × Bool)} {name : String} {v : Bool} :
    (ofPairs pairs).get? name = some v ↔ IsLast Prod.fst pairs (name, v) := by
  induction pairs using List.reverseRecOn with
  | nil => exact ⟨nofun, fun h => absurd h not_isLast_nil⟩
  | append_singleton pairs pair ih =>
    obtain ⟨n, w⟩ := pair
    rw [ofPairs_concat, get?_insert, isLast_concat]
    by_cases hn : name = n
    · -- The new pair is the last one of its name.
      subst hn
      simp [eq_comm]
    · rw [if_neg hn, ih]
      simp [hn, Ne.symm hn]

end Bindings

namespace Parameters

variable {p : Preferences.Binding} {raw : String} {written segment rawName rawValue cs value : List Char}
  {index : Nat} {v : Bool} {pair : String × Bool} {error : BindingError}

/-! ### Names and values -/

/-- The text of a name or a value: what is written, without the blanks at its ends if `p.trimBlanks`. -/
inductive Cleans (p : Preferences.Binding) : List Char → List Char → Prop where
  | kept {cs : List Char} (hkeep : p.trimBlanks = false) : Cleans p cs cs
  | trimmed {before cs behind : List Char} (htrim : p.trimBlanks = true)
      (hbefore : ∀ c ∈ before, Text.isBlank c = true) (hbehind : ∀ c ∈ behind, Text.isBlank c = true)
      (hhead : ∀ c ∈ cs.head?, Text.isBlank c = false)
      (hlast : ∀ c ∈ cs.getLast?, Text.isBlank c = false) : Cleans p (before ++ cs ++ behind) cs

/-- The function that `readPair` cleans names and values with. -/
def clean (p : Preferences.Binding) : List Char → List Char := if p.trimBlanks then Text.trimChars else id

theorem cleans_iff : Cleans p written cs ↔ clean p written = cs := by
  unfold clean
  constructor
  · rintro (hkeep | ⟨htrim, hbefore, hbehind, hhead, hlast⟩)
    · rw [hkeep]
      rfl
    · rw [if_pos htrim]
      exact Text.trimChars_eq_of_blanks hbefore hbehind hhead hlast
  · rintro rfl
    by_cases htrim : p.trimBlanks = true
    · rw [if_pos htrim]
      obtain ⟨before, behind, hwritten, hbefore, hbehind, hhead, hlast⟩ := Text.exists_blanks_trimChars written
      have h := Cleans.trimmed htrim hbefore hbehind hhead hlast
      rwa [← hwritten] at h
    · rw [if_neg htrim]
      exact .kept (Bool.not_eq_true _ ▸ htrim)

/-- A text without blanks is read as it is, whatever `p.trimBlanks`. -/
theorem cleans_self (h : ∀ c ∈ cs, Text.isBlank c = false) : Cleans p cs cs := by
  by_cases htrim : p.trimBlanks = true
  · have hcs : Cleans p ([] ++ cs ++ []) cs := .trimmed htrim nofun nofun
      (fun c hc => h c (List.mem_of_mem_head? hc)) (fun c hc => h c (List.mem_of_mem_getLast? hc))
    rwa [List.nil_append, List.append_nil] at hcs
  · exact .kept (Bool.not_eq_true _ ▸ htrim)

/-- The text spells a truth value: its word in any case of the letters, or its numeral if `p.acceptNumeric`. -/
inductive Denotes (p : Preferences.Binding) : List Char → Bool → Prop where
  | word {value : List Char} {v : Bool} (h : Text.sameLetters value (Expr.boolText v).toList = true) :
      Denotes p value v
  | one (h : p.acceptNumeric = true) : Denotes p ['1'] true
  | zero (h : p.acceptNumeric = true) : Denotes p ['0'] false

theorem truthValue?_eq_some_iff : truthValue? p value = some v ↔ Denotes p value v := by
  constructor
  · intro h
    unfold truthValue? at h
    split at h
    · -- Each branch that gives a value is one way to denote it.
      next htrue => cases h; exact .word htrue
    · split at h
      · next hfalse => cases h; exact .word hfalse
      · split at h
        · next hone =>
          rw [Bool.and_eq_true, beq_iff_eq] at hone
          cases h
          rw [hone.2]
          exact .one hone.1
        · split at h
          · next hzero =>
            rw [Bool.and_eq_true, beq_iff_eq] at hzero
            cases h
            rw [hzero.2]
            exact .zero hzero.1
          · cases h
  · rintro (h | h | h)
    · -- No text spells both words.
      cases v with
      | true => exact if_pos h
      | false =>
        have hdiffer : ¬Text.sameLetters value "true".toList = true := by
          intro htrue
          have hsame := (beq_iff_eq.1 htrue).symm.trans (beq_iff_eq.1 h)
          exact absurd hsame (by decide)
        unfold truthValue?
        rw [if_neg hdiffer]
        exact if_pos h
    · unfold truthValue?
      rw [h]
      decide
    · unfold truthValue?
      rw [h]
      decide

/-! ### One segment -/

/-- The parts of `segment` at its first `'='`. -/
def SplitsAt (segment rawName rawValue : List Char) : Prop :=
  segment = rawName ++ '=' :: rawValue ∧ '=' ∉ rawName

theorem splitPair?_eq_some_iff :
    splitPair? segment = some (rawName, rawValue) ↔ SplitsAt segment rawName rawValue := by
  unfold splitPair?
  constructor
  · intro h
    obtain ⟨run, rest, rfl, hrun, hrest⟩ := Text.exists_leading_run (· != '=') segment
    rw [Text.takeWhile_run hrun hrest, Text.dropWhile_run hrun hrest] at h
    cases rest with
    | nil => cases h
    | cons c rest =>
      have hc : c = '=' := by simpa using hrest c rfl
      cases h
      subst hc
      exact ⟨rfl, fun hmem => absurd (hrun _ hmem) (by decide)⟩
  · rintro ⟨rfl, hname⟩
    have hrun : ∀ c ∈ rawName, (c != '=') = true := by
      intro c hc
      exact bne_iff_ne.2 fun heq => hname (heq ▸ hc)
    rw [Text.takeWhile_run hrun (by simp), Text.dropWhile_run hrun (by simp)]

theorem splitPair?_eq_none_iff : splitPair? segment = none ↔ '=' ∉ segment := by
  constructor
  · intro h hmem
    obtain ⟨before, behind, heq, hbefore⟩ := List.eq_append_cons_of_mem hmem
    have hsplit := splitPair?_eq_some_iff.2 ⟨heq, hbefore⟩
    rw [h] at hsplit
    cases hsplit
  · intro h
    cases hsplit : splitPair? segment with
    | none => rfl
    | some parts =>
      have heq := (splitPair?_eq_some_iff.1 hsplit).1
      exact absurd (heq ▸ List.mem_append_right _ List.mem_cons_self) h

/-- The segment is good, and it binds the name to the value. -/
inductive IsPair (p : Preferences.Binding) (segment : List Char) : String × Bool → Prop where
  | intro {rawName rawValue value : List Char} {name : String} {v : Bool}
      (hsplit : SplitsAt segment rawName rawValue) (hname : Cleans p rawName name.toList) (hne : name ≠ "")
      (hvalue : Cleans p rawValue value) (hdenotes : Denotes p value v) : IsPair p segment (name, v)

/-- What is wrong with a segment, the first of: no `'='`, an empty name, a value that `Denotes` nothing. -/
inductive IsFault (p : Preferences.Binding) (index : Nat) (segment : List Char) : BindingError → Prop where
  | missingSeparator (h : '=' ∉ segment) :
      IsFault p index segment (.missingSeparator (String.ofList segment) index)
  | emptyName {rawName rawValue : List Char} (hsplit : SplitsAt segment rawName rawValue)
      (hname : Cleans p rawName []) : IsFault p index segment (.emptyName index)
  | invalidBoolean {rawName rawValue : List Char} {name value : String}
      (hsplit : SplitsAt segment rawName rawValue) (hname : Cleans p rawName name.toList) (hne : name ≠ "")
      (hvalue : Cleans p rawValue value.toList) (hnone : ∀ v, ¬Denotes p value.toList v) :
      IsFault p index segment (.invalidBoolean name value)

/-- What `readPair` makes of a segment with `'='`. -/
theorem readPair_of_splitsAt (hsplit : SplitsAt segment rawName rawValue) :
    readPair p index segment =
      if (clean p rawName).isEmpty then .error (.emptyName index)
      else
        match truthValue? p (clean p rawValue) with
        | some v => .ok (String.ofList (clean p rawName), v)
        | none => .error (.invalidBoolean (String.ofList (clean p rawName))
            (String.ofList (clean p rawValue))) := by
  unfold readPair
  rw [splitPair?_eq_some_iff.2 hsplit]
  rfl

/-- `readPair` of a segment that `IsPair` is the pair. -/
theorem IsPair.readPair_eq (h : IsPair p segment pair) : readPair p index segment = .ok pair := by
  obtain @⟨_, _, _, name, v, hsplit, hname, hne, hvalue, hdenotes⟩ := h
  have hfilled : ¬name.toList.isEmpty = true := by simpa using hne
  rw [readPair_of_splitsAt hsplit, cleans_iff.1 hname, cleans_iff.1 hvalue, if_neg hfilled,
    truthValue?_eq_some_iff.2 hdenotes, String.ofList_toList]

/-- `readPair` of a segment that `IsFault` fails with the fault. -/
theorem IsFault.readPair_eq (h : IsFault p index segment error) : readPair p index segment = .error error := by
  cases h with
  | missingSeparator h =>
    unfold readPair
    rw [splitPair?_eq_none_iff.2 h]
  | emptyName hsplit hname =>
    rw [readPair_of_splitsAt hsplit, cleans_iff.1 hname]
    rfl
  | @invalidBoolean rawName rawValue name value hsplit hname hne hvalue hnone =>
    have hfilled : ¬name.toList.isEmpty = true := by simpa using hne
    have hvalue' : truthValue? p value.toList = none := by
      rw [Option.eq_none_iff_forall_ne_some]
      exact fun v hv => hnone v (truthValue?_eq_some_iff.1 hv)
    rw [readPair_of_splitsAt hsplit, cleans_iff.1 hname, cleans_iff.1 hvalue, if_neg hfilled, hvalue',
      String.ofList_toList, String.ofList_toList]

/-- Every segment `IsPair` or `IsFault`. -/
theorem exists_isPair_or_isFault (p : Preferences.Binding) (segment : List Char) :
    (∃ pair, IsPair p segment pair) ∨ ∀ index, ∃ error, IsFault p index segment error := by
  -- The order of the checks in the code: the separator, the name, the value.
  by_cases hmem : '=' ∈ segment
  · obtain ⟨rawName, rawValue, hsplit⟩ := List.eq_append_cons_of_mem hmem
    have hname : Cleans p rawName (clean p rawName) := cleans_iff.2 rfl
    have hvalue : Cleans p rawValue (clean p rawValue) := cleans_iff.2 rfl
    by_cases hempty : clean p rawName = []
    · rw [hempty] at hname
      exact .inr fun index => ⟨_, .emptyName hsplit hname⟩
    · have hne : String.ofList (clean p rawName) ≠ "" := by simpa using hempty
      rw [← String.toList_ofList (l := clean p rawName)] at hname
      by_cases hdenotes : ∃ v, Denotes p (clean p rawValue) v
      · obtain ⟨v, hv⟩ := hdenotes
        exact .inl ⟨_, .intro hsplit hname hne hvalue hv⟩
      · rw [← String.toList_ofList (l := clean p rawValue)] at hvalue
        refine .inr fun index => ⟨_, .invalidBoolean hsplit hname hne hvalue ?_⟩
        intro v hv
        rw [String.toList_ofList] at hv
        exact hdenotes ⟨v, hv⟩
  · exact .inr fun index => ⟨_, .missingSeparator hmem⟩

/-- `readPair` makes a pair of a segment if it is a good one with that pair. -/
theorem readPair_eq_ok_iff : readPair p index segment = .ok pair ↔ IsPair p segment pair := by
  refine ⟨fun h => ?_, IsPair.readPair_eq⟩
  rcases exists_isPair_or_isFault p segment with ⟨pair', hpair⟩ | hfault
  · rw [hpair.readPair_eq] at h
    cases h
    exact hpair
  · obtain ⟨error, hfault⟩ := hfault index
    rw [hfault.readPair_eq] at h
    cases h

/-! ### All segments -/

/-- A part between the separators `sep` has none in it. -/
theorem not_mem_of_mem_splitOn {sep : Char} {part : List Char} (h : part ∈ cs.splitOn sep) : sep ∉ part := by
  induction cs generalizing part with
  | nil =>
    have hnil : part = [] := by simpa using h
    rw [hnil]
    exact List.not_mem_nil
  | cons c cs ih =>
    rw [List.splitOn_cons_eq_if_modifyHead] at h
    obtain ⟨first, rest, hparts⟩ := List.exists_cons_of_ne_nil (List.splitOn_ne_nil sep cs)
    rw [hparts] at h ih
    split at h
    · rcases List.mem_cons.1 h with rfl | h
      · exact List.not_mem_nil
      · exact ih h
    · next hc =>
      -- The character goes to the first part.
      rcases List.mem_cons.1 h with rfl | h
      · intro hmem
        rcases List.mem_cons.1 hmem with rfl | hmem
        · exact hc BEq.rfl
        · exact ih List.mem_cons_self hmem
      · exact ih (List.mem_cons_of_mem first h)

/-- The segments of `raw`: at least one, none with `','` in it, and `raw` is all of them with `','` between them. -/
structure IsSegments (raw : String) (segs : List (List Char)) : Prop where
  ne_nil : segs ≠ []
  no_comma : ∀ segment ∈ segs, ',' ∉ segment
  joined : [','].intercalate segs = raw.toList

theorem isSegments_iff {segs : List (List Char)} : IsSegments raw segs ↔ segments raw = segs := by
  unfold segments
  constructor
  · intro h
    rw [← h.joined]
    exact List.splitOn_intercalate ',' h.no_comma h.ne_nil
  · rintro rfl
    exact ⟨List.splitOn_ne_nil _ _, fun _ h => not_mem_of_mem_splitOn h, List.intercalate_splitOn ','⟩

/-- The segments up to the first fault: all are good, or those `before` a segment with a fault. -/
theorem exists_good_segments (p : Preferences.Binding) (segs : List (List Char)) :
    (∃ pairs, List.Forall₂ (IsPair p) segs pairs) ∨
      ∃ before segment behind pairs error, segs = before ++ segment :: behind ∧
        List.Forall₂ (IsPair p) before pairs ∧ IsFault p before.length segment error := by
  induction segs using List.reverseRecOn with
  | nil => exact .inl ⟨[], .nil⟩
  | append_singleton segs last ih =>
    rcases ih with ⟨pairs, hpairs⟩ | ⟨before, segment, behind, pairs, error, rfl, hpairs, hfault⟩
    · rcases exists_isPair_or_isFault p last with ⟨pair, hpair⟩ | hfault
      · exact .inl ⟨pairs ++ [pair], List.rel_append hpairs (.cons hpair .nil)⟩
      · obtain ⟨error, hfault⟩ := hfault segs.length
        exact .inr ⟨segs, last, [], pairs, error, rfl, hpairs, hfault⟩
    · exact .inr ⟨before, segment, behind ++ [last], pairs, error, by simp, hpairs, hfault⟩

/-- Good segments up to `Limits.bindings` are read as their pairs, and then the others are. -/
theorem readPairs_append {total : Nat} {before rest : List (List Char)} {pairs : List (String × Bool)}
    (hgood : List.Forall₂ (IsPair p) before pairs) (hfit : index + before.length ≤ Limits.bindings)
    (b : Bindings) :
    readPairs p total index (before ++ rest) b =
      readPairs p total (index + before.length) rest
        (pairs.foldl (fun b (name, value) => b.insert name value) b) := by
  induction hgood generalizing index b with
  | nil => rfl
  | @cons segment pair before pairs hpair _ ih =>
    obtain ⟨name, v⟩ := pair
    rw [List.length_cons] at hfit ⊢
    have hindex : ¬Limits.bindings ≤ index := by omega
    rw [List.cons_append, readPairs, if_neg hindex, hpair.readPair_eq]
    show readPairs p total (index + 1) (before ++ rest) (b.insert name v) = _
    rw [ih (by omega) (b.insert name v), List.foldl_cons, Nat.add_right_comm, Nat.add_assoc]

/-! ### The meaning of a parameter string -/

/-- The `values` bind exactly the names of the pairs, each to the value of its last pair. -/
structure LastWins (pairs : List (String × Bool)) (values : String → Option Bool) : Prop where
  isSome_iff : ∀ name, (values name).isSome = true ↔ name ∈ pairs.map Prod.fst
  isLast : ∀ name v, values name = some v → IsLast Prod.fst pairs (name, v)

/-- What a parameter string means: a value for each name it binds, or a failure. No two of these cases overlap. -/
inductive Meaning (p : Preferences.Binding) (raw : String) :
    Except BindingError (String → Option Bool) → Prop where
  /-- The string has more than `Limits.parameterString` bytes. -/
  | tooLong (hlong : Limits.parameterString < raw.utf8ByteSize) :
      Meaning p raw (.error (.parameterStringTooLong raw.utf8ByteSize))
  | empty (hempty : raw = "") : Meaning p raw (.ok fun _ => none)
  /-- The first segment with a fault stands among the first `Limits.bindings`, which are those that are read. -/
  | fault {before behind : List (List Char)} {segment : List Char} {pairs : List (String × Bool)}
      {error : BindingError} (hshort : raw.utf8ByteSize ≤ Limits.parameterString) (hne : raw ≠ "")
      (hsegments : IsSegments raw (before ++ segment :: behind))
      (hgood : List.Forall₂ (IsPair p) before pairs) (hread : before.length < Limits.bindings)
      (hfault : IsFault p before.length segment error) : Meaning p raw (.error error)
  /-- The first `Limits.bindings` segments are good, and there are more. -/
  | tooMany {before behind : List (List Char)} {pairs : List (String × Bool)}
      (hshort : raw.utf8ByteSize ≤ Limits.parameterString) (hne : raw ≠ "")
      (hsegments : IsSegments raw (before ++ behind)) (hgood : List.Forall₂ (IsPair p) before pairs)
      (hread : before.length = Limits.bindings) (hmore : behind ≠ []) :
      Meaning p raw (.error (.tooManyBindings (before ++ behind).length))
  | bound {segs : List (List Char)} {pairs : List (String × Bool)} {values : String → Option Bool}
      (hshort : raw.utf8ByteSize ≤ Limits.parameterString) (hne : raw ≠ "") (hsegments : IsSegments raw segs)
      (hgood : List.Forall₂ (IsPair p) segs pairs) (hread : segs.length ≤ Limits.bindings)
      (hvalues : LastWins pairs values) : Meaning p raw (.ok values)

/-- `Bindings.ofPairs` gives each name the value of its last pair. -/
theorem lastWins_ofPairs (pairs : List (String × Bool)) : LastWins pairs (Bindings.ofPairs pairs).get? := by
  refine ⟨fun name => ⟨fun h => ?_, fun h => ?_⟩, fun name v => Bindings.get?_ofPairs_eq_some_iff.1⟩
  · obtain ⟨v, hv⟩ := Option.isSome_iff_exists.1 h
    exact List.mem_map_of_mem (f := Prod.fst) (Bindings.get?_ofPairs_eq_some_iff.1 hv).mem
  · obtain ⟨⟨n, v⟩, rfl, hlast⟩ := exists_isLast h
    rw [Bindings.get?_ofPairs_eq_some_iff.2 hlast]
    rfl

/-- Only one assignment is `LastWins` for the `pairs`. -/
theorem LastWins.eq {pairs : List (String × Bool)} {values : String → Option Bool}
    (h : LastWins pairs values) : values = (Bindings.ofPairs pairs).get? := by
  funext name
  cases hname : values name with
  | some v => exact (Bindings.get?_ofPairs_eq_some_iff.2 (h.isLast name v hname)).symm
  | none =>
    have hfree : name ∉ pairs.map Prod.fst := by
      rw [← h.isSome_iff, hname]
      exact Bool.false_ne_true
    rw [← (lastWins_ofPairs pairs).isSome_iff] at hfree
    exact (Option.not_isSome_iff_eq_none.1 hfree).symm

/-- What is read of a string that is not too long and not `""`. -/
theorem read_of_segments {segs : List (List Char)} (hshort : raw.utf8ByteSize ≤ Limits.parameterString)
    (hne : raw ≠ "") (hsegments : IsSegments raw segs) :
    read p raw = readPairs p segs.length 0 segs .empty := by
  unfold read
  rw [isSegments_iff.1 hsegments]
  simp only [if_neg (Nat.not_lt.2 hshort), String.isEmpty_iff, if_neg hne]

/-- `bind` gives what the string means. -/
theorem value_of_meaning {meaning : Except BindingError (String → Option Bool)} (h : Meaning p raw meaning) :
    (bind p raw).value.map Bindings.get? = meaning := by
  have hvalue : (bind p raw).value = read p raw := by
    unfold bind
    cases read p raw <;> rfl
  rw [hvalue]
  -- In each case the reader goes over the good segments first (`readPairs_append`), and then stops or ends.
  cases h with
  | tooLong hlong =>
    unfold read
    simp only [if_pos hlong]
    rfl
  | empty hempty =>
    rw [hempty]
    rfl
  | @fault before behind segment pairs error hshort hne hsegments hgood hread hfault =>
    rw [read_of_segments hshort hne hsegments, readPairs_append hgood (by omega), Nat.zero_add, readPairs,
      if_neg (Nat.not_le.2 hread), hfault.readPair_eq]
    rfl
  -- The limit is looked at before the segment, so a fault in that segment is not reported.
  | @tooMany before behind pairs hshort hne hsegments hgood hread hmore =>
    obtain ⟨segment, rest, rfl⟩ := List.exists_cons_of_ne_nil hmore
    rw [read_of_segments hshort hne hsegments, readPairs_append hgood (by omega), Nat.zero_add, readPairs,
      if_pos (Nat.le_of_eq hread.symm)]
    rfl
  | @bound segs pairs values hshort hne hsegments hgood hread hvalues =>
    have hall : readPairs p segs.length 0 (segs ++ []) .empty = _ := readPairs_append hgood (by omega) .empty
    rw [List.append_nil] at hall
    rw [read_of_segments hshort hne hsegments, hall, hvalues.eq]
    rfl

/-- A string that means `values` has bindings of them. -/
theorem Meaning.exists_bind {values : String → Option Bool} (h : Meaning p raw (.ok values)) :
    ∃ b, (bind p raw).value = .ok b ∧ b.get? = values := by
  have hvalue := value_of_meaning h
  cases hbind : (bind p raw).value with
  | error e =>
    rw [hbind] at hvalue
    cases hvalue
  | ok b =>
    rw [hbind] at hvalue
    exact ⟨b, rfl, Except.ok.inj hvalue⟩

/-- Every parameter string has a `Meaning`. -/
theorem exists_meaning (p : Preferences.Binding) (raw : String) : ∃ meaning, Meaning p raw meaning := by
  by_cases hlong : Limits.parameterString < raw.utf8ByteSize
  · exact ⟨_, .tooLong hlong⟩
  by_cases hempty : raw = ""
  · exact ⟨_, .empty hempty⟩
  have hshort := Nat.not_lt.1 hlong
  have hsegments : IsSegments raw (segments raw) := isSegments_iff.2 rfl
  generalize segments raw = segs at hsegments
  -- Only the segments up to the bound are read.
  rw [← List.take_append_drop Limits.bindings segs] at hsegments
  have hlength := List.length_take (i := Limits.bindings) (l := segs)
  rcases exists_good_segments p (segs.take Limits.bindings) with
    ⟨pairs, hgood⟩ | ⟨before, segment, behind, pairs, error, hsplit, hgood, hfault⟩
  · by_cases hmore : segs.drop Limits.bindings = []
    · rw [hmore, List.append_nil] at hsegments
      exact ⟨_, .bound hshort hempty hsegments hgood (by omega) (lastWins_ofPairs pairs)⟩
    · have hdrop := List.length_pos_of_ne_nil hmore
      rw [List.length_drop] at hdrop
      exact ⟨_, .tooMany hshort hempty hsegments hgood (by omega) hmore⟩
  · rw [hsplit, List.length_append, List.length_cons] at hlength
    rw [hsplit, List.append_assoc, List.cons_append] at hsegments
    exact ⟨_, .fault hshort hempty hsegments hgood (by omega) hfault⟩

end Parameters

/-- **Parameter strings.** The result of `bind`, taken as a function from names to values, is `r` if and only if `r`
is the `Parameters.Meaning` of `raw`. So a string has one meaning, and binding gives it. -/
theorem bind_eq_iff_meaning (p : Preferences.Binding) (raw : String)
    (r : Except BindingError (String → Option Bool)) :
    (bind p raw).value.map Bindings.get? = r ↔ Parameters.Meaning p raw r := by
  constructor
  · rintro rfl
    obtain ⟨meaning, h⟩ := Parameters.exists_meaning p raw
    rw [Parameters.value_of_meaning h]
    exact h
  · exact Parameters.value_of_meaning

end BoolCalc
