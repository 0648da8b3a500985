import BoolCalc.Proofs.Token.ErrorSpans
import BoolCalc.Proofs.Token.Failures
import Mathlib.Algebra.GroupWithZero.Nat

namespace BoolCalc

/-!
# Tallies of tokens

* `TokenStream.entry`, `Counts`, `TokenStream.counts_kindCounts` : the counts of a stream have one entry for each kind
  of token that occurs, which says how often it does;
* `LexMetrics.Tallies`, `LexMetrics.tallies_ofTokens` : what the tallies of a lexer say of the tokens it recognised;
* `LexMetrics.AgreesWith` : the tallies of a lexer agree with a stream and its counts;
* `Lexer.tokenize_before_failure` : the text before a failure has tokens, and their tallies are those of the failure;
* `Lexer.metrics_tokenize` : **tallies**, what they are after a text, whatever the lexer read before.
-/

/-! ### Counts of a stream -/

namespace TokenStream

variable {counts : List (String × Nat)} {kinds : List String} {kind : String}

/-- The count of a `kind`, 0 if it has none. -/
def entry (kind : String) (counts : List (String × Nat)) : Nat := (counts.lookup kind).getD 0

theorem entry_cons (k kind : String) (n : Nat) (counts : List (String × Nat)) :
    entry k ((kind, n) :: counts) = if k = kind then n else entry k counts := by
  rw [entry, List.lookup_cons]
  by_cases h : k = kind
  · rw [if_pos h, beq_iff_eq.2 h]
    rfl
  · rw [if_neg h, beq_eq_false_iff_ne.2 h]
    rfl

/-- `countKind kind` raises the count of `kind` by one. -/
theorem entry_countKind (k kind : String) (counts : List (String × Nat)) :
    entry k (countKind kind counts) = entry k counts + if k = kind then 1 else 0 := by
  induction counts with
  | nil => rw [countKind, entry_cons]; split <;> rfl
  | cons first counts ih =>
    obtain ⟨k', n⟩ := first
    rw [countKind]
    by_cases hkind : k' = kind
    · subst hkind
      rw [if_pos rfl, entry_cons, entry_cons]
      split <;> rfl
    · rw [if_neg hkind, entry_cons, entry_cons, ih]
      by_cases hk : k = k'
      · rw [if_pos hk, if_pos hk, if_neg (hk ▸ hkind)]
        rfl
      · rw [if_neg hk, if_neg hk]

/-- `countKind` raises the sum of the counts by one. -/
theorem sum_countKind (kind : String) (counts : List (String × Nat)) :
    ((countKind kind counts).map Prod.snd).sum = (counts.map Prod.snd).sum + 1 := by
  induction counts with
  | nil => rfl
  | cons first counts ih =>
    rw [countKind]
    split
    · simp only [List.map_cons, List.sum_cons]
      omega
    · simp only [List.map_cons, List.sum_cons, ih]
      omega

theorem mem_countKind {k : String} (h : k ∈ (countKind kind counts).map Prod.fst) :
    k = kind ∨ k ∈ counts.map Prod.fst := by
  induction counts with
  | nil => exact .inl (List.mem_singleton.1 h)
  | cons first counts ih =>
    rw [countKind] at h
    split at h
    · exact .inr h
    · rcases List.mem_cons.1 h with rfl | h
      · exact .inr List.mem_cons_self
      · exact (ih h).imp_right (List.mem_cons_of_mem _)

/-- `countKind` gives no kind a second count. -/
theorem nodup_countKind (h : (counts.map Prod.fst).Nodup) : ((countKind kind counts).map Prod.fst).Nodup := by
  induction counts with
  | nil => exact List.pairwise_singleton _ kind
  | cons first counts ih =>
    obtain ⟨hfirst, hothers⟩ := List.nodup_cons.1 h
    rw [countKind]
    split
    · exact h
    · next hkind =>
      refine List.nodup_cons.2 ⟨fun hmem => ?_, ih hothers⟩
      rcases mem_countKind hmem with heq | hmem
      · exact hkind heq
      · exact hfirst hmem

/-- The `counts` say of the `kinds`, one for each token, how often they occur. -/
structure Counts (kinds : List String) (counts : List (String × Nat)) : Prop where
  nodup : (counts.map Prod.fst).Nodup
  entry_eq : ∀ kind, entry kind counts = kinds.count kind
  sum_eq : (counts.map Prod.snd).sum = kinds.length

/-- `countKind` for one more token. -/
theorem Counts.concat (h : Counts kinds counts) (kind : String) : Counts (kinds ++ [kind]) (countKind kind counts) where
  nodup := nodup_countKind h.nodup
  entry_eq := by
    intro k
    rw [entry_countKind, h.entry_eq, List.count_append, List.count_singleton]
    simp only [beq_iff_eq, @eq_comm _ kind k]
  sum_eq := by rw [sum_countKind, h.sum_eq, List.length_append, List.length_singleton]

/-- `s.kindCounts` are the counts of the kinds of `s.body`. -/
theorem counts_kindCounts (s : TokenStream) : Counts (s.body.map fun t => t.value.kind) s.kindCounts := by
  rw [kindCounts]
  -- Tokens are counted from the left, so that the induction takes away the last one.
  induction s.body using List.reverseRecOn with
  | nil => exact ⟨.nil, fun _ => rfl, rfl⟩
  | append_singleton ts t ih =>
    rw [List.foldl_append, List.map_append]
    exact ih.concat t.value.kind

end TokenStream

/-! ### Tallies of a lexer -/

/-- `length` is that of the longest identifier among `ts`, in bytes, and 0 if there is none. -/
structure IsLongest (length : Nat) (ts : List Token) : Prop where
  le : ∀ name, .identifier name ∈ ts → name.utf8ByteSize ≤ length
  attained : (∃ name, .identifier name ∈ ts ∧ name.utf8ByteSize = length) ∨
    (∀ name, .identifier name ∉ ts) ∧ length = 0

namespace IsLongest

variable {length : Nat} {ts : List Token}

/-- `max length name.utf8ByteSize` is the longest with one more identifier. -/
theorem identifier (h : IsLongest length ts) (name : String) :
    IsLongest (max length name.utf8ByteSize) (ts ++ [.identifier name]) where
  le := by
    intro other hother
    rcases List.mem_append.1 hother with hmem | hmem
    · exact Nat.le_trans (h.le other hmem) (Nat.le_max_left _ _)
    · obtain rfl := Token.identifier.inj (List.mem_singleton.1 hmem)
      exact Nat.le_max_right _ _
  attained := by
    left
    rcases Nat.le_total name.utf8ByteSize length with hle | hle
    · rw [Nat.max_eq_left hle]
      rcases h.attained with ⟨other, hother, hlength⟩ | ⟨-, rfl⟩
      · exact ⟨other, List.mem_append_left _ hother, hlength⟩
      · exact ⟨name, List.mem_append_right _ (List.mem_singleton.2 rfl), Nat.le_zero.1 hle⟩
    · rw [Nat.max_eq_right hle]
      exact ⟨name, List.mem_append_right _ (List.mem_singleton.2 rfl), rfl⟩

/-- A token that is no `.identifier` does not matter. -/
theorem other (h : IsLongest length ts) {t : Token} (ht : ∀ name, t ≠ .identifier name) :
    IsLongest length (ts ++ [t]) := by
  have hmem (name : String) : .identifier name ∈ ts ++ [t] ↔ .identifier name ∈ ts := by
    rw [List.mem_append, List.mem_singleton, or_iff_left fun heq => ht name heq.symm]
  constructor <;> simp only [hmem]
  · exact h.le
  · exact h.attained

end IsLongest

namespace LexMetrics

variable {m : LexMetrics} {ts : List Token}

/-- How many of the tokens are of a `kind`. -/
def ofKind (ts : List Token) (kind : String) : Nat := (ts.map Token.kind).count kind

theorem ofKind_concat (ts : List Token) (t : Token) (kind : String) :
    ofKind (ts ++ [t]) kind = ofKind ts kind + if t.kind = kind then 1 else 0 := by
  rw [ofKind, List.map_append, List.count_append, List.map_singleton, List.count_singleton]
  simp only [beq_iff_eq]
  rfl

/-- The tallies `m` are those of the tokens `ts`. -/
structure Tallies (m : LexMetrics) (ts : List Token) : Prop where
  total : m.total = ts.length
  identifiers : m.identifiers = ofKind ts "IDENTIFIER"
  connectives : m.connectives = ofKind ts "AND" + ofKind ts "OR" + ofKind ts "NOT"
  literals : m.literals = ofKind ts "BOOLEAN_LITERAL"
  parens : m.parens = ofKind ts "LPAREN" + ofKind ts "RPAREN"
  others : m.total =
    m.identifiers + m.connectives + m.literals + m.parens + ofKind ts "RESERVED_OPERATOR" + ofKind ts "EOF"
  longest : IsLongest m.longestIdentifier ts

theorem tallies_nil : Tallies {} [] :=
  ⟨rfl, rfl, rfl, rfl, rfl, rfl, nofun, .inr ⟨nofun, rfl⟩⟩

/-- **One more token** is tallied by `record`. -/
theorem Tallies.record (h : Tallies m ts) (t : Token) : Tallies (m.record t) (ts ++ [t]) := by
  obtain ⟨htotal, hidentifiers, hconnectives, hliterals, hparens, hothers, hlongest⟩ := h
  constructor
  case longest =>
    cases t with
    | identifier name => exact hlongest.identifier name
    | _ => exact hlongest.other nofun
  all_goals
    cases t <;> simp [LexMetrics.record, ofKind_concat, Token.kind] <;> omega

/-- `ofTokens` has the tallies of the tokens. -/
theorem tallies_ofTokens (ts : List (Spanned Token)) : Tallies (ofTokens ts) (ts.map Spanned.value) := by
  induction ts using List.reverseRecOn with
  | nil => exact tallies_nil
  | append_singleton ts t ih =>
    rw [ofTokens, List.foldl_append, List.map_append]
    exact ih.record t.value

open TokenStream (entry Counts)

/-- The tallies `m` agree with the stream `s` and its `kindCounts`. -/
structure AgreesWith (m : LexMetrics) (s : TokenStream) : Prop where
  total : m.total = s.length
  identifiers : m.identifiers = entry "IDENTIFIER" s.kindCounts
  connectives : m.connectives = entry "AND" s.kindCounts + entry "OR" s.kindCounts + entry "NOT" s.kindCounts
  literals : m.literals = entry "BOOLEAN_LITERAL" s.kindCounts
  parens : m.parens = entry "LPAREN" s.kindCounts + entry "RPAREN" s.kindCounts
  reserved : m.total =
    m.identifiers + m.connectives + m.literals + m.parens + entry "RESERVED_OPERATOR" s.kindCounts
  kinds_nodup : (s.kindCounts.map Prod.fst).Nodup
  sum_counts : (s.kindCounts.map Prod.snd).sum = s.length
  longest : IsLongest m.longestIdentifier (s.body.map Spanned.value)

/-- `Tallies` of the tokens of `s` agree with `s`, if none of these is an end of input. -/
theorem Tallies.agreesWith {s : TokenStream} (h : Tallies m (s.body.map Spanned.value))
    (hend : .endOfInput ∉ s.body.map Spanned.value) : AgreesWith m s := by
  have hcounts := s.counts_kindCounts
  have hentry (kind : String) : ofKind (s.body.map Spanned.value) kind = entry kind s.kindCounts := by
    rw [hcounts.entry_eq, ofKind, List.map_map]
    rfl
  -- Only the kind of an end of input is written so.
  have hnoEnd : ofKind (s.body.map Spanned.value) "EOF" = 0 := by
    refine List.count_eq_zero.2 fun hmem => ?_
    obtain ⟨t, ht, hkind⟩ := List.mem_map.1 hmem
    cases t with
    | endOfInput => exact hend ht
    | _ => simp [Token.kind] at hkind
  have hothers := h.others
  rw [hnoEnd, Nat.add_zero] at hothers
  simp only [hentry] at hothers
  constructor
  case total => rw [h.total, List.length_map, TokenStream.length]
  case identifiers => rw [h.identifiers, hentry]
  case connectives => rw [h.connectives, hentry, hentry, hentry]
  case literals => rw [h.literals, hentry]
  case parens => rw [h.parens, hentry, hentry]
  case reserved => exact hothers
  case kinds_nodup => exact hcounts.nodup
  case sum_counts => rw [hcounts.sum_eq, List.length_map, TokenStream.length]
  case longest => exact h.longest

end LexMetrics

/-! ### Tallies of a text -/

theorem LexFault.offset_toError (fault : LexFault) (c : Char) (p : Position) :
    (fault.toError c p).offset = p.offset := by
  cases fault <;> rfl

namespace Lexer

/-- What `l.tokenize` comes to, with the lexer it leaves: the tallies are those of `scan`, and none for a text that
is too long. -/
theorem tokenize_value (l : Lexer) (text : String) : (l.tokenize text).value =
    if Limits.expression < text.utf8ByteSize then
      (.error (.expressionTooLong text.utf8ByteSize), { l with metrics := {} })
    else
      ((scan l.preferences.acceptBang 0 .start text.toList).result,
        { l with metrics := .ofTokens (scan l.preferences.acceptBang 0 .start text.toList).tokens }) := by
  unfold tokenize Scan.result
  dsimp only
  split
  · rfl
  · cases (scan l.preferences.acceptBang 0 .start text.toList).ending <;> rfl

/-- **Before a failure.** If `scan` fails, the text before the place has tokens, and the tallies behind it are the
same. -/
theorem tokenize_before_failure (l : Lexer) {text : String} {f : LexFailure}
    (hshort : text.utf8ByteSize ≤ Limits.expression)
    (h : (scan l.preferences.acceptBang 0 .start text.toList).ending = .error f) :
    ∃ before s, Text.cutBytes? f.error.offset text.toList = some before ∧
      (l.tokenize (String.ofList before)).value =
        (.ok s, { l with metrics := .ofTokens (scan l.preferences.acceptBang 0 .start text.toList).tokens }) := by
  -- The scan stops in front of `c`, and on `before` alone it gives the same tokens.
  obtain ⟨before, c, behind, htext, -, hbefore, hfailure⟩ := exists_stop_of_scan h (Nat.zero_le _)
  have hoffset : f.error.offset = Text.byteLength before := by
    rw [← Position.offset_start_advanceOver]
    rcases hfailure with ⟨-, herror⟩ | ⟨-, fault, -, herror⟩
    · rw [herror]
      rfl
    · rw [herror, fault.offset_toError]
  have hbytes : Text.byteLength before ≤ Limits.expression := by
    rw [← Text.byteLength_toList, htext, Text.byteLength_append] at hshort
    omega
  refine ⟨before,
    { body := (scan l.preferences.acceptBang 0 .start text.toList).tokens,
      final := .point (Position.start.advanceOver before) }, ?_, ?_⟩
  · rw [hoffset, htext]
    exact Text.cutBytes?_append
  · rw [tokenize_value, ← Text.byteLength_toList, String.toList_ofList, if_neg (Nat.not_lt.2 hbytes), hbefore]
    rfl

/-- **Tallies.** What `l.tokenize text` leaves, whatever `l` has read before:
* if `text` has tokens, the tallies agree with their stream (`AgreesWith`);
* if `text` is too long, there are none;
* otherwise they are those of the text before the failure, which a new lexer reads to its end. -/
theorem metrics_tokenize (l : Lexer) (text : String) :
    match (l.tokenize text).value with
    | (.ok s, after) => after.metrics.AgreesWith s
    | (.error (.expressionTooLong _), after) => after.metrics = {}
    | (.error e, after) => ∃ before s, Text.cutBytes? e.offset text.toList = some before ∧
        (Lexer.tokenize { preferences := l.preferences } (String.ofList before)).value = (.ok s, after) := by
  by_cases hlong : Limits.expression < text.utf8ByteSize
  · rw [tokenize_value, if_pos hlong]
  · rw [tokenize_value, if_neg hlong]
    cases hending : (scan l.preferences.acceptBang 0 .start text.toList).ending with
    | ok q =>
      rw [Scan.result_eq_ok_iff.2 ⟨q, hending, rfl⟩]
      exact LexMetrics.Tallies.agreesWith (LexMetrics.tallies_ofTokens _) fun hmem =>
        (lexes_of_scan hending).ne_endOfInput hmem rfl
    | error f =>
      have hbefore := tokenize_before_failure { preferences := l.preferences } (Nat.le_of_not_lt hlong) hending
      have hresult : (scan l.preferences.acceptBang 0 .start text.toList).result = .error f.error := by
        rw [Scan.result, hending]
      rw [hresult]
      cases herror : f.error with
      -- The scan itself never answers `expressionTooLong`: this was decided before it began.
      | expressionTooLong n => exact absurd herror ((sound_of_scan hending).inText n)
      | _ =>
        rw [herror] at hbefore
        exact hbefore

end Lexer

end BoolCalc
