import BoolCalc.Proofs.Token.KeywordCase

namespace BoolCalc

/-!
# What normalization changes

* `IsWholeWord`, `InKeyword` : the whole words of some characters, and the characters of keywords among them;
* `SameButKeywords` : characters that are the same up to the case of letters inside keywords, place by place;
* `inKeyword_append_iff` : at the edge of a word, what is in front does not matter to the keywords behind;
* `inKeyword_lowerAscii` : the places of keywords do not depend on the case of letters;
* `Recased.sameButKeywords`, `SameButKeywords.recased` : to be the same place by place and to be the same word by word
  is the same;
* `changeCount_eq_zero_iff` : no word is counted as changed if nothing is changed;
* `normalize_sameButKeywords` : **normalization**, what it changes, and which texts it makes the same.

The case of letters does not matter to the edges of words. So the keywords of two such texts are at the same places, and
the relation is an equivalence although it looks at the places in one of the texts only.
-/

variable {cs ds before word behind front rest : List Char} {c : Char} {i : Nat}

/-! ### Keywords and their places -/

/-- `word` is a longest run of word characters, between `before` and `behind`. -/
structure IsWholeWord (before word behind : List Char) : Prop where
  chars : ∀ c ∈ word, Text.isWordChar c = true
  starts : ∀ c ∈ before.getLast?, Text.isWordChar c = false
  ends : EndsWord behind

/-- The `i`-th of the characters belongs to a whole word that is a keyword, in any case of its letters. -/
def InKeyword (cs : List Char) (i : Nat) : Prop :=
  ∃ before word behind, cs = before ++ word ++ behind ∧ IsWholeWord before word behind ∧
    (∃ k : Keyword, Text.sameLetters k.canonical.toList word = true) ∧
    before.length ≤ i ∧ i < before.length + word.length

/-- `cs` and `ds` are the same up to the case of ASCII letters inside whole words that are keywords. -/
structure SameButKeywords (cs ds : List Char) : Prop where
  letters : Text.lowerAscii cs = Text.lowerAscii ds
  outside : ∀ i, ¬InKeyword cs i → cs[i]? = ds[i]?

/-! ### The edges of words -/

/-- No word goes on from `front` to `cs`. -/
def IsEdge (front cs : List Char) : Prop :=
  EndsWord cs ∨ ∀ c ∈ front.getLast?, Text.isWordChar c = false

/-- Word characters on both sides of an edge do not belong together: `inside` or `more` is empty. -/
theorem IsEdge.eq_nil {inside more : List Char} (h : IsEdge (before ++ inside) (more ++ behind))
    (hchars : ∀ c ∈ inside ++ more, Text.isWordChar c = true) : inside = [] ∨ more = [] := by
  obtain ⟨hinside, hmore⟩ := List.forall_mem_append.1 hchars
  rcases h with hends | hlast
  · by_contra hne
    exact not_endsWord_append (fun hnil => hne (.inr hnil)) hmore hends
  · left
    by_contra hne
    rw [List.getLast?_append_of_ne_nil before hne] at hlast
    have hword := hinside _ (List.getLast_mem hne)
    exact Bool.false_ne_true ((hlast _ (List.getLast?_eq_some_getLast hne)).symm.trans hword)

/-- Behind a sign `c` there is an edge. -/
theorem isEdge_sign (hc : Text.isWordChar c = false) : IsEdge [c] cs := by
  right
  rintro _ ⟨⟩
  exact hc

theorem not_inKeyword_of_sign (hc : Text.isWordChar c = false) : ¬InKeyword (c :: cs) 0 := by
  rintro ⟨before, word, behind, hcs, hwhole, -, hlow, hhigh⟩
  obtain rfl := List.length_eq_zero_iff.1 (Nat.le_zero.1 hlow)
  rw [List.length_nil, Nat.zero_add] at hhigh
  obtain ⟨d, more, rfl⟩ := List.exists_cons_of_length_pos hhigh
  obtain ⟨rfl, -⟩ := List.cons.inj hcs
  exact Bool.false_ne_true (hc.symm.trans (hwhole.chars c List.mem_cons_self))

/-- The keywords behind an edge do not depend on what is in `front` of it. -/
theorem inKeyword_append_iff (hedge : IsEdge front cs) :
    InKeyword (front ++ cs) (front.length + i) ↔ InKeyword cs i := by
  constructor
  · rintro ⟨before, word, behind, hsplit, ⟨hchars, hstarts, hends⟩, hkeyword, hlow, hhigh⟩
    rw [List.append_assoc, List.append_eq_append_iff] at hsplit
    rcases hsplit with ⟨gap, rfl, rfl⟩ | ⟨inside, rfl, hword⟩
    · -- The word stands behind the edge.
      rw [List.length_append] at hlow hhigh
      have hgap : ∀ c ∈ gap.getLast?, Text.isWordChar c = false := fun c hc =>
        hstarts c (List.mem_getLast?_append_of_mem_getLast? hc)
      have hwhole : IsWholeWord gap word behind := ⟨hchars, hgap, hends⟩
      exact ⟨gap, word, behind, (List.append_assoc _ _ _).symm, hwhole, hkeyword, by omega, by omega⟩
    · -- The word starts right at the edge: from in front of it, it could not go on behind it.
      rw [List.length_append] at hhigh
      rcases List.append_eq_append_iff.1 hword with ⟨beyond, rfl, -⟩ | ⟨more, rfl, rfl⟩
      · rw [List.length_append] at hhigh
        omega
      · rw [List.length_append] at hhigh
        rcases hedge.eq_nil hchars with rfl | rfl
        · have hwhole : IsWholeWord [] more behind := ⟨hchars, nofun, hends⟩
          exact ⟨[], more, behind, rfl, hwhole, hkeyword, Nat.zero_le i, by simpa using hhigh⟩
        · rw [List.length_nil] at hhigh
          omega
  · -- The word is whole with `front` before it, too: if it starts at the edge, no word goes on across it.
    rintro ⟨before, word, behind, rfl, ⟨hchars, hstarts, hends⟩, hkeyword, hlow, hhigh⟩
    have hne : word ≠ [] := by
      rintro rfl
      rw [List.length_nil] at hhigh
      omega
    have hlast : ∀ c ∈ (front ++ before).getLast?, Text.isWordChar c = false := by
      by_cases hbefore : before = []
      · subst hbefore
        rw [List.append_nil]
        exact hedge.resolve_left (not_endsWord_append hne hchars)
      · rwa [List.getLast?_append_of_ne_nil front hbefore]
    have hwhole : IsWholeWord (front ++ before) word behind := ⟨hchars, hlast, hends⟩
    refine ⟨front ++ before, word, behind, by simp, hwhole, hkeyword, ?_, ?_⟩
    · rw [List.length_append]
      omega
    · rw [List.length_append]
      omega

/-- The characters of a word in front are `InKeyword` if the word is a keyword. -/
theorem inKeyword_word_iff (hword : ∀ c ∈ word, Text.isWordChar c = true) (hends : EndsWord rest)
    (hi : i < word.length) :
    InKeyword (word ++ rest) i ↔ ∃ k : Keyword, Text.sameLetters k.canonical.toList word = true := by
  constructor
  · rintro ⟨before, word', behind, hsplit, hwhole, hkeyword, hlow, -⟩
    have hbefore : before = [] := by
      -- Otherwise its last character would belong to the word in front.
      by_contra hne
      have hprefix : before <+: word := by
        refine List.prefix_of_prefix_length_le ?_ (List.prefix_append word rest) (by omega)
        rw [hsplit, List.append_assoc]
        exact List.prefix_append before _
      have hlast := hwhole.starts _ (List.getLast?_eq_some_getLast hne)
      have hmem := hprefix.subset (List.getLast_mem hne)
      exact Bool.false_ne_true (hlast.symm.trans (hword _ hmem))
    subst hbefore
    have hrun : (word ++ rest).takeWhile Text.isWordChar = word := Text.takeWhile_run hword hends
    rw [hsplit, List.nil_append, Text.takeWhile_run hwhole.chars hwhole.ends] at hrun
    rwa [← hrun]
  · intro hkeyword
    have hwhole : IsWholeWord [] word rest := ⟨hword, nofun, hends⟩
    exact ⟨[], word, rest, rfl, hwhole, hkeyword, Nat.zero_le i, by simpa using hi⟩

/-! ### The case of letters -/

theorem isWholeWord_lowerAscii :
    IsWholeWord (Text.lowerAscii before) (Text.lowerAscii word) (Text.lowerAscii behind) ↔
      IsWholeWord before word behind := by
  have hchars : (∀ c ∈ Text.lowerAscii word, Text.isWordChar c = true) ↔ ∀ c ∈ word, Text.isWordChar c = true := by
    simp [Text.lowerAscii, Text.isWordChar_toLower]
  have hstarts : (∀ c ∈ (Text.lowerAscii before).getLast?, Text.isWordChar c = false) ↔
      ∀ c ∈ before.getLast?, Text.isWordChar c = false := by
    simp [Text.lowerAscii, Text.isWordChar_toLower]
  have hends : EndsWord (Text.lowerAscii behind) ↔ EndsWord behind := by
    simp [EndsWord, Text.lowerAscii, Text.isWordChar_toLower]
  constructor
  · intro h
    exact ⟨hchars.1 h.chars, hstarts.1 h.starts, hends.1 h.ends⟩
  · intro h
    exact ⟨hchars.2 h.chars, hstarts.2 h.starts, hends.2 h.ends⟩

/-- `InKeyword` does not depend on the case of letters. -/
theorem inKeyword_lowerAscii : InKeyword (Text.lowerAscii cs) i ↔ InKeyword cs i := by
  have hsame (k : Keyword) (word : List Char) :
      Text.sameLetters k.canonical.toList (Text.lowerAscii word) = Text.sameLetters k.canonical.toList word := by
    rw [Text.sameLetters, Text.sameLetters, Text.lowerAscii_lowerAscii]
  have hlength (cs : List Char) : (Text.lowerAscii cs).length = cs.length := List.length_map _
  constructor
  · rintro ⟨_, _, _, hsplit, hwhole, ⟨k, hk⟩, hlow, hhigh⟩
    obtain ⟨front, behind, rfl, hfront, rfl⟩ := List.map_eq_append_iff.1 hsplit
    obtain ⟨before, word, rfl, rfl, rfl⟩ := List.map_eq_append_iff.1 hfront
    change IsWholeWord (Text.lowerAscii before) (Text.lowerAscii word) (Text.lowerAscii behind) at hwhole
    rw [List.length_map] at hlow hhigh
    rw [List.length_map] at hhigh
    exact ⟨before, word, behind, rfl, isWholeWord_lowerAscii.1 hwhole, ⟨k, (hsame k word).symm.trans hk⟩, hlow, hhigh⟩
  · rintro ⟨before, word, behind, rfl, hwhole, ⟨k, hk⟩, hlow, hhigh⟩
    refine ⟨Text.lowerAscii before, Text.lowerAscii word, Text.lowerAscii behind, ?_,
      isWholeWord_lowerAscii.2 hwhole, ⟨k, (hsame k word).trans hk⟩, ?_, ?_⟩
    · simp [Text.lowerAscii]
    · rwa [hlength]
    · rwa [hlength, hlength]

namespace SameButKeywords

variable {es : List Char}

/-- If `SameButKeywords`, both have their keywords at the same places. -/
theorem inKeyword_iff (h : SameButKeywords cs ds) : InKeyword cs i ↔ InKeyword ds i := by
  rw [← inKeyword_lowerAscii, h.letters, inKeyword_lowerAscii]

theorem symm (h : SameButKeywords cs ds) : SameButKeywords ds cs where
  letters := h.letters.symm
  outside i hi := (h.outside i (mt h.inKeyword_iff.1 hi)).symm

theorem trans (h : SameButKeywords cs ds) (h' : SameButKeywords ds es) : SameButKeywords cs es where
  letters := h.letters.trans h'.letters
  outside i hi := (h.outside i hi).trans (h'.outside i (mt h.inKeyword_iff.2 hi))

end SameButKeywords

/-! ### Word by word -/

/-- With an edge between `v` and `cs`, `SameButKeywords` splits into the part in front and the part behind. -/
theorem sameButKeywords_append_iff {v w : List Char} (hlength : v.length = w.length) (hedge : IsEdge v cs) :
    SameButKeywords (v ++ cs) (w ++ ds) ↔
      (Text.lowerAscii v = Text.lowerAscii w ∧ ∀ i < v.length, ¬InKeyword (v ++ cs) i → v[i]? = w[i]?) ∧
        SameButKeywords cs ds := by
  have hlower (v cs : List Char) : Text.lowerAscii (v ++ cs) = Text.lowerAscii v ++ Text.lowerAscii cs :=
    List.map_append
  -- The characters in front of the edge and behind it, found by their index in the whole.
  have hfront {i : Nat} (hi : i < v.length) : (v ++ cs)[i]? = v[i]? ∧ (w ++ ds)[i]? = w[i]? :=
    ⟨List.getElem?_append_left hi, List.getElem?_append_left (hlength ▸ hi)⟩
  have hbehind (i : Nat) : (v ++ cs)[v.length + i]? = cs[i]? ∧ (w ++ ds)[v.length + i]? = ds[i]? := by
    refine ⟨?_, ?_⟩
    · rw [List.getElem?_append_right (Nat.le_add_right _ _), Nat.add_sub_cancel_left]
    · rw [hlength, List.getElem?_append_right (Nat.le_add_right _ _), Nat.add_sub_cancel_left]
  constructor
  · rintro ⟨hletters, houtside⟩
    rw [hlower, hlower] at hletters
    obtain ⟨hv, hcs⟩ := List.append_inj hletters (by simpa [Text.lowerAscii] using hlength)
    refine ⟨⟨hv, fun i hi hnot => ?_⟩, hcs, fun i hnot => ?_⟩
    · rw [← (hfront hi).1, ← (hfront hi).2]
      exact houtside i hnot
    · rw [← (hbehind i).1, ← (hbehind i).2]
      -- Behind the edge, keywords are the same with `v` in front and without.
      exact houtside _ (mt (inKeyword_append_iff hedge).1 hnot)
  · rintro ⟨⟨hv, houtside⟩, hrest⟩
    refine ⟨by rw [hlower, hlower, hv, hrest.letters], fun i hnot => ?_⟩
    rcases Nat.lt_or_ge i v.length with hi | hi
    · rw [(hfront hi).1, (hfront hi).2]
      exact houtside i hi hnot
    · obtain ⟨i, rfl⟩ := Nat.exists_eq_add_of_le hi
      rw [(hbehind i).1, (hbehind i).2]
      exact hrest.outside i (mt (inKeyword_append_iff hedge).2 hnot)

/-- If `SameButKeywords`, both can be cut at the same places. -/
theorem SameButKeywords.exists_append {v : List Char} (h : SameButKeywords (v ++ cs) ds) :
    ∃ w rest, ds = w ++ rest ∧ v.length = w.length := by
  have hlength := congrArg List.length h.letters
  simp only [Text.lowerAscii, List.length_map, List.length_append] at hlength
  refine ⟨ds.take v.length, ds.drop v.length, (List.take_append_drop _ _).symm, ?_⟩
  rw [List.length_take]
  omega

/-- `Recased`, which goes word by word, implies `SameButKeywords`. -/
theorem Recased.sameButKeywords (h : Recased cs ds) : SameButKeywords cs ds := by
  induction h with
  | nil => exact ⟨rfl, fun _ _ => rfl⟩
  | sign hc _ ih => exact (sameButKeywords_append_iff rfl (isEdge_sign hc)).2 ⟨⟨rfl, fun _ _ _ => rfl⟩, ih⟩
  | word _ _ hends _ ih => exact (sameButKeywords_append_iff rfl (.inl hends)).2 ⟨⟨rfl, fun _ _ _ => rfl⟩, ih⟩
  | @keyword k v w cs ds hv hw hends _ ih =>
    have hletters : Text.lowerAscii v = Text.lowerAscii w := by
      rw [Keyword.lowerAscii_of_ofWord? hv, Keyword.lowerAscii_of_ofWord? hw]
    have hlength : v.length = w.length := by rw [length_of_ofWord? hv, length_of_ofWord? hw]
    have hword := (Keyword.isWord_of_ofWord? hv).chars
    refine (sameButKeywords_append_iff hlength (.inl hends)).2 ⟨⟨hletters, fun i hi hnot => ?_⟩, ih⟩
    exact absurd ((inKeyword_word_iff hword hends hi).2 ⟨k, Keyword.ofWord?_eq_some_iff.1 hv⟩) hnot

/-- A word in front of `Recased` characters, or a keyword in another spelling. -/
theorem Recased.append_word {v w : List Char} (h : Recased cs ds) (hlength : v.length = w.length) (hne : v ≠ [])
    (hword : ∀ c ∈ v, Text.isWordChar c = true) (hends : EndsWord cs)
    (hletters : Text.lowerAscii v = Text.lowerAscii w)
    (hfront : ∀ i < v.length, ¬InKeyword (v ++ cs) i → v[i]? = w[i]?) : Recased (v ++ cs) (w ++ ds) := by
  cases hk : Keyword.ofWord? v with
  | some k =>
    -- A keyword in any case stays the same keyword.
    have hw : Keyword.ofWord? w = some k := by
      rw [Keyword.ofWord?_eq_some_iff, Text.sameLetters, ← hletters]
      exact Keyword.ofWord?_eq_some_iff.1 hk
    exact .keyword hk hw hends h
  | none =>
    -- No letter of the word stands in a keyword, so `hfront` forces the two words to be equal.
    have hfree : ¬∃ k : Keyword, Text.sameLetters k.canonical.toList v = true := by
      rintro ⟨k, hsame⟩
      rw [← Keyword.ofWord?_eq_some_iff, hk] at hsame
      cases hsame
    have hsame : v = w := by
      apply List.ext_getElem?
      intro i
      rcases Nat.lt_or_ge i v.length with hi | hi
      · exact hfront i hi (mt (inKeyword_word_iff hword hends hi).1 hfree)
      · rw [List.getElem?_eq_none hi, List.getElem?_eq_none (hlength ▸ hi)]
    subst hsame
    exact .word hne hword hends h

/-- Conversely, `SameButKeywords` implies `Recased`. -/
theorem SameButKeywords.recased (h : SameButKeywords cs ds) : Recased cs ds := by
  induction cs using runInduction generalizing ds with
  | nil =>
    obtain rfl : ds = [] := by simpa [Text.lowerAscii] using h.letters.symm
    exact .nil
  | sign c rest hc ih =>
    obtain ⟨w, rest', rfl, hlength⟩ := h.exists_append (v := [c])
    obtain ⟨d, rfl⟩ := List.length_eq_one_iff.1 hlength.symm
    obtain ⟨⟨-, hfront⟩, hrest⟩ := (sameButKeywords_append_iff hlength (isEdge_sign hc)).1 h
    have hsame := hfront 0 Nat.one_pos (not_inKeyword_of_sign hc)
    obtain rfl := Option.some.inj hsame
    exact .sign hc (ih hrest)
  | word v rest hne hword hends ih =>
    obtain ⟨w, rest', rfl, hlength⟩ := h.exists_append
    obtain ⟨⟨hletters, hfront⟩, hrest⟩ := (sameButKeywords_append_iff hlength (.inl hends)).1 h
    exact (ih hrest).append_word hlength hne hword hends hletters hfront

/-! ### Normalized texts -/

/-- If `f` keeps the length of every part, `flatMap f` changes nothing exactly if `f` changes no part. -/
theorem flatMap_eq_flatten_iff {f : List Char → List Char} (hf : ∀ part, (f part).length = part.length)
    {parts : List (List Char)} : parts.flatMap f = parts.flatten ↔ ∀ part ∈ parts, f part = part := by
  induction parts with
  | nil => simp
  | cons part parts ih =>
    rw [List.flatMap_cons, List.flatten_cons, List.forall_mem_cons, ← ih]
    constructor
    · intro h
      exact List.append_inj h (hf part)
    · rintro ⟨hpart, hparts⟩
      rw [hpart, hparts]

theorem length_respell (part : List Char) : (respell part).length = part.length := by
  rw [respell]
  split
  · next k hk => exact (length_of_ofWord? hk).symm
  · rfl

/-- `changeCount` is 0 exactly if `normalizeChars` changes no character. -/
theorem changeCount_eq_zero_iff : changeCount cs = 0 ↔ normalizeChars cs = cs := by
  have hparts : (segments cs).flatten = cs := List.flatten_splitBy _ cs
  have hnormal : normalizeChars cs = cs ↔ ∀ part ∈ segments cs, respell part = part := by
    rw [← flatMap_eq_flatten_iff length_respell, hparts]
    rfl
  rw [hnormal, changeCount, List.countP_eq_zero]
  simp

/-- **Normalization.** For every `text`:
* the normalized text has as many bytes,
* it is the same up to the case of ASCII letters inside whole words that are keywords (`SameButKeywords`),
* no change is counted exactly if the text is returned as it is,
* this is so for every normalized text, and
* another text has the same normalized text exactly if it is `SameButKeywords`. -/
theorem normalize_sameButKeywords (text : String) :
    (normalize text).value.text.utf8ByteSize = text.utf8ByteSize ∧
    SameButKeywords text.toList (normalize text).value.text.toList ∧
    ((normalize text).value.changes = 0 ↔ (normalize text).value.text = text) ∧
    (normalize (normalize text).value.text).value = ⟨(normalize text).value.text, 0⟩ ∧
    ∀ text' : String, (normalize text).value.text = (normalize text').value.text ↔
      SameButKeywords text.toList text'.toList := by
  have htext (text : String) : (normalize text).value.text.toList = normalizeChars text.toList :=
    String.toList_ofList
  have hchanges (text : String) : (normalize text).value.changes = 0 ↔ (normalize text).value.text = text := by
    rw [← String.toList_inj, htext]
    exact changeCount_eq_zero_iff
  -- Two texts are joined by their common normalized text, which differs from each in keywords only.
  have heq (text text' : String) : (normalize text).value.text = (normalize text').value.text ↔
      SameButKeywords text.toList text'.toList := by
    constructor
    · intro h
      have hback := (recased_normalize text').sameButKeywords.symm
      rw [← h] at hback
      exact (recased_normalize text).sameButKeywords.trans hback
    · intro h
      exact congrArg String.ofList h.recased.normalizeChars_eq
  have hagain : (normalize (normalize text).value.text).value.text = (normalize text).value.text :=
    (heq _ _).2 (recased_normalize text).sameButKeywords.symm
  refine ⟨?_, (recased_normalize text).sameButKeywords, hchanges text, ?_, heq text⟩
  · rw [← Text.byteLength_toList, ← Text.byteLength_toList, (recased_normalize text).byteLength_eq]
  · have hnone := (hchanges _).2 hagain
    cases hnormal : (normalize (normalize text).value.text).value
    rw [hnormal] at hagain hnone
    rw [← hagain, ← hnone]

example : (normalize "éor oR Or_ tRUE").value = ⟨"éor OR Or_ true", 2⟩ := by decide +kernel

end BoolCalc
