import BoolCalc.Proofs.Text.Offsets

namespace BoolCalc

/-!
# Lines and places

* `Position.column_advanceOver`, `Position.advanceOver_endedLines` : lines and columns behind a part of a line, and
  behind complete lines;
* `LineAround`, `nonempty_lineAround` : the line around a place of a text, with what comes before it and after it;
* `LineAround.after_eq` : the line and the column of the place;
* `Text.lineChars_append_cons`, `Text.lineChars_endedLines` : the lines of a text from its characters;
* `Text.Shown` : what is shown of a line;
* `Text.exists_of_lineChars_eq` : where one of the lines stands in the text;
* `LineAround.firstLine_eq` : the line of a text that is found by the number of a place.
-/

/-- Complete lines, each with the `'
'` that ends it. -/
def Text.endedLines (lines : List (List Char)) : List Char := lines.flatMap (· ++ ['\n'])

theorem Text.endedLines_cons (line : List Char) (lines : List (List Char)) :
    endedLines (line :: lines) = line ++ '\n' :: endedLines lines := by
  simp [endedLines]

/-! ### Positions -/

namespace Position

variable {p : Position} {cs : List Char}

/-- Over a part `cs` of a line, the line stays and the column moves by `cs.length`. -/
theorem column_advanceOver (h : '\n' ∉ cs) :
    (p.advanceOver cs).line = p.line ∧ (p.advanceOver cs).column = p.column + cs.length := by
  induction cs generalizing p with
  | nil => exact ⟨rfl, rfl⟩
  | cons c cs ih =>
    have hc : c ≠ '\n' := (List.ne_of_not_mem_cons h).symm
    obtain ⟨hline, hcolumn⟩ := ih (p := p.advance c) (List.not_mem_of_not_mem_cons h)
    rw [advanceOver_cons, hline, hcolumn, advance, if_neg hc, List.length_cons]
    exact ⟨rfl, by dsimp only; omega⟩

/-- Over complete lines, the line moves by their number, and the column stays at `1`. -/
theorem advanceOver_endedLines {lines : List (List Char)} (h : ∀ line ∈ lines, '\n' ∉ line) (hp : p.column = 1) :
    (p.advanceOver (Text.endedLines lines)).line = p.line + lines.length ∧
      (p.advanceOver (Text.endedLines lines)).column = 1 := by
  induction lines generalizing p with
  | nil => exact ⟨rfl, hp⟩
  | cons line lines ih =>
    obtain ⟨hline, hothers⟩ := List.forall_mem_cons.1 h
    obtain ⟨hstay, -⟩ := column_advanceOver (p := p) hline
    obtain ⟨hrest, hcolumn⟩ := ih (p := (p.advanceOver line).advance '\n') hothers rfl
    rw [Text.endedLines_cons, advanceOver_append, advanceOver_cons, hrest, hcolumn, advance, if_pos rfl, hstay,
      List.length_cons]
    exact ⟨by dsimp only; omega, rfl⟩

end Position

/-! ### The line around a place -/

/-- The line around the place between `before` and `behind`, two parts of a text. -/
structure LineAround (before behind : List Char) where
  earlier : List (List Char)
  head : List Char
  tail : List Char
  /-- What comes after the line, with the `'
  '` that ends it. -/
  later : List Char
  earlier_lines : ∀ line ∈ earlier, '\n' ∉ line
  head_line : '\n' ∉ head
  tail_line : '\n' ∉ tail
  later_ends : later = [] ∨ ∃ rest, later = '\n' :: rest
  before_eq : before = Text.endedLines earlier ++ head
  behind_eq : behind = tail ++ later

/-- Any characters are complete lines and a part `head` of a line. -/
theorem exists_endedLines (cs : List Char) : ∃ lines head, cs = Text.endedLines lines ++ head ∧
    (∀ line ∈ lines, '\n' ∉ line) ∧ '\n' ∉ head := by
  induction cs with
  | nil => exact ⟨[], [], rfl, nofun, nofun⟩
  | cons c cs ih =>
    obtain ⟨lines, head, rfl, hlines, hhead⟩ := ih
    by_cases hc : c = '\n'
    · subst hc
      exact ⟨[] :: lines, head, rfl, List.forall_mem_cons.2 ⟨List.not_mem_nil, hlines⟩, hhead⟩
    · cases lines with
      | nil => exact ⟨[], c :: head, rfl, nofun, by simp [hhead, Ne.symm hc]⟩
      | cons line lines =>
        obtain ⟨hline, hothers⟩ := List.forall_mem_cons.1 hlines
        refine ⟨(c :: line) :: lines, head, rfl, List.forall_mem_cons.2 ⟨?_, hothers⟩, hhead⟩
        simp [hline, Ne.symm hc]

/-- Any characters are a part `tail` of a line and what comes after the line. -/
theorem exists_lineEnd (cs : List Char) :
    ∃ tail later, cs = tail ++ later ∧ '\n' ∉ tail ∧ (later = [] ∨ ∃ rest, later = '\n' :: rest) := by
  induction cs with
  | nil => exact ⟨[], [], rfl, nofun, .inl rfl⟩
  | cons c cs ih =>
    by_cases hc : c = '\n'
    · subst hc
      exact ⟨[], _, rfl, nofun, .inr ⟨cs, rfl⟩⟩
    · obtain ⟨tail, later, rfl, htail, hlater⟩ := ih
      exact ⟨c :: tail, later, rfl, by simp [htail, Ne.symm hc], hlater⟩

/-- Around each place there is a `LineAround`. -/
theorem nonempty_lineAround (before behind : List Char) : Nonempty (LineAround before behind) := by
  obtain ⟨lines, head, hbefore, hlines, hhead⟩ := exists_endedLines before
  obtain ⟨tail, later, hbehind, htail, hlater⟩ := exists_lineEnd behind
  exact ⟨⟨lines, head, tail, later, hlines, hhead, htail, hlater, hbefore, hbehind⟩⟩

namespace LineAround

variable {before behind : List Char} (l : LineAround before behind)

/-- The characters of the line, `head` and `tail`. -/
def line : List Char := l.head ++ l.tail

theorem line_line : '\n' ∉ l.line := by
  simp [line, l.head_line, l.tail_line]

/-- The line and the column of the place, counted from `1`. -/
theorem after_eq : (Position.after before).line = l.earlier.length + 1 ∧
    (Position.after before).column = l.head.length + 1 := by
  obtain ⟨hlines, hcolumn⟩ := Position.advanceOver_endedLines (p := .start) l.earlier_lines rfl
  obtain ⟨hstay, hhead⟩ := Position.column_advanceOver (p := Position.start.advanceOver (Text.endedLines l.earlier))
    l.head_line
  have hbefore := (congrArg (Position.advanceOver .start) l.before_eq).trans Position.advanceOver_append
  rw [← Position.start_advanceOver, hbefore, hstay, hhead, hlines, hcolumn]
  exact ⟨Nat.add_comm _ _, Nat.add_comm _ _⟩

end LineAround

/-! ### The lines of a text -/

namespace Text

variable {line shown rest : List Char}

/-- `lineChars` takes off a line with its `'
'`. -/
theorem lineChars_append_cons (h : '\n' ∉ line) (rest : List Char) :
    lineChars (line ++ '\n' :: rest) = dropReturn line :: lineChars rest := by
  obtain ⟨first, others, hrest⟩ := List.exists_cons_of_ne_nil (List.splitOn_ne_nil '\n' rest)
  rw [lineChars, lineChars, List.splitOn_append_cons_self, List.splitOn_eq_singleton h, hrest]
  rfl

/-- `lineChars` for a last line without `'
'`. -/
theorem lineChars_of_not_mem (h : '\n' ∉ line) : lineChars line = if line = [] then [] else [line] := by
  rw [lineChars, List.splitOn_eq_singleton h]
  cases line <;> rfl

/-- `lineChars` takes off complete lines. -/
theorem lineChars_endedLines {lines : List (List Char)} (h : ∀ line ∈ lines, '\n' ∉ line) (rest : List Char) :
    lineChars (endedLines lines ++ rest) = lines.map dropReturn ++ lineChars rest := by
  induction lines with
  | nil => rfl
  | cons line lines ih =>
    obtain ⟨hline, hothers⟩ := List.forall_mem_cons.1 h
    rw [endedLines_cons, List.append_assoc, List.cons_append, lineChars_append_cons hline, ih hothers]
    rfl

/-- What `lineChars` shows of `line`, given what comes after it. -/
inductive Shown (line : List Char) : List Char → List Char → Prop where
  | last : Shown line [] line
  /-- A `'\r'` in front of the `'
  '` is not shown. -/
  | returned {shown rest : List Char} (h : line = shown ++ ['\r']) : Shown line ('\n' :: rest) shown
  /-- Without one, the line is shown up to the `'
  '`. -/
  | ended {rest : List Char} (h : line.getLast? ≠ some '\r') : Shown line ('\n' :: rest) line

/-- The first line of `line ++ rest` is what is shown of `line`. -/
theorem Shown.exists_lineChars_eq_cons (h : Shown line rest shown) (hline : '\n' ∉ line) (hne : line ++ rest ≠ []) :
    ∃ others, lineChars (line ++ rest) = shown :: others := by
  cases h with
  | last =>
    rw [List.append_nil] at hne ⊢
    exact ⟨[], by rw [lineChars_of_not_mem hline, if_neg hne]⟩
  | @returned _ others heq =>
    rw [lineChars_append_cons hline, heq, dropReturn, if_pos (by simp), List.dropLast_concat]
    exact ⟨lineChars others, rfl⟩
  | @ended others hreturn =>
    rw [lineChars_append_cons hline, dropReturn, if_neg (by simpa using hreturn)]
    exact ⟨lineChars others, rfl⟩

/-- What is shown of `line` is the first line of the characters, also if there is none. -/
theorem Shown.getD_lineChars (h : Shown line rest shown) (hline : '\n' ∉ line) :
    ((lineChars (line ++ rest)).map String.ofList)[0]?.getD "" = String.ofList shown := by
  by_cases hne : line ++ rest = []
  · obtain ⟨rfl, rfl⟩ := List.append_eq_nil_iff.1 hne
    cases h
    rfl
  · obtain ⟨others, hothers⟩ := h.exists_lineChars_eq_cons hline hne
    rw [hothers]
    rfl

/-- Each line is `Shown` somehow. -/
theorem exists_shown (line : List Char) (hrest : rest = [] ∨ ∃ others, rest = '\n' :: others) :
    ∃ shown, Shown line rest shown := by
  rcases hrest with rfl | ⟨others, rfl⟩
  · exact ⟨line, .last⟩
  · by_cases hreturn : line.getLast? = some '\r'
    · obtain ⟨shown, hshown⟩ := List.getLast?_eq_some_iff.1 hreturn
      exact ⟨shown, .returned hshown⟩
    · exact ⟨line, .ended hreturn⟩

/-- One of the lines of `cs` stands in it behind complete lines, which show the lines `before` it. -/
theorem exists_of_lineChars_eq {cs : List Char} {before after : List (List Char)}
    (h : lineChars cs = before ++ shown :: after) : ∃ earlier line later, cs = endedLines earlier ++ (line ++ later) ∧
      (∀ l ∈ earlier, '\n' ∉ l) ∧ earlier.map dropReturn = before ∧ '\n' ∉ line ∧ Shown line later shown := by
  induction before generalizing cs with
  | nil =>
    obtain ⟨line, later, rfl, hline, hlater⟩ := exists_lineEnd cs
    obtain ⟨shown', hshown⟩ := exists_shown line hlater
    -- There is a line, so there are characters, of which the first line is what is shown.
    have hne : line ++ later ≠ [] := by
      intro hnil
      rw [hnil] at h
      cases h
    obtain ⟨others, hothers⟩ := hshown.exists_lineChars_eq_cons hline hne
    obtain ⟨rfl, -⟩ := List.cons.inj (h.symm.trans hothers)
    exact ⟨[], line, later, rfl, nofun, rfl, hline, hshown⟩
  | cons first before ih =>
    obtain ⟨line, later, rfl, hline, rfl | ⟨rest, rfl⟩⟩ := exists_lineEnd cs
    · -- The characters are one line at most.
      have hlength := congrArg List.length h
      rw [List.append_nil, lineChars_of_not_mem hline] at hlength
      split at hlength <;> simp at hlength
    · rw [lineChars_append_cons hline] at h
      obtain ⟨rfl, hrest⟩ := List.cons.inj h
      obtain ⟨earlier, last, later, rfl, hearlier, rfl, hlast, hshown⟩ := ih hrest
      refine ⟨line :: earlier, last, later, ?_, List.forall_mem_cons.2 ⟨hline, hearlier⟩, rfl, hlast, hshown⟩
      rw [endedLines_cons, List.append_assoc, List.cons_append]

end Text

/-- The line around a place is what `Span.firstLine` finds by the number of the place. -/
theorem LineAround.firstLine_eq {before behind shown : List Char} (l : LineAround before behind)
    (hshown : Text.Shown l.line l.later shown) {text : String} (htext : text.toList = before ++ behind) {s : Span}
    (hs : s.start = .after before) : s.firstLine text = String.ofList shown := by
  have hchars : text.toList = Text.endedLines l.earlier ++ (l.line ++ l.later) := by
    rw [htext, LineAround.line, List.append_assoc, ← List.append_assoc, ← l.before_eq, ← l.behind_eq]
  rw [Span.firstLine, Text.lines, hs, l.after_eq.1, hchars, Text.lineChars_endedLines l.earlier_lines, List.map_append,
    Nat.add_sub_cancel, List.getElem?_append_right (by simp), List.length_map, List.length_map, Nat.sub_self]
  exact hshown.getD_lineChars l.line_line

end BoolCalc
