import BoolCalc.Batch.Request
import BoolCalc.Proofs.Json.OneLine
import BoolCalc.Proofs.Text.Lines

namespace BoolCalc.Batch

open Text

/-!
# Request files

* `Request.request?_written` : a request is read from the line that it is written on;
* `requestsFrom_blank`, `requestsFrom_request`, `requestsFrom_fault` : one more line in front of others;
* `IsRequestFile` : the texts that hold some requests, one to a line, among blank lines;
* `requestsFrom_of_isRequestFile` : the requests of such a text;
* `IsFirstFault` : a line, found by its number, which is the first that is neither blank nor a request;
* `requestsFrom_eq_error_iff`, `isFirstFault_iff` : lines that cannot be read, and where they stand in the text;
* `request_file` : **request files**, what is read from them and when they cannot be read.
-/

variable {r : Request} {rs : List Request} {n : Nat} {line cs : List Char} {lines : List (List Char)} {e : BatchError}

/-! ### Requests on lines -/

/-- The request that `line` holds, if it holds one. -/
def request? (line : List Char) : Option Request := (Json.parse? (String.ofList line)).bind Request.ofJson?

namespace Request

theorem plain_toJson (r : Request) : Json.Plain r.toJson := by
  obtain ⟨id, expression, values⟩ := r
  refine .object fun m hm => ?_
  rcases List.mem_append.1 hm with hname | hothers
  · cases id with
    | none => cases hname
    | some id =>
      obtain rfl := List.mem_singleton.1 hname
      exact .string id
  · rcases List.mem_cons.1 hothers with rfl | hvalues
    · exact .string expression
    · obtain rfl := List.mem_singleton.1 hvalues
      exact .string values

/-- Out of `r.toJson` comes `r`, with or without an `id`. -/
theorem ofJson?_toJson (r : Request) : ofJson? r.toJson = some r := by
  obtain ⟨id, expression, values⟩ := r
  cases id <;> rfl

/-- The characters of the line that `r` is written on. -/
def written (r : Request) : List Char := r.toJson.compact.toList

/-- Line breaks in `r` are escaped. -/
theorem unbroken_written (r : Request) : Unbroken r.written := Json.oneLine_compact r.plain_toJson

/-- The line of `r` begins with a brace, so it is not blank. -/
theorem not_blank_written (r : Request) : ¬∀ c ∈ r.written, isBlank c = true := by
  have hbrace : '\x7b' ∈ r.written := by
    obtain ⟨id, expression, values⟩ := r
    rw [written, Json.compact, String.toList_ofList]
    cases id <;> exact List.mem_cons_self
  intro h
  exact absurd (h _ hbrace) (by decide)

/-- `request?` reads back the line `r.written`. -/
theorem request?_written (r : Request) : request? r.written = some r := by
  rw [request?, written, String.ofList_toList, Json.parse?_compact r.plain_toJson]
  exact r.ofJson?_toJson

end Request

/-! ### One line after another -/

/-- The line is blank, or `request?` reads a request from it. -/
def Readable (line : List Char) : Prop := (∀ c ∈ line, isBlank c = true) ∨ ∃ r, request? line = some r

/-- The requests of the lines, whose numbers begin with `n`. -/
def requestsFrom (n : Nat) (lines : List (List Char)) : Except BatchError (List Request) :=
  (((lines.map String.ofList).zipIdx n).filter fun (line, _) => !isAllBlank line).mapM
    fun (line, number) => parseLine line number

theorem parseRequests_eq (content : String) : parseRequests content = requestsFrom 1 (lineChars content.toList) := rfl

theorem isAllBlank_ofList : isAllBlank (String.ofList line) = true ↔ ∀ c ∈ line, isBlank c = true := by
  rw [isAllBlank, String.toList_ofList, List.all_eq_true]

/-- `requestsFrom` skips a blank line, but counts it. -/
theorem requestsFrom_blank (h : ∀ c ∈ line, isBlank c = true) :
    requestsFrom n (line :: lines) = requestsFrom (n + 1) lines := by
  have hblank : isAllBlank (String.ofList line) = true := isAllBlank_ofList.2 h
  simp [requestsFrom, hblank]

/-- A line that is not blank is read as the line `n`, and then the others are. -/
theorem requestsFrom_of_not_blank (h : ¬∀ c ∈ line, isBlank c = true) : requestsFrom n (line :: lines) =
    (parseLine (String.ofList line) n).bind fun r => (requestsFrom (n + 1) lines).map (r :: ·) := by
  have hvisible : isAllBlank (String.ofList line) = false := by rwa [← isAllBlank_ofList, Bool.not_eq_true] at h
  simp [requestsFrom, hvisible]
  rfl

/-- The request `r` of a line stands in front of those of the others. -/
theorem requestsFrom_request (hread : request? line = some r) (h : ¬∀ c ∈ line, isBlank c = true) :
    requestsFrom n (line :: lines) = (requestsFrom (n + 1) lines).map (r :: ·) := by
  have hline : parseLine (String.ofList line) n = .ok r := by
    unfold parseLine
    unfold request? at hread
    rw [hread]
  rw [requestsFrom_of_not_blank h, hline]
  rfl

/-- A line that is not `Readable` ends the reading. -/
theorem requestsFrom_fault (h : ¬Readable line) :
    requestsFrom n (line :: lines) = .error (.invalidRequest n "not an evaluation request") := by
  obtain ⟨hblank, hread⟩ := not_or.1 h
  have hnone : request? line = none := Option.eq_none_iff_forall_ne_some.2 (not_exists.1 hread)
  have hline : parseLine (String.ofList line) n = .error (.invalidRequest n "not an evaluation request") := by
    unfold parseLine
    unfold request? at hnone
    rw [hnone]
  rw [requestsFrom_of_not_blank hblank, hline]
  rfl

/-- Behind a `Readable` line the others fail in the same way, under their own numbers. -/
theorem requestsFrom_readable_eq_error_iff (h : Readable line) :
    requestsFrom n (line :: lines) = .error e ↔ requestsFrom (n + 1) lines = .error e := by
  by_cases hblank : ∀ c ∈ line, isBlank c = true
  · rw [requestsFrom_blank hblank]
  · obtain ⟨r, hread⟩ := h.resolve_left hblank
    rw [requestsFrom_request hread hblank]
    cases requestsFrom (n + 1) lines <;> simp [Except.map]

/-- Lines cannot be read if one is not `Readable`; the first such line is reported. -/
theorem requestsFrom_eq_error_iff : requestsFrom n lines = .error e ↔ ∃ earlier line later,
    lines = earlier ++ line :: later ∧ (∀ l ∈ earlier, Readable l) ∧ ¬Readable line ∧
      e = .invalidRequest (n + earlier.length) "not an evaluation request" := by
  induction lines generalizing n with
  | nil =>
    have hnone : requestsFrom n [] = .ok [] := rfl
    simp [hnone]
  | cons first lines ih =>
    by_cases hfirst : Readable first
    · -- A fault is among the other lines, whose numbers are greater by one.
      rw [requestsFrom_readable_eq_error_iff hfirst, ih]
      constructor
      · rintro ⟨earlier, line, later, rfl, hearlier, hline, rfl⟩
        refine ⟨first :: earlier, line, later, rfl, List.forall_mem_cons.2 ⟨hfirst, hearlier⟩, hline, ?_⟩
        rw [List.length_cons, Nat.add_right_comm, Nat.add_assoc]
      · rintro ⟨earlier, line, later, hlines, hearlier, hline, rfl⟩
        cases earlier with
        | nil =>
          obtain ⟨rfl, -⟩ := List.cons.inj hlines
          exact absurd hfirst hline
        | cons l earlier =>
          obtain ⟨rfl, rfl⟩ := List.cons.inj hlines
          refine ⟨earlier, line, later, rfl, (List.forall_mem_cons.1 hearlier).2, hline, ?_⟩
          rw [List.length_cons, Nat.add_right_comm, Nat.add_assoc]
    · -- The first line is itself the first fault.
      rw [requestsFrom_fault hfirst]
      constructor
      · rintro ⟨⟩
        exact ⟨[], first, lines, rfl, nofun, hfirst, rfl⟩
      · rintro ⟨earlier, line, later, hlines, hearlier, -, rfl⟩
        cases earlier with
        | nil => rfl
        | cons l earlier =>
          obtain ⟨rfl, -⟩ := List.cons.inj hlines
          exact absurd (hearlier _ List.mem_cons_self) hfirst

/-! ### The first fault of a text -/

/-- The line `number` is the first one of the characters `cs` that is neither blank nor a request: it is shown
behind `number - 1` complete lines that are readable. -/
def IsFirstFault (cs : List Char) (number : Nat) : Prop :=
  ∃ earlier line later shown, cs = endedLines earlier ++ (line ++ later) ∧
    (∀ l ∈ earlier, '\n' ∉ l ∧ Readable (dropReturn l)) ∧ '\n' ∉ line ∧ Shown line later shown ∧ ¬Readable shown ∧
    number = earlier.length + 1

theorem readable_nil : Readable [] := .inl nofun

theorem isFirstFault_iff {number : Nat} : IsFirstFault cs number ↔ ∃ earlier line later,
    lineChars cs = earlier ++ line :: later ∧ (∀ l ∈ earlier, Readable l) ∧ ¬Readable line ∧
      number = earlier.length + 1 := by
  constructor
  · rintro ⟨earlier, line, later, shown, rfl, hearlier, hline, hshown, hfault, rfl⟩
    -- What is shown of no characters is blank, so there are some.
    have hne : line ++ later ≠ [] := by
      intro hnil
      obtain ⟨rfl, rfl⟩ := List.append_eq_nil_iff.1 hnil
      cases hshown
      exact hfault readable_nil
    obtain ⟨others, hothers⟩ := hshown.exists_lineChars_eq_cons hline hne
    refine ⟨earlier.map dropReturn, shown, others, ?_, ?_, hfault, by rw [List.length_map]⟩
    · rw [lineChars_endedLines fun l hl => (hearlier l hl).1, hothers]
    · exact List.forall_mem_map.2 fun l hl => (hearlier l hl).2
  · rintro ⟨before, shown, after, hlines, hbefore, hfault, rfl⟩
    obtain ⟨earlier, line, later, rfl, hearlier, rfl, hline, hshown⟩ := exists_of_lineChars_eq hlines
    refine ⟨earlier, line, later, shown, rfl, fun l hl => ⟨hearlier l hl, ?_⟩, hline, hshown, hfault, ?_⟩
    · exact hbefore _ (List.mem_map_of_mem hl)
    · rw [List.length_map]

/-! ### Files of requests -/

/-- The end of a line, `'
'` with or without `'\r' ` before it. -/
inductive IsLineEnd : List Char → Prop where
  | feed : IsLineEnd ['\n']
  | returnFeed : IsLineEnd ['\r', '\n']

/-- The characters hold the requests, each on a line of its own, among lines that are blank. The last line may have
no end. -/
inductive IsRequestFile : List Request → List Char → Prop where
  | lastBlank {line : List Char} (hblank : ∀ c ∈ line, isBlank c = true) (hline : '\n' ∉ line) : IsRequestFile [] line
  | lastRequest (r : Request) : IsRequestFile [r] r.written
  | blank {rs : List Request} {line ending rest : List Char} (hblank : ∀ c ∈ line, isBlank c = true)
      (hline : '\n' ∉ line) (hending : IsLineEnd ending) (hrest : IsRequestFile rs rest) :
      IsRequestFile rs (line ++ (ending ++ rest))
  | request (r : Request) {rs : List Request} {ending rest : List Char} (hending : IsLineEnd ending)
      (hrest : IsRequestFile rs rest) : IsRequestFile (r :: rs) (r.written ++ (ending ++ rest))

/-- `lineChars` takes off `line` with its end: at most a `'\r'` of its own is taken for a part of the end. -/
theorem IsLineEnd.exists_lineChars_eq_cons {ending : List Char} (h : IsLineEnd ending) (hline : '\n' ∉ line)
    (rest : List Char) : ∃ shown, lineChars (line ++ (ending ++ rest)) = shown :: lineChars rest ∧
      (shown = line ∨ line = shown ++ ['\r']) := by
  cases h with
  | feed =>
    refine ⟨dropReturn line, lineChars_append_cons hline rest, ?_⟩
    rw [dropReturn]
    split
    next hreturn =>
      obtain ⟨shown, rfl⟩ := List.getLast?_eq_some_iff.1 (beq_iff_eq.1 hreturn)
      exact .inr (by rw [List.dropLast_concat])
    · exact .inl rfl
  | returnFeed =>
    have hreturn : '\n' ∉ line ++ ['\r'] := by simp [hline]
    refine ⟨line, ?_, .inl rfl⟩
    have := lineChars_append_cons hreturn rest
    rwa [List.append_assoc, dropReturn, if_pos (by simp), List.dropLast_concat] at this

/-- The requests `rs` of a file are read, whatever the number of its first line. -/
theorem requestsFrom_of_isRequestFile (h : IsRequestFile rs cs) : requestsFrom n (lineChars cs) = .ok rs := by
  induction h generalizing n with
  | @lastBlank line hblank hline =>
    rw [lineChars_of_not_mem hline]
    split
    · rfl
    · exact requestsFrom_blank hblank
  | lastRequest r =>
    have hne : r.written ≠ [] := fun hnil => r.not_blank_written (by rw [hnil]; nofun)
    rw [lineChars_of_not_mem r.unbroken_written.not_mem.1, if_neg hne,
      requestsFrom_request r.request?_written r.not_blank_written]
    rfl
  | @blank rs line ending rest hblank hline hending _ ih =>
    obtain ⟨shown, hlines, hshown⟩ := hending.exists_lineChars_eq_cons hline rest
    have hsubset : ∀ c ∈ shown, c ∈ line := by
      rcases hshown with rfl | rfl
      · exact fun _ hc => hc
      · exact fun _ hc => List.mem_append_left _ hc
    rw [hlines, requestsFrom_blank fun c hc => hblank c (hsubset c hc), ih]
  | @request r rs ending rest hending _ ih =>
    -- The line has no carriage return of its own that could be taken for a part of its end.
    obtain ⟨hfeed, hreturn⟩ := r.unbroken_written.not_mem
    obtain ⟨shown, hlines, hshown⟩ := hending.exists_lineChars_eq_cons hfeed rest
    have hwhole : shown = r.written := hshown.resolve_right fun h => hreturn (by simp [h])
    rw [hlines, hwhole, requestsFrom_request r.request?_written r.not_blank_written, ih]
    rfl

/-- **Request files.** For every text `content`:
* if it is a request file of `rs`, which are on lines of their own, among blank lines and with either line end, then
  `parseRequests` reads `rs`;
* it fails exactly if there is a first fault, and then with the number of that line. -/
theorem request_file (content : String) :
    (∀ rs, IsRequestFile rs content.toList → parseRequests content = .ok rs) ∧
      ∀ e, parseRequests content = .error e ↔ ∃ number, IsFirstFault content.toList number ∧
        e = .invalidRequest number "not an evaluation request" := by
  rw [parseRequests_eq]
  refine ⟨fun rs h => requestsFrom_of_isRequestFile h, fun e => ?_⟩
  rw [requestsFrom_eq_error_iff]
  constructor
  · rintro ⟨earlier, line, later, hlines, hearlier, hfault, rfl⟩
    exact ⟨1 + earlier.length, isFirstFault_iff.2 ⟨earlier, line, later, hlines, hearlier, hfault, Nat.add_comm _ _⟩,
      rfl⟩
  · rintro ⟨number, hfirst, rfl⟩
    obtain ⟨earlier, line, later, hlines, hearlier, hfault, rfl⟩ := isFirstFault_iff.1 hfirst
    exact ⟨earlier, line, later, hlines, hearlier, hfault, by rw [Nat.add_comm]⟩

/-- A request whose `id` and `expression` have line breaks of their own. -/
def brokenRequest : Request where
  id := some "a\r\nb"
  expression := "p AND\u2028q"
  values := "p=1,q=0"

/-- A request without `id`. -/
def namelessRequest : Request where
  expression := "true"

/-- **Request files** with both line ends and a blank line: one whose last line has no end, and one with `null` on
its third line. -/
theorem request_file_severalEnds :
    parseRequests (String.ofList (brokenRequest.written ++ (['\r', '\n'] ++ ([' ', '\u2028'] ++ (['\n'] ++
      namelessRequest.written))))) = .ok [brokenRequest, namelessRequest] ∧
    parseRequests (String.ofList (endedLines [brokenRequest.written ++ ['\r'], [' ']] ++
      (['n', 'u', 'l', 'l'] ++ ['\n']))) = .error (.invalidRequest 3 "not an evaluation request") := by
  constructor
  · refine (request_file _).1 _ ?_
    rw [String.toList_ofList]
    exact .request _ .returnFeed (.blank (List.all_eq_true.1 (by decide)) (by decide) .feed (.lastRequest _))
  · have hrequest : '\n' ∉ brokenRequest.written ++ ['\r'] ∧
        Readable (dropReturn (brokenRequest.written ++ ['\r'])) := by
      rw [dropReturn, if_pos (by simp), List.dropLast_concat]
      exact ⟨by simp [brokenRequest.unbroken_written.not_mem.1], .inr ⟨_, brokenRequest.request?_written⟩⟩
    have hblank : '\n' ∉ [' '] ∧ Readable (dropReturn [' ']) := ⟨by decide, .inl (List.all_eq_true.1 (by decide))⟩
    have hnull : Json.Spells (.value .null) (String.ofList ['n', 'u', 'l', 'l']).toList [] := by
      rw [String.toList_ofList]
      exact .null
    have hnone : request? ['n', 'u', 'l', 'l'] = none := by
      rw [request?, Json.parse?_of_spells hnull]
      rfl
    have hfault : ¬Readable ['n', 'u', 'l', 'l'] := not_or.2 ⟨mt List.all_eq_true.2 (by decide), by simp [hnone]⟩
    refine ((request_file _).2 _).2 ⟨3, ?_, rfl⟩
    rw [String.toList_ofList]
    exact ⟨_, _, _, _, rfl, by simp [hrequest, hblank], by decide, .ended (by decide), hfault, rfl⟩

end BoolCalc.Batch
