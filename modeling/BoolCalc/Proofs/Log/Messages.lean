import BoolCalc.Log.Process
import BoolCalc.Proofs.Log.Window
import BoolCalc.Proofs.Text.Truncation

namespace BoolCalc

/-!
# The messages of logged events

* `Log.Event.stage_eq`, `Log.Event.failure_eq`, `Log.Event.completion_eq` : the parts of an event;
* `Log.Event.ReportOf` : an event is a failure or a completion with a message;
* `Log.Event.ReportOf.message_forRequest` : it carries what is left of the message, with a mark or without;
* `LogState.mem_buffer_dispatch`, `LogState.mem_buffer_dispatchAll` : what one event and what several events put into
  the buffer of a log;
* `LogState.reported_messages` : **messages**, what is left of them, and that no longer ones get into the log.
-/

namespace Log

/-! ### The parts of an event -/

namespace Event

/-- Setting keys of the context with `withContexts` changes nothing else. -/
theorem withContexts_eq (e : Event) (pairs : List (String × String)) :
    e.withContexts pairs = { e with context := pairs.foldl (fun c pair => c.put pair.1 pair.2) e.context } := by
  unfold withContexts
  induction pairs generalizing e with
  | nil => rfl
  | cons pair pairs ih => exact ih (e.withContext pair.1 pair.2)

/-- What `stage` is made of. -/
theorem stage_eq (code : Code) (message : String) (pairs : List (String × String)) :
    stage code message pairs =
      { level := .debug, code, message, context := pairs.foldl (fun c pair => c.put pair.1 pair.2) [] } :=
  withContexts_eq _ _

/-- What `failure` is made of: the message is `shortened`. -/
theorem failure_eq (code : Code) (message : String) (span : Option Span) (pairs : List (String × String)) :
    failure code message span pairs =
      { level := .error, code, message := shortened message, span,
        context := pairs.foldl (fun c pair => c.put pair.1 pair.2) [] } :=
  withContexts_eq _ _

/-- What `completion` is made of: the message is `shortened`. -/
theorem completion_eq (code : Code) (message : String) (pairs : List (String × String)) :
    completion code message pairs =
      { level := .info, code, message := shortened message,
        context := pairs.foldl (fun c pair => c.put pair.1 pair.2) [] } :=
  withContexts_eq _ _

/-! ### Reports -/

/-- The event reports `message` as a failure or as a completion, whatever its code, span and context. -/
inductive ReportOf (message : String) : Event → Prop where
  | failure (code : Code) (span : Option Span) (context : List (String × String)) :
      ReportOf message (.failure code message span context)
  | completion (code : Code) (context : List (String × String)) : ReportOf message (.completion code message context)

variable {e : Event} {message : String}

/-- A mark does not change the `message` of an event. -/
theorem message_forRequest (request : Option String) (e : Event) : (e.forRequest request).message = e.message := by
  cases request <;> rfl

/-- A report carries `shortened message`, with a mark or without. -/
theorem ReportOf.message_forRequest (h : ReportOf message e) (request : Option String) :
    (e.forRequest request).message = shortened message := by
  rw [Event.message_forRequest]
  cases h with
  | failure code span context => rw [failure_eq]
  | completion code context => rw [completion_eq]

theorem size_shortened (message : String) : (shortened message).utf8ByteSize ≤ Limits.logMessage :=
  (Text.longestWithin_truncate _ _).size_le

end Event

/-- Making room with `Buffer.withRoom` adds no event. -/
theorem Buffer.withRoom_subset (b : Buffer) : b.withRoom.toList ⊆ b.toList := by
  unfold Buffer.withRoom
  split
  · rw [Buffer.toList_dropOldest]
    exact (List.tail_sublist _).subset
  · exact List.Subset.refl _

theorem Buffer.mem_push {b : Buffer} {e kept : Event} (h : kept ∈ (b.push e).toList) : kept ∈ b.toList ∨ kept = e := by
  rw [Buffer.toList_push, List.mem_append, List.mem_singleton] at h
  exact h.imp_left fun hroom => b.withRoom_subset hroom

end Log

/-! ### A log that is handed events -/

namespace LogState

open Log (Event)

variable {s : LogState} {timestamp : Nat} {e kept : Event} {events : List Event}

/-- After `dispatch`, what is in the buffer was there before or is `e` with its mark. -/
theorem mem_buffer_dispatch (h : kept ∈ (s.dispatch timestamp e).buffer.toList) :
    kept ∈ s.buffer.toList ∨ kept = e.forRequest s.request := by
  unfold dispatch send at h
  split at h
  · split at h
    · dsimp only at h
      split at h
      · exact Log.Buffer.mem_push h
      · exact .inl h
    · exact .inl h
  · exact .inl h

/-- After `dispatch` for all `events`, what is in the buffer was there before or is one of them with a mark. -/
theorem mem_buffer_dispatchAll (h : kept ∈ (events.foldl (·.dispatch timestamp) s).buffer.toList) :
    kept ∈ s.buffer.toList ∨ ∃ e ∈ events, ∃ request, kept = e.forRequest request := by
  induction events generalizing s with
  | nil => exact .inl h
  | cons e events ih =>
    rcases ih h with hbefore | ⟨later, hlater, hkept⟩
    · rcases mem_buffer_dispatch hbefore with hbefore | hkept
      · exact .inl hbefore
      · exact .inr ⟨e, List.mem_cons_self, s.request, hkept⟩
    · exact .inr ⟨later, List.mem_cons_of_mem e hlater, hkept⟩

/-- **Messages.** For every `message`, with `Limits.logMessage` as the limit:
* `Text.truncate?` has a result `left`, and this is the longest beginning within the limit that ends between two
  characters, `Text.LongestWithin`;
* a `message` within the limit is left as it is;
* beyond the limit, `Text.lastBoundary?` finds the end of `left` at most three bytes below it, and `Text.upTo?` cuts
  there without failure;
* every `Event.ReportOf message` has the message `left`, whatever its mark.
Consequently, reports that are handed to `dispatch` put no message beyond the limit into the buffer. -/
theorem reported_messages :
    (∀ message : String, ∃ left, Text.truncate? Limits.logMessage message = some left ∧
      Text.LongestWithin Limits.logMessage message left ∧
      (message.utf8ByteSize ≤ Limits.logMessage → left = message) ∧
      (Limits.logMessage < message.utf8ByteSize →
        Text.lastBoundary? message Limits.logMessage = some left.utf8ByteSize ∧
        Text.upTo? message left.utf8ByteSize = some left ∧ Limits.logMessage ≤ left.utf8ByteSize + 3) ∧
      ∀ e : Event, e.ReportOf message → ∀ request, (e.forRequest request).message = left) ∧
    ∀ (s : LogState) (timestamp : Nat) (reports : List Event), (∀ e ∈ reports, ∃ message, e.ReportOf message) →
      ∀ kept ∈ (reports.foldl (·.dispatch timestamp) s).buffer.toList,
        kept ∈ s.buffer.toList ∨ kept.message.utf8ByteSize ≤ Limits.logMessage := by
  constructor
  · intro message
    have hleft := Text.longestWithin_truncate Limits.logMessage message
    refine ⟨Event.shortened message, Text.truncate?_eq_some _ _, hleft, hleft.eq_self, fun hlong => ?_, fun e he => ?_⟩
    · exact ⟨hleft.lastBoundary?_eq, hleft.upTo?_eq, hleft.le_add_three hlong⟩
    · exact he.message_forRequest
  · intro s timestamp reports hreports kept hkept
    refine (mem_buffer_dispatchAll hkept).imp_right ?_
    rintro ⟨e, he, request, rfl⟩
    obtain ⟨message, hreport⟩ := hreports e he
    rw [hreport.message_forRequest]
    exact Event.size_shortened message

/-- A message of 2050 bytes in which a character of four bytes lies across `Limits.logMessage`. -/
def wideMessage : String := Text.repeated 2045 'a' ++ (String.singleton '😀' ++ "x")

/-- A log that keeps all events, for the request `7`. -/
def bufferingLog : LogState := { service := some ⟨.buffer, .debug⟩, request := some "7" }

/-- Three bytes below `Limits.logMessage` is where the wide character of `wideMessage` begins; the cut is there. -/
theorem reported_messages_wideMessage :
    let report : Event := .failure .expressionTooLong wideMessage none []
    Text.truncate? Limits.logMessage wideMessage = some (Text.repeated 2045 'a') ∧
      Text.lastBoundary? wideMessage Limits.logMessage = some 2045 ∧
      (report.forRequest (some "7")).message = Text.repeated 2045 'a' ∧
      report.forRequest (some "7") ∈ ([report].foldl (·.dispatch 0) bufferingLog).buffer.toList ∧
      (report.forRequest (some "7")).message.utf8ByteSize ≤ Limits.logMessage := by
  intro report
  obtain ⟨left, hcut, hlongest, -, hsearch, hreports⟩ := reported_messages.1 wideMessage
  have hsize : (Text.repeated 2045 'a').utf8ByteSize = 2045 := Text.utf8ByteSize_repeated 2045 'a'
  have hwide : '😀'.utf8Size = 4 := by decide
  have hleft : left = Text.repeated 2045 'a' := by
    refine hlongest.unique (.of_next ?_ ?_) <;> rw [hsize]
    · decide
    · rw [hwide]
      decide
  subst hleft
  have hlong : Limits.logMessage < wideMessage.utf8ByteSize := by
    rw [wideMessage, String.utf8ByteSize_append, hsize]
    decide
  have hreport : report.ReportOf wideMessage := .failure _ _ _
  have hkept : report.forRequest (some "7") ∈ ([report].foldl (·.dispatch 0) bufferingLog).buffer.toList :=
    List.mem_singleton_self _
  refine ⟨hcut, hsize ▸ (hsearch hlong).1, hreports report hreport _, hkept, ?_⟩
  exact (reported_messages.2 bufferingLog 0 [report] (List.forall_mem_singleton.2 ⟨_, hreport⟩) _ hkept).resolve_left
    List.not_mem_nil

end LogState

end BoolCalc
