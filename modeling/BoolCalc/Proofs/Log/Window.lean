import Mathlib.Data.List.DropRight
import BoolCalc.Log.Buffer

namespace BoolCalc.Log

/-!
# The window of a buffer

* `Buffer.Call`, `Buffer.afterCalls` : events that are logged and buffers that are cleared, in any order;
* `Buffer.sinceClear` : the events logged since the last clear, whether they are still kept or not;
* `Buffer.Window` : the buffer holds the last of some events, as many as it has room for;
* `Buffer.Window.size_withRoom_lt` : giving up one event is enough to make room;
* `Buffer.Window.push`, `Buffer.window_afterCalls` : one more event moves the window by one, and so the window is
  right after any calls;
* `Buffer.toList_pushAll` : events that fit into an empty buffer are all kept;
* `Buffer.toList_afterCalls` : **window**, what a buffer holds and counts after any calls.
-/

namespace Buffer

/-! ### Calls -/

/-- What can be asked of a buffer: `push` and `clear`. -/
inductive Call where
  | log (event : Event)
  | clear
  deriving DecidableEq, Repr, Inhabited

def Call.event? : Call → Option Event
  | .log e => some e
  | .clear => none

/-- The buffer `b` after a call. -/
def call (b : Buffer) : Call → Buffer
  | .log e => b.push e
  | .clear => b.clear

/-- The buffer `b` after some calls. -/
def afterCalls (b : Buffer) (calls : List Call) : Buffer := calls.foldl call b

/-- The events that the calls behind the last `clear` log, whether they are still kept or not. -/
def sinceClear (calls : List Call) : List Event :=
  (calls.rtakeWhile (· ≠ .clear)).filterMap Call.event?

variable {b : Buffer} {capacity : Nat} {logged : List Event} {calls : List Call} {e : Event}

theorem sinceClear_log : sinceClear (calls ++ [.log e]) = sinceClear calls ++ [e] := by
  simp [sinceClear, Call.event?]

theorem sinceClear_clear : sinceClear (calls ++ [.clear]) = [] := by
  simp [sinceClear]

/-! ### The window -/

/-- The buffer `b` holds the last of the events `logged`, as many as its capacity allows. -/
structure Window (capacity : Nat) (logged : List Event) (b : Buffer) : Prop where
  /-- A capacity of `0` counts as `1`. -/
  capacity_eq : b.capacity = max capacity 1
  size_eq : b.size = b.toList.length
  /-- The events are the last `b.capacity` of `logged`, oldest first. -/
  toList_eq : b.toList = logged.rtake b.capacity

theorem length_rtake {α : Type} (xs : List α) (n : Nat) : (xs.rtake n).length = min n xs.length := by
  rw [List.rtake, List.length_drop]
  omega

theorem Window.capacity_pos (h : Window capacity logged b) : 0 < b.capacity := by
  rw [h.capacity_eq]
  exact Nat.lt_of_lt_of_le Nat.one_pos (Nat.le_max_right capacity 1)

/-- The size is `logged.length` until the buffer is full, and `b.capacity` from then on. -/
theorem Window.size_eq_min (h : Window capacity logged b) : b.size = min b.capacity logged.length := by
  rw [h.size_eq, h.toList_eq, length_rtake]

/-- `dropOldest` leaves the `tail` of `toList`. -/
theorem toList_dropOldest (b : Buffer) : b.dropOldest.toList = b.toList.tail := by
  unfold dropOldest toList
  split
  · next h => rw [h]; rfl
  · next h =>
    split
    · next h' => rw [h, h']; simp
    · next h' => rw [h, h']; rfl

theorem capacity_dropOldest (b : Buffer) : b.dropOldest.capacity = b.capacity := by
  unfold dropOldest
  split
  · rfl
  · split <;> rfl

/-- Dropping an event makes the size of a buffer with `b.toList ≠ []` smaller by one. -/
theorem size_dropOldest (h : b.toList ≠ []) : b.dropOldest.size = b.size - 1 := by
  unfold dropOldest
  split
  · rfl
  · next holder =>
    split
    · rfl
    · next hnewer => exact absurd (by rw [toList, holder, hnewer]; rfl) h

theorem window_ofCapacity (capacity : Nat) : Window capacity [] (ofCapacity capacity) where
  capacity_eq := rfl
  size_eq := rfl
  toList_eq := (List.rtake_nil _).symm

theorem Window.clear (h : Window capacity logged b) : Window capacity [] b.clear where
  capacity_eq := h.capacity_eq
  size_eq := rfl
  toList_eq := (List.rtake_nil _).symm

/-- The buffer `b` with room for one more event: a full one without its oldest event. -/
def withRoom (b : Buffer) : Buffer := if b.capacity ≤ b.size then b.dropOldest else b

/-- `push` puts an event behind those of `withRoom`. -/
theorem push_eq (b : Buffer) (e : Event) :
    b.push e = { b.withRoom with newer := e :: b.withRoom.newer, size := b.withRoom.size + 1 } := rfl

theorem toList_push (b : Buffer) (e : Event) : (b.push e).toList = b.withRoom.toList ++ [e] := by
  rw [push_eq]
  simp [toList]

/-- In `b.withRoom` there are `b.capacity - 1` of the last events, and one more fits. -/
theorem Window.withRoom (h : Window capacity logged b) : b.withRoom.capacity = b.capacity ∧
    b.withRoom.size = b.withRoom.toList.length ∧ b.withRoom.toList = logged.rtake (b.capacity - 1) := by
  have hpos := h.capacity_pos
  have hmin := h.size_eq_min
  by_cases hfull : b.capacity ≤ b.size
  · -- A full buffer holds something, and without its oldest event the window is one event shorter.
    have hne : b.toList ≠ [] := by
      intro hnil
      have hsize := h.size_eq
      rw [hnil, List.length_nil] at hsize
      omega
    rw [Buffer.withRoom, if_pos hfull]
    refine ⟨b.capacity_dropOldest, ?_, ?_⟩
    · rw [size_dropOldest hne, toList_dropOldest, List.length_tail, h.size_eq]
    · rw [toList_dropOldest, h.toList_eq, List.rtake, List.rtake, List.tail_drop]
      congr 1
      omega
  · -- A buffer that is not full holds all events, and there are fewer of them than the capacity.
    rw [Buffer.withRoom, if_neg hfull]
    refine ⟨rfl, h.size_eq, ?_⟩
    rw [h.toList_eq, List.rtake, List.rtake]
    congr 1
    omega

/-- `withRoom` leaves room: it has dropped the oldest event if it had to. -/
theorem Window.size_withRoom_lt (h : Window capacity logged b) : b.withRoom.size < b.withRoom.capacity := by
  obtain ⟨hcapacity, hsize, hlist⟩ := h.withRoom
  have hpos := h.capacity_pos
  rw [hcapacity, hsize, hlist, length_rtake]
  omega

/-- **One more event.** The window moves on to `logged ++ [e]`. -/
theorem Window.push (h : Window capacity logged b) (e : Event) :
    Window capacity (logged ++ [e]) (b.push e) := by
  obtain ⟨hcapacity, hsize, hlist⟩ := h.withRoom
  have hpushed : (b.push e).toList = logged.rtake (b.capacity - 1) ++ [e] := by
    rw [toList_push, hlist]
  have hkept : (b.push e).capacity = b.capacity := hcapacity
  have hpos : b.capacity - 1 + 1 = b.capacity := Nat.sub_add_cancel h.capacity_pos
  refine ⟨hkept.trans h.capacity_eq, ?_, ?_⟩
  · rw [hpushed, ← hlist, List.length_append, ← hsize]
    rfl
  · rw [hpushed, hkept, ← List.rtake_concat_succ, hpos]

/-- Several events move the window on to `logged ++ events`. -/
theorem Window.pushAll (h : Window capacity logged b) (events : List Event) :
    Window capacity (logged ++ events) (b.pushAll events) := by
  induction events generalizing logged b with
  | nil => rwa [List.append_nil]
  | cons e events ih =>
    rw [List.append_cons]
    exact ih (h.push e)

/-- If `events` fit into the capacity, an empty buffer keeps all of them, in order. -/
theorem toList_pushAll {events : List Event} (h : events.length ≤ max capacity 1) :
    ((ofCapacity capacity).pushAll events).toList = events := by
  have hwindow := (window_ofCapacity capacity).pushAll events
  rw [hwindow.toList_eq, hwindow.capacity_eq, List.nil_append, List.rtake, Nat.sub_eq_zero_of_le h, List.drop_zero]

/-- **Any calls.** The window after `calls` is the end of `sinceClear calls`. -/
theorem window_afterCalls (capacity : Nat) (calls : List Call) :
    Window capacity (sinceClear calls) ((ofCapacity capacity).afterCalls calls) := by
  -- By induction on the number of calls, since the last clear is found from the end.
  induction calls using List.reverseRecOn with
  | nil => exact window_ofCapacity capacity
  | append_singleton calls c ih =>
    rw [afterCalls, List.foldl_append]
    cases c with
    | log e =>
      rw [sinceClear_log]
      exact ih.push e
    | clear =>
      rw [sinceClear_clear]
      exact ih.clear

/-- **Window.** After any calls, `b` holds the events `kept`: those logged since the last clear, or the last
`max capacity 1` of them, in the order in which they were logged. Of these events
* `size` and `summary` are the numbers of all, of errors and of warnings;
* `errors` and `withCode` are sublists in the same order;
* `hasErrorWithCode` asks whether one of them is an error with the code. -/
theorem toList_afterCalls (capacity : Nat) (calls : List Call) :
    let b := (ofCapacity capacity).afterCalls calls
    let kept := (sinceClear calls).rtake (max capacity 1)
    b.toList = kept ∧ b.size = kept.length ∧
      b.summary = ⟨kept.length, kept.countP Event.isError, kept.countP Event.isWarning⟩ ∧
      b.errors = kept.filter Event.isError ∧
      ∀ code, b.withCode code = kept.filter (·.code = code) ∧
        (b.withCode code).length = kept.countP (·.code = code) ∧
        (b.hasErrorWithCode code = true ↔ ∃ e ∈ kept, e.isError = true ∧ e.code = code) := by
  intro b kept
  have hwindow := window_afterCalls capacity calls
  have hkept : b.toList = kept := by rw [hwindow.toList_eq, hwindow.capacity_eq]
  have hcode (code : Code) : b.withCode code = kept.filter (·.code = code) := by
    rw [withCode, hkept]
    rfl
  refine ⟨hkept, ?_, ?_, ?_, fun code => ⟨hcode code, ?_, ?_⟩⟩
  · rw [hwindow.size_eq, hkept]
  · rw [summary, hkept]
  · rw [errors, hkept]
  · rw [hcode, List.countP_eq_length_filter]
  · rw [hasErrorWithCode, hkept, List.any_eq_true]
    simp

end Buffer

end BoolCalc.Log
