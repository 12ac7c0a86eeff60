import LivlyOS.Drivers.Keyboard
import LivlyOS.Lib.Run

namespace LivlyOS.Drivers

open LivlyOS.Lib CircularBuffer

inductive KeyAction where
  | push (c : UInt8)
  | read

/-- The buffer with every byte that went in and every byte that was read. -/
structure KeyboardLog where
  buffer : KeyboardBuffer UInt8
  pushed : List UInt8
  got : List UInt8

def emptyLog : KeyboardLog := ⟨emptyBuffer, [], []⟩

/-- A call of `keyboard_push` or `keyboard_read`; a read that waits is no step. -/
def KeyboardLog.act (log : KeyboardLog) : KeyAction → Option KeyboardLog
  | .push c => some { log with buffer := keyboardPush log.buffer c, pushed := log.pushed ++ [c] }
  | .read => (keyboardRead log.buffer).map fun result =>
      { log with buffer := result.2, got := log.got ++ [result.1] }

def KeyboardStep (log : KeyboardLog) (action : KeyAction) (log' : KeyboardLog) : Prop := log.act action = some log'

/-- At most KB_BUFFER_SIZE - 1 bytes are unread after the call. -/
def HasRoom (log : KeyboardLog) : KeyAction → Prop
  | .push _ => log.pushed.length + 1 ≤ log.got.length + (kbBufferSize - 1)
  | .read => True

/-- No byte is lost, doubled or moved: what was read and what is in the buffer is what was pushed. -/
def KeyboardLog.Conserves (log : KeyboardLog) : Prop := log.pushed = log.got ++ log.buffer.contents

namespace KeyboardLog

theorem Conserves.unread (conserves : Conserves log) : log.pushed.length = log.got.length + log.buffer.unread := by
  rw [conserves, List.length_append, length_contents]

theorem empty_conserves : emptyLog.Conserves := rfl

theorem step_conserves (conserves : Conserves log) (room : HasRoom log action) (step : KeyboardStep log action log') :
    Conserves log' := by
  cases action with
  | push c =>
    cases step
    have count := conserves.unread
    have free : log.buffer.unread + 1 < kbBufferSize := by
      change log.pushed.length + 1 ≤ log.got.length + (kbBufferSize - 1) at room
      omega
    change log.pushed ++ [c] = log.got ++ (log.buffer.push c).contents
    rw [contents_push _ _ free, ← List.append_assoc, ← conserves]
  | read =>
    obtain ⟨⟨c, buffer⟩, popped, rfl⟩ := Option.map_eq_some_iff.mp step
    change log.pushed = log.got ++ [c] ++ buffer.contents
    rw [conserves, contents_pop popped, List.append_assoc, List.singleton_append]

theorem run_conserves (run : Run KeyboardStep HasRoom emptyLog actions log) : Conserves log :=
  run.invariant Conserves (fun _ _ _ => step_conserves) empty_conserves

end KeyboardLog

theorem keyboardRead_isSome_iff (buffer : KeyboardBuffer α) : (keyboardRead buffer).isSome ↔ 0 < buffer.unread :=
  buffer.pop_isSome_iff

/-- The bytes come out as they went in, and the reader waits exactly when it has read them all. -/
theorem keyboard_fifo (run : Run KeyboardStep HasRoom emptyLog actions log) :
    log.got <+: log.pushed ∧ ((keyboardRead log.buffer).isSome ↔ log.got.length < log.pushed.length) := by
  have conserves := KeyboardLog.run_conserves run
  constructor
  · exact ⟨log.buffer.contents, conserves.symm⟩
  · rw [keyboardRead_isSome_iff, conserves.unread]
    omega

theorem keyboard_fifo_two_keys :
    ∃ log, Run KeyboardStep HasRoom emptyLog [.push 97, .push 98, .read] log ∧ log.got = [97] ∧
      log.got <+: log.pushed ∧ ((keyboardRead log.buffer).isSome ↔ log.got.length < log.pushed.length) := by
  have run : Run KeyboardStep HasRoom emptyLog [.push 97, .push 98, .read] _ :=
    .next (by simp [HasRoom, emptyLog]) rfl (.next (by simp [HasRoom, emptyLog]) rfl (.next trivial rfl .done))
  exact ⟨_, run, rfl, keyboard_fifo run⟩

/-- Everything the reader gets until it waits. -/
def readAll (buffer : KeyboardBuffer α) : List α := buffer.popAll kbBufferSize

theorem readAll_eq (buffer : KeyboardBuffer α) : readAll buffer = buffer.contents :=
  buffer.popAll_eq (Nat.le_of_lt buffer.unread_lt)

/-- The buffer after more bytes came in, each byte marked with whether it was there before. -/
def markedPushes (buffer : KeyboardBuffer UInt8) (typed : List UInt8) : KeyboardBuffer (UInt8 × Bool) :=
  (typed.map fun c => (c, false)).foldl keyboardPush (buffer.map fun c => (c, true))

/-- Without the marks this is what the driver does. -/
theorem markedPushes_erased (buffer : KeyboardBuffer UInt8) (typed : List UInt8) :
    (readAll (markedPushes buffer typed)).map Prod.fst = readAll (typed.foldl keyboardPush buffer) := by
  rw [readAll_eq, readAll_eq, ← contents_map]
  change (((buffer.map _).pushAll _).map _).contents = (buffer.pushAll typed).contents
  rw [map_pushAll, List.map_map]
  congr 2
  exact List.map_id typed

/-- Of the bytes in the buffer, those that the reader still gets after more bytes came in. -/
def survivors (buffer : KeyboardBuffer UInt8) (typed : List UInt8) : List UInt8 :=
  ((readAll (markedPushes buffer typed)).filter Prod.snd).map Prod.fst

/-- New bytes displace at most one old byte each, and the others are read in their order. -/
def KeepsTypeAhead (buffer : KeyboardBuffer UInt8) (typed : List UInt8) : Prop :=
  (readAll buffer).length - typed.length ≤ (survivors buffer typed).length ∧
    (survivors buffer typed).Sublist (readAll buffer)

/-- The first byte beyond a full buffer makes it count as empty, so that no old byte is read. -/
theorem survivors_full (full : (readAll buffer).length = kbBufferSize - 1) (more : typed ≠ []) :
    survivors buffer typed = [] := by
  rw [readAll_eq, length_contents] at full
  have count : (buffer.map fun c => (c, true)).unread = kbBufferSize - 1 := full
  have positive := List.length_pos_iff.mpr more
  obtain ⟨rounds, beyond⟩ : ∃ rounds, (kbBufferSize - 1 + typed.length) / kbBufferSize = rounds + 1 :=
    ⟨(kbBufferSize - 1 + typed.length) / kbBufferSize - 1, by
      have := (Nat.le_div_iff_mul_le (y := kbBufferSize - 1 + typed.length) (show 0 < kbBufferSize by decide)
        (x := 1)).mpr (by omega)
      omega⟩
  rw [survivors, readAll_eq]
  change ((((buffer.map fun c => (c, true)).pushAll (typed.map fun c => (c, false))).contents.filter _).map _) = _
  rw [contents_pushAll, count, List.length_map, beyond, List.drop_append, List.filter_append]
  have old : (buffer.map fun c => (c, true)).contents.drop (kbBufferSize * (rounds + 1)) = [] := by
    apply List.drop_eq_nil_of_le
    rw [length_contents, count, Nat.mul_succ]
    omega
  have new : ((typed.map fun c => (c, false)).drop
      (kbBufferSize * (rounds + 1) - (buffer.map fun c => (c, true)).contents.length)).filter Prod.snd = [] := by
    rw [List.filter_eq_nil_iff, ← List.map_drop]
    intro entry present
    obtain ⟨c, _, rfl⟩ := List.mem_map.mp present
    exact Bool.false_ne_true
  rw [old, new]
  rfl

theorem not_keepsTypeAhead (full : (readAll buffer).length = kbBufferSize - 1) (more : typed ≠ [])
    (fewer : typed.length < kbBufferSize - 1) : ¬ KeepsTypeAhead buffer typed := by
  rintro ⟨kept, _⟩
  rw [survivors_full full more, full, List.length_nil] at kept
  omega

/-- The buffer after KB_BUFFER_SIZE - 1 times the key `a`. -/
def fullBuffer : KeyboardBuffer UInt8 := (List.replicate (kbBufferSize - 1) 97).foldl keyboardPush emptyBuffer

theorem fullBuffer_full : (readAll fullBuffer).length = kbBufferSize - 1 := by
  have start : emptyBuffer.unread = 0 := rfl
  rw [readAll_eq]
  change (emptyBuffer.pushAll _).contents.length = _
  rw [contents_pushAll, start, List.length_replicate, Nat.zero_add, Nat.div_eq_of_lt (by decide), Nat.mul_zero,
    List.drop_zero, List.length_append, length_contents, start, List.length_replicate, Nat.zero_add]

theorem type_ahead_lost : ¬ KeepsTypeAhead fullBuffer [98] :=
  not_keepsTypeAhead fullBuffer_full (List.cons_ne_nil _ _) (by decide)

/-- A full buffer loses all its bytes at once: nothing is kept unless nothing had to be. -/
theorem keeps_type_ahead_iff (full : (readAll buffer).length = kbBufferSize - 1) (more : typed ≠ []) :
    KeepsTypeAhead buffer typed ↔ kbBufferSize - 1 ≤ typed.length := by
  constructor
  · intro keeps
    by_contra fewer
    exact not_keepsTypeAhead full more (Nat.lt_of_not_le fewer) keeps
  · intro enough
    unfold KeepsTypeAhead
    rw [survivors_full full more, full, List.length_nil]
    exact ⟨by omega, List.nil_sublist _⟩

theorem keeps_type_ahead_one_key : KeepsTypeAhead fullBuffer [98] ↔ kbBufferSize - 1 ≤ 1 :=
  keeps_type_ahead_iff fullBuffer_full (List.cons_ne_nil 98 [])

end LivlyOS.Drivers
