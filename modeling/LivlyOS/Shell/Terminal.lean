import LivlyOS.Drivers.KeyboardQueue
import LivlyOS.Shell.FileCommands
import LivlyOS.Shell.Sessions

/-! The keyboard, the shell and the volume together. Scancodes come at any time; the shell takes the
bytes that they stand for, one at a time, and runs the commands of each line before it reads on. -/

namespace LivlyOS.Shell

open LivlyOS.Drivers LivlyOS.Fs LivlyOS.Lib

/-- The bytes that a scancode pushes. -/
def keyOf (behind : List Char → Nat → UInt8) (kb : KeyboardState) (scancode : UInt8) : List UInt8 :=
  (keyboardHandler behind { kb with buffer := emptyBuffer } scancode).buffer.contents

/-- The bytes behind a stream of scancodes. -/
def keysOf (behind : List Char → Nat → UInt8) : KeyboardState → List UInt8 → List UInt8
  | _, [] => []
  | kb, scancode :: rest => keyOf behind kb scancode ++ keysOf behind (keyboardHandler behind kb scancode) rest

/-- A function of the buffer that pushes at most one byte, whatever the buffer is. -/
def Pushes (handler : KeyboardBuffer UInt8 → KeyboardState) : Prop :=
  ∃ (kb : KeyboardState) (key : Option UInt8), ∀ buffer, handler buffer = { kb with buffer := key.elim buffer (keyboardPush buffer) }

namespace Pushes

theorem ite {p : Prop} [Decidable p] {first second : KeyboardBuffer UInt8 → KeyboardState} (left : Pushes first)
    (right : Pushes second) : Pushes fun buffer => if p then first buffer else second buffer := by
  by_cases holds : p
  · simpa only [if_pos holds] using left
  · simpa only [if_neg holds] using right

theorem keep (letztes shift ctrl extended : UInt8) : Pushes fun buffer => ⟨letztes, shift, ctrl, extended, buffer⟩ :=
  ⟨⟨letztes, shift, ctrl, extended, emptyBuffer⟩, none, fun _ => rfl⟩

theorem push (letztes shift ctrl extended c : UInt8) : Pushes fun buffer => KeyboardState.push ⟨letztes, shift, ctrl, extended, buffer⟩ c :=
  ⟨⟨letztes, shift, ctrl, extended, emptyBuffer⟩, some c, fun _ => rfl⟩

end Pushes

theorem keyboardHandler_pushes (behind : List Char → Nat → UInt8) (kb : KeyboardState) (scancode : UInt8) :
    Pushes fun buffer => keyboardHandler behind { kb with buffer } scancode := by
  unfold keyboardHandler KeyboardState.extendedKey KeyboardState.ctrlKey KeyboardState.charKey
  dsimp +instances only
  repeat' refine Pushes.ite ?_ ?_
  all_goals first | exact Pushes.keep _ _ _ _ | exact Pushes.push _ _ _ _ _

theorem emptyBuffer_contents : emptyBuffer.contents = [] := rfl

theorem keyOf_eq {kb kb' : KeyboardState} {key : Option UInt8}
    (pushes : ∀ buffer, keyboardHandler behind { kb with buffer } scancode =
      { kb' with buffer := key.elim buffer (keyboardPush buffer) }) : keyOf behind kb scancode = key.toList := by
  rw [keyOf, pushes]
  cases key with
  | none => exact emptyBuffer_contents
  | some c =>
    have pushed := CircularBuffer.contents_push emptyBuffer c (by decide)
    rw [emptyBuffer_contents] at pushed
    exact pushed

theorem keyOf_length (behind : List Char → Nat → UInt8) (kb : KeyboardState) (scancode : UInt8) :
    (keyOf behind kb scancode).length ≤ 1 := by
  obtain ⟨kb', key, pushes⟩ := keyboardHandler_pushes behind kb scancode
  rw [keyOf_eq pushes]
  cases key <;> simp

/-- With room for it the byte comes behind the others. -/
theorem keyboardHandler_contents (behind : List Char → Nat → UInt8) (kb : KeyboardState) (scancode : UInt8)
    (room : kb.buffer.unread + 1 < kbBufferSize) :
    (keyboardHandler behind kb scancode).buffer.contents = kb.buffer.contents ++ keyOf behind kb scancode := by
  obtain ⟨kb', key, pushes⟩ := keyboardHandler_pushes behind kb scancode
  have here : keyboardHandler behind kb scancode = _ := pushes kb.buffer
  rw [keyOf_eq pushes, here]
  cases key with
  | none => exact (List.append_nil _).symm
  | some c => exact CircularBuffer.contents_push kb.buffer c room

theorem keyboardHandler_buffer (behind : List Char → Nat → UInt8) (kb : KeyboardState) (buffer : KeyboardBuffer UInt8)
    (scancode : UInt8) : ∃ pushed, keyboardHandler behind { kb with buffer } scancode =
      { keyboardHandler behind kb scancode with buffer := pushed } := by
  obtain ⟨kb', key, pushes⟩ := keyboardHandler_pushes behind kb scancode
  have here : keyboardHandler behind kb scancode = _ := pushes kb.buffer
  have there : keyboardHandler behind { kb with buffer } scancode = _ := pushes buffer
  exact ⟨_, by rw [here, there]⟩

theorem keysOf_concat (behind : List Char → Nat → UInt8) (kb : KeyboardState) (codes : List UInt8) (scancode : UInt8) :
    keysOf behind kb (codes ++ [scancode]) =
      keysOf behind kb codes ++ keyOf behind (codes.foldl (keyboardHandler behind) kb) scancode := by
  induction codes generalizing kb with
  | nil => exact List.append_nil _
  | cons first rest ih => rw [List.cons_append, keysOf, ih, keysOf, List.append_assoc, List.foldl_cons]

/-- The keyboard, the shell with the calls of its last line that are still to come, and the volume with what
its functions have handed back. -/
structure Terminal where
  kb : KeyboardState
  sh : ShellState
  pending : List Call
  fs : FatState
  answers : List FileAnswer

/-- The keyboard before the first scancode and the shell before the first byte. -/
def Terminal.start (stack : Int → UInt8) (fs : FatState) : Terminal := ⟨keyboardStart, shellInit stack, [], fs, []⟩

/-- A scancode arrives, the shell reads a byte, or it goes on with its line; `buf` is what `kmalloc` returns then. -/
inductive TerminalEvent where
  | scancode (code : UInt8)
  | read
  | call (fuel : Nat) (buf : Option Bytes)

/-- The scancode that arrives. -/
def TerminalEvent.code : TerminalEvent → Option UInt8
  | .scancode code => some code
  | .read => none
  | .call _ _ => none

section Steps

variable (behind : List Char → Nat → UInt8) (stack : Int → UInt8)

def Terminal.step : TerminalEvent → Terminal → Option Terminal
  | .scancode code, term => some { term with kb := keyboardHandler behind term.kb code }
  | .read, term =>
    if term.pending ≠ [] then none
    else do
      let (c, buffer) ← keyboardRead term.kb.buffer
      let sh ← shellKey c term.sh
      let term := { term with kb := { term.kb with buffer }, sh }
      if c = 10 then (shellExecute stack (sh.executed.headD [])).map fun pending => { term with pending }
      else some term
  | .call fuel buf, term =>
    match term.pending with
    | [] => none
    | call :: pending => (call.run buf fuel term.fs).map fun result =>
        { term with pending, fs := result.2, answers := term.answers ++ result.1.toList }

/-- A step, and beside it the map after the call that it makes. -/
def TerminalStep (before : Terminal × FileStore) (event : TerminalEvent) (after : Terminal × FileStore) : Prop :=
  before.1.step behind stack event = some after.1 ∧
    after.2 = match event, before.1.pending with
      | .call _ _, call :: _ => call.onStore before.2
      | _, _ => before.2

/-- The keyboard buffer has room for the byte of a scancode, the history counts on, and a call is served. -/
def TerminalOk (foreign : Set FileName) (state : Terminal × FileStore) : TerminalEvent → Prop
  | .scancode _ => state.1.kb.buffer.unread + 1 < kbBufferSize
  | .read => state.1.sh.historyCount < 2 ^ 31 - 1
  | .call _ buf => ∀ call ∈ state.1.pending.head?, call.Served foreign buf (state.1.fs, state.2)

/-- The calls of a line. -/
def callsOf (line : List UInt8) : List Call := (shellExecute stack line).getD []

/-- The terminal has taken some of the keys that the scancodes stand for, the others are in the buffer; it has
made some of the calls of the lines that these keys enter, the others are pending; and the volume keeps the map after the
former. -/
structure Follows (foreign : Set FileName) (first : FileStore) (codes taken : List UInt8) (finished : List Call)
    (term : Terminal) (store : FileStore) : Prop where
  modifiers : term.kb = { codes.foldl (keyboardHandler behind) keyboardStart with buffer := term.kb.buffer }
  keys : keysOf behind keyboardStart codes = taken ++ term.kb.buffer.contents
  shell : Shows term.sh (LineEditor.start.run taken)
  calls : (LineEditor.start.run taken).lines.reverse.flatMap (callsOf stack) = finished ++ term.pending
  stored : store = FileStore.spec.after first (finished.filterMap Call.fileCall)
  answers : term.answers = FileStore.spec.answers first (finished.filterMap Call.fileCall)
  keeps : Keeps foreign term.fs store

end Steps

theorem run_concat (ref : LineEditor) (keys : List UInt8) (c : UInt8) :
    ref.run (keys ++ [c]) = (ref.run keys).press c := List.foldl_append

theorem press_other (ref : LineEditor) (other : c ≠ 10) : (ref.press c).lines = ref.lines := by
  unfold LineEditor.press LineEditor.up LineEditor.down LineEditor.type LineEditor.goTo
  rw [if_neg other]
  split_ifs <;> rfl

theorem entered_cons_le (line : List UInt8) (lines : List (List UInt8)) :
    (entered (line :: lines)).length ≤ (entered lines).length + 1 := by
  unfold entered
  rw [List.filter_cons]
  split <;> simp

/-- As long as the counter can count, the next key is served. -/
theorem press_few {sh : ShellState} {ref : LineEditor} (shows : Shows sh ref) (counts : sh.historyCount < 2 ^ 31 - 1)
    (c : UInt8) : (entered (ref.press c).lines).length < 2 ^ 31 := by
  have count := shows.history.count
  rcases ref.press_lines c with same | more
  · rw [same]
    omega
  · rw [more]
    have atMost := entered_cons_le ref.line.text ref.lines
    omega

namespace Follows

variable {behind : List Char → Nat → UInt8} {stack : Int → UInt8} {foreign : Set FileName}
  {first : FileStore} {codes taken : List UInt8} {finished : List Call} {term term' : Terminal} {store : FileStore}

theorem scancode (follows : Follows behind stack foreign first codes taken finished term store)
    (room : term.kb.buffer.unread + 1 < kbBufferSize) (code : UInt8) :
    Follows behind stack foreign first (codes ++ [code]) taken finished
      { term with kb := keyboardHandler behind term.kb code } store := by
  obtain ⟨modifiers, keys, shell, calls, stored, answers, keeps⟩ := follows
  refine ⟨?_, ?_, shell, calls, stored, answers, keeps⟩
  · obtain ⟨pushed, same⟩ := keyboardHandler_buffer behind (codes.foldl (keyboardHandler behind) keyboardStart)
      term.kb.buffer code
    rw [← modifiers] at same
    rw [List.foldl_append, same]
    rfl
  · have key : keyOf behind (codes.foldl (keyboardHandler behind) keyboardStart) code = keyOf behind term.kb code := by
      rw [modifiers]
      rfl
    rw [keysOf_concat, keys, key, List.append_assoc, ← keyboardHandler_contents behind term.kb code room]

theorem read (follows : Follows behind stack foreign first codes taken finished term store)
    (counts : term.sh.historyCount < 2 ^ 31 - 1) (step : term.step behind stack .read = some term') :
    ∃ c, term.kb.buffer.contents = c :: term'.kb.buffer.contents ∧ (c ≠ 10 → term'.pending = []) ∧ term'.fs = term.fs ∧
      Follows behind stack foreign first codes (taken ++ [c]) finished term' store := by
  obtain ⟨modifiers, keys, shell, calls, stored, answers, keeps⟩ := follows
  rw [Terminal.step] at step
  split at step
  · cases step
  · rename_i idle
    obtain ⟨⟨c, buffer⟩, popped, step⟩ := Option.bind_eq_some_iff.mp step
    obtain ⟨sh, typed, step⟩ := Option.bind_eq_some_iff.mp step
    obtain ⟨sh', expected, shows⟩ := shellKey_shows shell c (press_few shell counts c)
    cases typed.symm.trans expected
    have nothing : term.pending = [] := not_not.mp idle
    rw [nothing, List.append_nil] at calls
    have front := CircularBuffer.contents_pop popped
    rw [front, List.append_cons] at keys
    rw [← run_concat] at shows
    have pulled : { term.kb with buffer } =
        { codes.foldl (keyboardHandler behind) keyboardStart with buffer := buffer } := by rw [modifiers]
    refine ⟨c, ?_⟩
    dsimp only at step
    split at step
    · rename_i enter
      obtain ⟨pending, executed, rfl⟩ := Option.map_eq_some_iff.mp step
      have lines : (LineEditor.start.run (taken ++ [c])).lines =
          (LineEditor.start.run taken).line.text :: (LineEditor.start.run taken).lines := by
        rw [run_concat, enter]
        rfl
      refine ⟨front, fun other => absurd enter other, rfl, pulled, keys, shows, ?_, stored, answers, keeps⟩
      rw [shows.history.executed, lines, List.headD_cons] at executed
      rw [lines, List.reverse_cons, List.flatMap_append, calls, List.flatMap_singleton, callsOf, executed]
      rfl
    · rename_i other
      cases step
      refine ⟨front, fun _ => nothing, rfl, pulled, keys, shows, ?_, stored, answers, keeps⟩
      rw [run_concat, press_other _ other, calls, nothing, List.append_nil]

theorem call (follows : Follows behind stack foreign first codes taken finished term store) {next : Call}
    (pending : term.pending = next :: rest) (served : next.Served foreign buf (term.fs, store))
    (step : term.step behind stack (.call fuel buf) = some term') :
    Follows behind stack foreign first codes taken (finished ++ [next]) term' (next.onStore store) := by
  obtain ⟨modifiers, keys, shell, calls, stored, answers, keeps⟩ := follows
  rw [Terminal.step, pending] at step
  obtain ⟨⟨answer, fs⟩, ran, rfl⟩ := Option.map_eq_some_iff.mp step
  obtain ⟨rfl, kept⟩ := Call.run_keeps keeps served ran
  refine ⟨modifiers, keys, shell, ?_, ?_, ?_, kept⟩
  · rw [calls, pending, List.append_cons]
  · rw [List.filterMap_append, Call.onStore, stored]
    cases onFile : next.fileCall with
    | none => rw [List.filterMap_cons_none onFile, List.filterMap_nil, List.append_nil, Option.elim_none]
    | some file =>
      rw [List.filterMap_cons_some onFile, List.filterMap_nil, Spec.after_concat, Option.elim_some]
  · rw [List.filterMap_append, answers]
    cases onFile : next.fileCall with
    | none => rw [List.filterMap_cons_none onFile, List.filterMap_nil, List.append_nil, Option.map_none,
        Option.toList_none, List.append_nil]
    | some file =>
      rw [List.filterMap_cons_some onFile, List.filterMap_nil, Spec.answers_concat, Option.map_some, stored,
        Option.toList_some]

theorem step (follows : Follows behind stack foreign first codes taken finished before.1 before.2)
    (allowed : TerminalOk foreign before event) (step : TerminalStep behind stack before event after) :
    ∃ taken' finished', Follows behind stack foreign first (codes ++ event.code.toList) taken' finished' after.1 after.2 := by
  obtain ⟨term, store⟩ := before
  obtain ⟨term', store'⟩ := after
  obtain ⟨step, rfl⟩ := step
  cases event with
  | scancode code =>
    cases step
    exact ⟨_, _, follows.scancode allowed code⟩
  | read =>
    obtain ⟨c, _, _, _, follows⟩ := follows.read allowed step
    exact ⟨_, _, by rwa [TerminalEvent.code, Option.toList_none, List.append_nil]⟩
  | call fuel buf =>
    rw [TerminalEvent.code, Option.toList_none, List.append_nil]
    cases pending : term.pending with
    | nil =>
      rw [Terminal.step, pending] at step
      cases step
    | cons next rest =>
      have served : next.Served foreign buf (term.fs, store) := allowed next (by rw [pending]; rfl)
      exact ⟨taken, finished ++ [next], follows.call pending served step⟩

theorem run (run : Run (TerminalStep behind stack) (TerminalOk foreign) before events stop)
    (follows : Follows behind stack foreign first codes taken finished before.1 before.2) :
    ∃ taken' finished', Follows behind stack foreign first (codes ++ events.filterMap TerminalEvent.code) taken' finished'
      stop.1 stop.2 := by
  induction run generalizing codes taken finished with
  | done => exact ⟨taken, finished, by rwa [List.filterMap_nil, List.append_nil]⟩
  | @next _ event _ events _ allowed move rest ih =>
    obtain ⟨taken', finished', later⟩ := follows.step allowed move
    obtain ⟨taken', finished', last⟩ := ih later
    refine ⟨taken', finished', ?_⟩
    have split : (event :: events).filterMap TerminalEvent.code = event.code.toList ++ events.filterMap TerminalEvent.code := by
      cases code : event.code with
      | none => rw [List.filterMap_cons_none code, Option.toList_none, List.nil_append]
      | some c => rw [List.filterMap_cons_some code, Option.toList_some, List.singleton_append]
    rwa [split, ← List.append_assoc]

theorem start (keeps : Keeps foreign fs first) :
    Follows behind stack foreign first [] [] [] (.start stack fs) first where
  modifiers := rfl
  keys := by rw [keysOf, List.nil_append, Terminal.start, keyboardStart, emptyBuffer_contents]
  shell := shellInit_shows stack
  calls := rfl
  stored := rfl
  answers := rfl
  keeps := keeps

/-- With nothing else to do, the shell takes the byte that waits, unless the line that it enters overflows an array. -/
theorem reads (follows : Follows behind stack foreign first codes taken finished term store)
    (idle : term.pending = []) (waits : term.kb.buffer.contents = c :: rest) (counts : term.sh.historyCount < 2 ^ 31 - 1)
    (fits : c = 10 → (shellExecute stack (LineEditor.start.run taken).line.text).isSome) :
    ∃ term', term.step behind stack .read = some term' := by
  have filled : 0 < term.kb.buffer.unread := by
    rw [← CircularBuffer.length_contents, waits]
    exact Nat.succ_pos _
  obtain ⟨⟨c', buffer⟩, popped⟩ := Option.isSome_iff_exists.mp ((keyboardRead_isSome_iff _).mpr filled)
  have same := (CircularBuffer.contents_pop popped).symm.trans waits
  obtain ⟨rfl, rfl⟩ := List.cons.inj same
  obtain ⟨sh, typed, shows⟩ := shellKey_shows follows.shell c' (press_few follows.shell counts c')
  by_cases enter : c' = 10
  · subst enter
    obtain ⟨pending, executed⟩ := Option.isSome_iff_exists.mp (fits rfl)
    have last : sh.executed.headD [] = (LineEditor.start.run taken).line.text := by
      rw [shows.history.executed]
      rfl
    refine ⟨⟨{ term.kb with buffer }, sh, pending, term.fs, term.answers⟩, ?_⟩
    simp only [Terminal.step, idle, popped, typed, bind, Option.bind_some, last, executed, ne_eq, not_true,
      if_false, if_true, Option.map_some]
  · refine ⟨⟨{ term.kb with buffer }, sh, term.pending, term.fs, term.answers⟩, ?_⟩
    simp only [Terminal.step, idle, popped, typed, bind, Option.bind_some, enter, ne_eq, not_true, if_false]

/-- Scancodes that the buffer has room for come in one by one. -/
theorem types (follows : Follows behind stack foreign first codes taken finished term store) (more : List UInt8)
    (room : term.kb.buffer.unread + more.length < kbBufferSize) :
    ∃ term', Run (TerminalStep behind stack) (TerminalOk foreign) (term, store) (more.map .scancode) (term', store) ∧
      Follows behind stack foreign first (codes ++ more) taken finished term' store ∧
      term'.pending = term.pending ∧ term'.sh = term.sh ∧ term'.fs = term.fs := by
  induction more generalizing codes term with
  | nil => exact ⟨term, .done, by rwa [List.append_nil], rfl, rfl, rfl⟩
  | cons code rest ih =>
    rw [List.length_cons] at room
    have fits : term.kb.buffer.unread + 1 < kbBufferSize := by omega
    have longer := congrArg List.length (keyboardHandler_contents behind term.kb code fits)
    have atMost := keyOf_length behind term.kb code
    rw [List.length_append, CircularBuffer.length_contents, CircularBuffer.length_contents] at longer
    obtain ⟨term', run, later, same⟩ := ih (follows.scancode fits code) (by
      change (keyboardHandler behind term.kb code).buffer.unread + rest.length < kbBufferSize
      omega)
    have arrives : TerminalStep behind stack (term, store) (.scancode code)
        ({ term with kb := keyboardHandler behind term.kb code }, store) := ⟨rfl, rfl⟩
    refine ⟨term', .next fits arrives run, ?_, same⟩
    rwa [List.append_cons]

/-- The shell takes the keys of a line up to Enter. -/
theorem takes (follows : Follows behind stack foreign first codes taken finished term store) (idle : term.pending = [])
    {keys rest : List UInt8} (waits : term.kb.buffer.contents = keys ++ rest) (noEnter : 10 ∉ keys)
    (counts : term.sh.historyCount < 2 ^ 31 - 1) :
    ∃ term', Run (TerminalStep behind stack) (TerminalOk foreign) (term, store)
        (List.replicate keys.length .read) (term', store) ∧
      Follows behind stack foreign first codes (taken ++ keys) finished term' store ∧
      term'.pending = [] ∧ term'.kb.buffer.contents = rest ∧ term'.sh.historyCount < 2 ^ 31 - 1 ∧ term'.fs = term.fs := by
  induction keys generalizing taken term with
  | nil => exact ⟨term, .done, by rwa [List.append_nil], idle, waits, counts, rfl⟩
  | cons c keys ih =>
    obtain ⟨other, noEnter⟩ := not_or.mp (mt List.mem_cons.mpr noEnter)
    obtain ⟨term', step⟩ := follows.reads idle waits counts fun enter => absurd enter.symm other
    obtain ⟨c', front, quiet, fs, later⟩ := follows.read counts step
    obtain ⟨rfl, waits⟩ := List.cons.inj (waits.symm.trans front)
    have count := follows.shell.history.count
    have count' := later.shell.history.count
    rw [run_concat, press_other _ (Ne.symm other)] at count'
    obtain ⟨term'', run, last⟩ := ih later (quiet (Ne.symm other)) waits.symm noEnter (by omega)
    have reads : TerminalStep behind stack (term, store) .read (term', store) := ⟨step, rfl⟩
    refine ⟨term'', .next counts reads run, ?_⟩
    rwa [List.append_cons, ← fs]

end Follows

/-- Whatever the order of the scancodes, the reads and the calls is, the shell gets the bytes behind the scancodes in
their order, enters the lines that they spell, and of the calls of these lines makes the first ones; these answer
as the map of files does, and the volume keeps the map behind them. The next call returns, and so does the next
read, unless it enters a line that overflows an array. -/
theorem terminal_run {behind : List Char → Nat → UInt8} {stack : Int → UInt8} {foreign : Set FileName}
    (keeps : Keeps foreign fs first)
    (run : Run (TerminalStep behind stack) (TerminalOk foreign) (Terminal.start stack fs, first) events stop) :
    ∃ taken finished,
      keysOf behind keyboardStart (events.filterMap TerminalEvent.code) = taken ++ stop.1.kb.buffer.contents ∧
      stop.1.sh.executed = (LineEditor.start.run taken).lines ∧
      stop.1.sh.executed.reverse.flatMap (callsOf stack) = finished ++ stop.1.pending ∧
      stop.1.answers = FileStore.spec.answers first (finished.filterMap Call.fileCall) ∧
      Keeps foreign stop.1.fs (FileStore.spec.after first (finished.filterMap Call.fileCall)) ∧
      (∀ call ∈ stop.1.pending.head?, ∀ buf, call.Served foreign buf (stop.1.fs, stop.2) →
        ∃ fuel term, stop.1.step behind stack (.call fuel buf) = some term) ∧
      ∀ c rest, stop.1.pending = [] → stop.1.kb.buffer.contents = c :: rest → stop.1.sh.historyCount < 2 ^ 31 - 1 →
        (c = 10 → (shellExecute stack (LineEditor.start.run taken).line.text).isSome) →
        ∃ term, stop.1.step behind stack .read = some term := by
  obtain ⟨taken, finished, follows⟩ := Follows.run run (Follows.start keeps)
  have executed := follows.shell.history.executed
  refine ⟨taken, finished, follows.keys, executed, ?_, follows.answers, ?_, ?_, ?_⟩
  · rw [executed, follows.calls]
  · rw [← follows.stored]
    exact follows.keeps
  · intro call first buf served
    obtain ⟨enough, runs⟩ := Call.run_serves follows.keeps served
    obtain ⟨fs', ran, _⟩ := runs enough (Nat.le_refl _)
    obtain ⟨rest, pending⟩ := List.head?_eq_some_iff.mp first
    exact ⟨enough, _, by rw [Terminal.step, pending]; exact congrArg (Option.map _) ran⟩
  · intro c rest idle waits counts fits
    exact follows.reads idle waits counts fits

theorem typed_cat : keysOf (fun _ _ => 0) keyboardStart [0x2E, 0x1E, 0x14, 0x39, 0x2A, 0x1E, 0xAA, 0x1C] = bytes "cat A" ++ [10] := by
  decide

theorem callsOf_cat : callsOf (fun _ => 0) (bytes "cat A") = [.fatReadFile [0x41]] := by decide

theorem fileCall_cat : (Call.fatReadFile [0x41]).fileCall = some (.load fileA fun _ => 0) := by
  have named : fileName [0x41] = some fileA := dif_pos ⟨fileA.visible, fileA.nonempty, fileA.short⟩
  rw [Call.fileCall, named, Option.map_some]

/-- A pending call on a file can be made, and gets the answer of the map. -/
theorem file_call_made (keeps : Keeps foreign term.fs store) (pending : term.pending = call :: rest)
    (onFile : call.fileCall = some file) (served : call.Served foreign buf (term.fs, store)) :
    ∃ fuel fs, TerminalOk foreign (term, store) (.call fuel buf) ∧
      TerminalStep behind stack (term, store) (.call fuel buf)
        ({ term with pending := rest, fs, answers := term.answers ++ [FileStore.spec.answer store file] },
          FileStore.spec.next store file) := by
  obtain ⟨enough, runs⟩ := Call.run_serves keeps served
  obtain ⟨fs, ran, _⟩ := runs enough (Nat.le_refl _)
  refine ⟨enough, fs, fun next first => ?_, ?_, ?_⟩
  · rw [pending] at first
    cases first
    exact served
  · rw [onFile] at ran
    rw [Terminal.step, pending]
    exact congrArg (Option.map _) ran
  · rw [pending]
    change _ = call.onStore store
    rw [Call.onStore, onFile, Option.elim_some]

/-- `cat A` on a volume with such a file. -/
theorem terminal_run_cat : ∃ fs store events stop,
    Run (TerminalStep (fun _ _ => 0) fun _ => 0) (TerminalOk ∅) (Terminal.start (fun _ => 0) fs, store) events stop ∧
    events.filterMap TerminalEvent.code = [0x2E, 0x1E, 0x14, 0x39, 0x2A, 0x1E, 0xAA, 0x1C] ∧
    stop.1.sh.executed = [bytes "cat A"] ∧ stop.1.answers = [.contents [0, 1, 2]] ∧ Keeps ∅ stop.1.fs store := by
  obtain ⟨fs, saved, small⟩ := emptyVolume_saved
  obtain ⟨_, _, keeps⟩ := (fileCalls_meet ∅).run saved emptyVolume_keeps
  generalize known : FileStore.spec.after (fun _ => none)
    [.create fileA [0x54], .save fileA (fun index => UInt8.ofNat index) 3] = store at keeps
  have stored : FileStore.spec.answer store (.load fileA fun _ => 0) = .contents [0, 1, 2] := by
    rw [← known]
    decide
  have begin : Follows (fun _ _ => 0) (fun _ => 0) ∅ store [] [] [] (.start (fun _ => 0) fs) store := .start keeps
  obtain ⟨term1, run1, follows1, idle1, sh1, fs1⟩ := begin.types [0x2E, 0x1E, 0x14, 0x39, 0x2A, 0x1E, 0xAA, 0x1C] (by
    change keyboardStart.buffer.unread + _ < kbBufferSize
    decide)
  have waits1 : term1.kb.buffer.contents = bytes "cat A" ++ [10] := follows1.keys.symm.trans typed_cat
  have counts1 : term1.sh.historyCount < 2 ^ 31 - 1 := by
    rw [sh1]
    change (shellInit fun _ => 0).historyCount < 2 ^ 31 - 1
    decide
  obtain ⟨term2, run2, follows2, idle2, waits2, counts2, fs2⟩ := follows1.takes idle1 waits1 (by decide) counts1
  obtain ⟨term3, step3⟩ := follows2.reads idle2 waits2 counts2 fun _ => by decide
  obtain ⟨c, front, _, fs3, follows3⟩ := follows2.read counts2 step3
  obtain ⟨rfl, empty⟩ := List.cons.inj (waits2.symm.trans front)
  have pending : term3.pending = [.fatReadFile [0x41]] := follows3.calls.symm.trans callsOf_cat
  have disk : term3.fs = fs := fs3.trans (fs2.trans fs1)
  have known : fileA ∉ (∅ : Set FileName) := Set.notMem_empty fileA
  have fits : Apps.CatFits [0x41] term3.fs := catFits_small follows3.keeps known (by rw [disk, small]; decide)
  have served : (Call.fatReadFile [0x41]).Served ∅ (some fun _ => 0) (term3.fs, store) := by
    refine ⟨⟨Option.some_ne_none _, fits⟩, ?_⟩
    rw [fileCall_cat]
    exact known
  obtain ⟨fuel, after, allowed, made⟩ := file_call_made follows3.keeps pending fileCall_cat served
  have entered : TerminalStep (fun _ _ => 0) (fun _ => 0) (term2, store) .read (term3, store) := ⟨step3, rfl⟩
  have ready : TerminalOk ∅ (term2, store) .read := counts2
  have run := run1.append (run2.append (.next ready entered (.next allowed made .done)))
  refine ⟨fs, store, _, _, run, rfl, ?_⟩
  obtain ⟨taken, finished, keys, executed, calls, answers, keeps, _, _⟩ := terminal_run keeps run
  rw [← empty, List.append_nil] at keys
  obtain rfl : bytes "cat A" ++ [10] = taken := typed_cat.symm.trans keys
  have line : (LineEditor.start.run (bytes "cat A" ++ [10])).lines = [bytes "cat A"] := by decide
  rw [line] at executed
  rw [executed, List.append_nil] at calls
  obtain rfl : [.fatReadFile [0x41]] = finished := callsOf_cat.symm.trans calls
  rw [List.filterMap_cons_some fileCall_cat] at answers keeps
  refine ⟨executed, ?_, keeps⟩
  rw [answers, ← stored]
  rfl

end LivlyOS.Shell
