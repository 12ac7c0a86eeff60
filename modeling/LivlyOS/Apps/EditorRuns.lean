import LivlyOS.Apps.EditorSelection
import LivlyOS.Apps.EditorText

namespace LivlyOS.Apps

open LivlyOS.Lib

theorem endLine_spec (room : 0 ≤ ed.lineCount ∧ ed.lineCount < 200) (column : 0 ≤ x ∧ x ≤ 77)
    (lens : ∀ i, 0 ≤ i → i < ed.lineCount → LenOk ed.lineLen i) :
    ∃ lines lineLen, endLine ed x = some { ed with lines, lineLen, lineCount := ed.lineCount + 1 } ∧
      (∀ i, 0 ≤ i → i < ed.lineCount + 1 → LenOk lineLen i) := by
  obtain ⟨lines, ended, _⟩ := setChar_spec ed.lines room (show 0 ≤ x ∧ x < 78 by omega) 0
  obtain ⟨lineLen, set, here, others⟩ := writeCell_spec ed.lineLen room x
  refine ⟨lines, lineLen, ?_, fun i low high => ?_⟩
  · simp only [endLine, ended, set, bind, Option.bind]
  · by_cases last : i = ed.lineCount
    · rw [last, LenOk, here]
      exact column
    · rw [LenOk, others i last]
      exact lens i low (by omega)

/-- Reading a buffer gives at least one line and no line over 77 characters. -/
theorem bufToLines_spec (ed : EditorState) (x : Int) (buf : List UInt8) (room : 0 ≤ ed.lineCount ∧ ed.lineCount < 200) (column : 0 ≤ x ∧ x ≤ 77)
    (lens : ∀ i, 0 ≤ i → i < ed.lineCount → LenOk ed.lineLen i) :
    ∃ lines lineLen lineCount, bufToLines ed x buf = some { ed with lines, lineLen, lineCount } ∧
      (1 ≤ lineCount ∧ lineCount ≤ 200) ∧ (∀ i, 0 ≤ i → i < lineCount → LenOk lineLen i) := by
  induction buf generalizing ed x with
  | nil =>
    obtain ⟨lines, lineLen, ended, lens'⟩ := endLine_spec room column lens
    exact ⟨lines, lineLen, ed.lineCount + 1, ended, by omega, lens'⟩
  | cons byte rest ih =>
    by_cases newline : byte = 10
    · obtain ⟨lines1, lineLen1, ended, lens1⟩ := endLine_spec room column lens
      by_cases full : 200 ≤ ed.lineCount + 1
      · refine ⟨lines1, lineLen1, ed.lineCount + 1, ?_, by omega, lens1⟩
        simp only [bufToLines, if_pos newline, ended, if_pos full, bind, Option.bind]
      · have more : 0 ≤ ed.lineCount + 1 ∧ ed.lineCount + 1 < 200 := by omega
        obtain ⟨lines, lineLen, lineCount, ran, count, lens'⟩ :=
          ih { ed with lines := lines1, lineLen := lineLen1, lineCount := ed.lineCount + 1 } 0 more (by decide) lens1
        refine ⟨lines, lineLen, lineCount, ?_, count, lens'⟩
        simp only [bufToLines, if_pos newline, ended, if_neg full, ran, bind, Option.bind]
    · by_cases short : x < 78 - 1
      · obtain ⟨lines1, put, _⟩ := setChar_spec ed.lines room (show 0 ≤ x ∧ x < 78 by omega) byte
        obtain ⟨lines, lineLen, lineCount, ran, count, lens'⟩ :=
          ih { ed with lines := lines1 } (x + 1) room (by omega) lens
        refine ⟨lines, lineLen, lineCount, ?_, count, lens'⟩
        simp only [bufToLines, if_neg newline, if_pos short, put, ran, bind, Option.bind]
      · obtain ⟨lines, lineLen, lineCount, ran, count, lens'⟩ := ih ed x room column lens
        refine ⟨lines, lineLen, lineCount, ?_, count, lens'⟩
        simp only [bufToLines, if_neg newline, if_neg short, ran]

/-- Whatever the state held before, an opened file is in order. -/
theorem fatEditFile_spec (display : Display) (name file : List UInt8) (ed : EditorState) :
    ∃ ed', fatEditFile display name file ed = some ed' ∧ Editing ed' ∧ ed'.undo.count = 0 := by
  obtain ⟨lines, lineLen, lineCount, read, count, lens⟩ :=
    bufToLines_spec { edReset name ed with lineCount := 0 } 0 file ⟨Int.le_refl 0, (by decide : (0 : Int) < 200)⟩ (by decide) fun i low high =>
      absurd low (Int.not_le.mpr high)
  have notEmpty : ¬lineCount = 0 := by omega
  have state : Editing { edReset name ed with lines, lineLen, lineCount, screen := fun _ _ => (32, .console) } :=
    ⟨⟨count, ⟨Int.le_refl 0, by change 0 < lineCount; omega⟩, ⟨Int.le_refl 0, (lens 0 (Int.le_refl 0) (by omega)).1⟩,
      lens⟩, Int.le_refl 0, RingOk.clear _ _, RingOk.clear _ _, nofun⟩
  obtain ⟨ed', drawn, shape⟩ := edRenderFull_spec (state.drawable.viewFits display)
  have undo : ed'.undo.count = 0 := by
    obtain ⟨_, _, _, _, _, _, rfl⟩ := shape
    rfl
  refine ⟨ed', ?_, shape.editing state, undo⟩
  simp only [fatEditFile, edBufToLines, read, if_neg notEmpty, bind, Option.bind]
  exact drawn

/-- When a key finds a state it can handle: a key that replaces the selection needs
`DeleteFits`, Ctrl+Z the row of the line it puts back, and Ctrl+V a clipboard length that
was set, or happens to be small. -/
def KeyFits (press : KeyPress) (ed : EditorState) : Prop :=
  ((press.key = 10 ∨ press.key = 8 ∨ (0x20 ≤ press.key ∧ press.key < 0x80)) → ed.selActive = true → DeleteFits ed) ∧
    (press.key = 0x86 → ed.undo.count ≠ 0 → ed.undo.cy ed.undo.back.top < ed.lineCount) ∧
    (press.key = 0x85 → ed.clipboardLen ≤ 200 * 78)

instance (press : KeyPress) (ed : EditorState) : Decidable (KeyFits press ed) :=
  inferInstanceAs (Decidable (_ ∧ _ ∧ _))

theorem startSelection_editing (state : Editing ed) : Editing (startSelection ed) := by
  cases active : ed.selActive with
  | true =>
    rw [startSelection, if_pos active]
    exact state
  | false =>
    have column := state.column
    have len := state.cursorLen
    rw [startSelection, if_neg (by simp [active])]
    exact ⟨⟨state.count, state.row, state.column, state.lens⟩, state.view, state.undo, state.redo,
      fun _ => ⟨state.row, column.1, Int.le_trans column.2 len.2⟩⟩

theorem MovesAs.editing (moves : MovesAs move onDoc) (state : Editing ed) :
    ∃ ed', move ed = some ed' ∧ Editing ed' := by
  obtain ⟨above, left, right, below, shows⟩ := state.toStructural.shows
  obtain ⟨x, y, flag, moved, shown⟩ := moves ed ⟨above, left, right, below⟩ shows
  exact ⟨_, moved, shown.structural, state.view, state.undo, state.redo, state.selection⟩

theorem shiftArrow_safe (moves : MovesAs move onDoc) (state : Editing ed) :
    ∃ ed', shiftArrow move ed = some ed' ∧ Editing ed' := by
  obtain ⟨ed1, moved, state1⟩ := moves.editing (startSelection_editing state)
  have active : (startSelection ed).selActive = true := by
    unfold startSelection
    split
    · assumption
    · rfl
  obtain ⟨above, left, right, below, shows⟩ := (startSelection_editing state).toStructural.shows
  obtain ⟨x, y, flag, moved', _⟩ := moves _ ⟨above, left, right, below⟩ shows
  have shape := Option.some.inj (moved.symm.trans moved')
  obtain ⟨lineDirty, marked⟩ := markSelection_spec state1 (by rw [shape]; exact active)
  refine ⟨{ ed1 with lineDirty, statusDirty := 1 }, ?_,
    ⟨state1.count, state1.row, state1.column, state1.lens⟩, state1.view, state1.undo, state1.redo, state1.selection⟩
  simp only [shiftArrow, moved, marked, bind, Option.bind]

theorem plainArrow_safe (moves : MovesAs move onDoc) (state : Editing ed) :
    ∃ ed', plainArrow move ed = some ed' ∧ Editing ed' := by
  obtain ⟨lineDirty, cleared⟩ := edClearSelection_spec state
  have state1 : Editing { ed with lineDirty, selActive := false } :=
    ⟨⟨state.count, state.row, state.column, state.lens⟩, state.view, state.undo, state.redo, nofun⟩
  obtain ⟨ed', moved, state'⟩ := moves.editing state1
  refine ⟨ed', ?_, state'⟩
  simp only [plainArrow, cleared, moved, bind, Option.bind]

theorem edSave_safe (state : Editing ed) (room : Bool) : ∃ ed', edSave ed room = some ed' ∧ Editing ed' := by
  cases room with
  | false => exact ⟨ed, rfl, state⟩
  | true =>
    obtain ⟨above, left, right, below, shows⟩ := state.toStructural.shows
    exact ⟨_, edSave_spec shows, ⟨state.count, state.row, state.column, state.lens⟩, state.view, state.undo, state.redo,
      state.selection⟩

theorem edInsertNewline_safe (state : Editing ed) :
    ∃ ed', edInsertNewline ed = some ed' ∧ Editing ed' ∧ SameClip ed ed' := by
  obtain ⟨above, left, right, below, shows⟩ := state.toStructural.shows
  obtain ⟨ed', ran, state', clip, _⟩ := edInsertNewline_spec state shows
  exact ⟨ed', ran, state', clip⟩

theorem edInsertChar_safe (state : Editing ed) (c : UInt8) :
    ∃ ed', edInsertChar ed c = some ed' ∧ Editing ed' ∧ SameClip ed ed' := by
  obtain ⟨above, left, right, below, shows⟩ := state.toStructural.shows
  obtain ⟨ed', ran, state', clip, _⟩ := edInsertChar_spec state shows c
  exact ⟨ed', ran, state', clip⟩

theorem edPaste_safe (state : Editing ed) (short : ed.clipboardLen ≤ 200 * 78) :
    ∃ ed', edPaste ed = some ed' ∧ Editing ed' := by
  by_cases none : ed.clipboardLen = 0
  · exact ⟨ed, if_pos none, state⟩
  · rw [edPaste, if_neg none]
    obtain ⟨ed', ran, state', _⟩ := forUp_kept 0 ed.clipboardLen (fun i ed => do
        let c ← readCell (200 * 78) ed.clipboard i
        if c = 10 then edInsertNewline ed else edInsertChar ed c) ed (fun next => Editing next ∧ SameClip ed next)
      (fun i next low high ⟨state, clip⟩ => by
        rw [readCell_eq next.clipboard (by omega)]
        simp only [bind, Option.bind]
        split
        · obtain ⟨after, ran, state', clip'⟩ := edInsertNewline_safe state
          exact ⟨after, ran, state', clip'.1.trans clip.1, clip'.2.trans clip.2⟩
        · obtain ⟨after, ran, state', clip'⟩ := edInsertChar_safe state (next.clipboard i)
          exact ⟨after, ran, state', clip'.1.trans clip.1, clip'.2.trans clip.2⟩)
      ⟨state, rfl, rfl⟩
    exact ⟨ed', ran, state'⟩

theorem deleteThen_safe (state : Editing ed) (fits : ed.selActive = true → DeleteFits ed)
    (editing : ∀ ed, Editing ed → ∃ ed', edit ed = some ed' ∧ Editing ed') :
    ∃ ed', deleteThen edit ed = some ed' ∧ Editing ed' := by
  obtain ⟨ed1, deleted, state1, _⟩ := edDeleteSelection_safe state fits
  obtain ⟨ed', edited, state'⟩ := editing ed1 state1
  refine ⟨ed', ?_, state'⟩
  simp only [deleteThen, deleted, edited, bind, Option.bind]

theorem safe_ite [Decidable choice] (yes : choice → ∃ ed', first = some ed' ∧ Editing ed')
    (no : ¬choice → ∃ ed', second = some ed' ∧ Editing ed') :
    ∃ ed', (if choice then first else second) = some ed' ∧ Editing ed' := by
  by_cases holds : choice
  · rw [if_pos holds]
    exact yes holds
  · rw [if_neg holds]
    exact no holds

theorem edKey_safe (state : Editing ed) (press : KeyPress) (fits : KeyFits press ed) :
    ∃ ed', edKey press ed = some ed' ∧ Editing ed' := by
  obtain ⟨replace, undo, paste⟩ := fits
  refine safe_ite (fun _ => shiftArrow_safe moveUp_spec state) fun _ => ?_
  refine safe_ite (fun _ => shiftArrow_safe moveDown_spec state) fun _ => ?_
  refine safe_ite (fun _ => shiftArrow_safe moveLeft_spec state) fun _ => ?_
  refine safe_ite (fun _ => shiftArrow_safe moveRight_spec state) fun _ => ?_
  refine safe_ite (fun _ => plainArrow_safe moveUp_spec state) fun _ => ?_
  refine safe_ite (fun _ => plainArrow_safe moveDown_spec state) fun _ => ?_
  refine safe_ite (fun _ => plainArrow_safe moveLeft_spec state) fun _ => ?_
  refine safe_ite (fun _ => plainArrow_safe moveRight_spec state) fun _ => ?_
  refine safe_ite (fun _ => edSave_safe state press.room) fun _ => ?_
  refine safe_ite (fun _ => edCopySelection_safe state) fun _ => ?_
  refine safe_ite (fun pasted => edPaste_safe state (paste pasted)) fun _ => ?_
  refine safe_ite (fun undone => edDoUndo_spec state (undo undone)) fun _ => ?_
  refine safe_ite (fun _ => edDoRedo_spec state) fun _ => ?_
  refine safe_ite (fun newline => ?_) fun _ => ?_
  · refine deleteThen_safe state (replace (.inl newline)) fun ed state => ?_
    obtain ⟨ed', ran, state', _⟩ := edInsertNewline_safe state
    exact ⟨ed', ran, state'⟩
  refine safe_ite (fun backspace => safe_ite (fun _ => ?_) fun inactive => ?_) fun _ => ?_
  · obtain ⟨ed', ran, state', _⟩ := edDeleteSelection_safe state (replace (.inr (.inl backspace)))
    exact ⟨ed', ran, state'⟩
  · obtain ⟨above, left, right, below, shows⟩ := state.toStructural.shows
    have shown : Shown ed ⟨above, left, right, below⟩ := shows
    obtain ⟨ed', ran, state', _⟩ := edBackspace_spec state (by simpa using inactive) shown
    exact ⟨ed', ran, state'⟩
  refine safe_ite (fun printable => ?_) fun _ => ⟨ed, rfl, state⟩
  refine deleteThen_safe state (replace (.inr (.inr printable))) fun ed state => ?_
  obtain ⟨ed', ran, state', _⟩ := edInsertChar_safe state press.key
  exact ⟨ed', ran, state'⟩

theorem edTurn_safe (display : Display) (state : Editing ed) (press : KeyPress) (fits : KeyFits press ed) :
    ∃ ed', edTurn display press ed = some ed' ∧ Editing ed' := by
  obtain ⟨ed1, typed, state1⟩ := edKey_safe state press fits
  obtain ⟨_, ed', updated, state', _⟩ := edUpdate_spec display state1
  exact ⟨ed', by simp only [edTurn, typed, updated, bind, Option.bind], state'⟩

/-- Every key up to Escape fits the state it finds. -/
def KeysFit (display : Display) : List KeyPress → EditorState → Prop
  | [], _ => True
  | press :: rest, ed =>
    press.key = 0x1B ∨ (KeyFits press ed ∧ ∀ next ∈ edTurn display press ed, KeysFit display rest next)

instance decidableKeysFit (display : Display) :
    (keys : List KeyPress) → (ed : EditorState) → Decidable (KeysFit display keys ed)
  | [], _ => isTrue trivial
  | press :: rest, ed =>
    have := decidableKeysFit display rest
    inferInstanceAs (Decidable (_ ∨ (_ ∧ ∀ next ∈ edTurn display press ed, KeysFit display rest next)))

theorem edLoop_safe (display : Display) {keys typed : List KeyPress} (part : typed <+: keys) (state : Editing ed)
    (fits : KeysFit display keys ed) : ∃ ed', edLoop display typed ed = some ed' ∧ Editing ed' := by
  induction typed generalizing keys ed with
  | nil => exact ⟨ed, rfl, state⟩
  | cons press rest ih =>
    obtain ⟨later, rfl⟩ := part
    by_cases escape : press.key = 0x1B
    · exact ⟨ed, if_pos escape, state⟩
    · obtain ⟨here, after⟩ := fits.resolve_left escape
      obtain ⟨next, turned, state'⟩ := edTurn_safe display state press here
      obtain ⟨ed', ran, stateEnd⟩ := ih (List.prefix_append rest later) state' (after next turned)
      exact ⟨ed', by rw [edLoop, if_neg escape, turned]; exact ran, stateEnd⟩

/-- `fat_edit_file` with the keys that are typed, on whatever the state held before. -/
def editFile (display : Display) (name file : List UInt8) (keys : List KeyPress) (ed : EditorState) :
    Option EditorState := do
  let ed ← fatEditFile display name file ed
  edLoop display keys ed

/-- Every key fits, from the opened file on. -/
def EditFits (display : Display) (name file : List UInt8) (keys : List KeyPress) (ed : EditorState) : Prop :=
  ∀ opened ∈ fatEditFile display name file ed, KeysFit display keys opened

instance (display : Display) (name file : List UInt8) (keys : List KeyPress) (ed : EditorState) :
    Decidable (EditFits display name file keys ed) :=
  inferInstanceAs (Decidable (∀ opened ∈ fatEditFile display name file ed, KeysFit display keys opened))

/-- Opening any file that the buffer held never leaves the arrays of the editor, nor does any key of a run whose keys
all fit, and the structure holds after each of them. -/
theorem editFile_structural (display : Display) (name file : List UInt8) (keys : List KeyPress) (ed : EditorState)
    (fits : EditFits display name file keys ed) {typed : List KeyPress} (part : typed <+: keys) :
    ∃ ed', editFile display name file typed ed = some ed' ∧ Structural ed' := by
  obtain ⟨opened, start, state, _⟩ := fatEditFile_spec display name file ed
  obtain ⟨ed', ran, state'⟩ := edLoop_safe display part state (fits opened start)
  exact ⟨ed', by rw [editFile, start]; exact ran, state'.toStructural⟩

/-- Two lines of which the first is selected backwards, copied, deleted, pasted and undone. -/
theorem editFile_structural_cut_and_paste : ∃ ed',
    editFile ⟨80, 25⟩ [65] [97, 98, 10, 99]
        [{ key := 0x81 }, { key := 0x89 }, { key := 0x84 }, { key := 8 }, { key := 0x85 }, { key := 0x86 }]
        emptyEditor = some ed' ∧ Structural ed' :=
  editFile_structural ⟨80, 25⟩ [65] [97, 98, 10, 99]
    [{ key := 0x81 }, { key := 0x89 }, { key := 0x84 }, { key := 8 }, { key := 0x85 }, { key := 0x86 }] emptyEditor
    (by decide +kernel) List.prefix_rfl

/-- Enter, Backspace and Ctrl+Z in an empty file leave the cursor below the last line: the line
that is put back is gone. -/
theorem undo_below_last_line : ∃ ed',
    editFile ⟨80, 25⟩ [65] [] [{ key := 10 }, { key := 8 }, { key := 0x86 }] emptyEditor = some ed' ∧
      ¬Structural ed' := by
  have shape : (editFile ⟨80, 25⟩ [65] [] [{ key := 10 }, { key := 8 }, { key := 0x86 }] emptyEditor).map
      (fun ed => (ed.cursorY, ed.lineCount)) = some (1, 1) := by decide +kernel
  obtain ⟨ed', ran, place⟩ := Option.map_eq_some_iff.mp shape
  obtain ⟨row, count⟩ := Prod.mk.inj place
  refine ⟨ed', ran, fun state => ?_⟩
  have inside := state.row.2
  rw [row, count] at inside
  exact absurd inside (by decide)

end LivlyOS.Apps
