import LivlyOS.Apps.EditorHistory
import LivlyOS.Apps.EditorRuns
import LivlyOS.Apps.SelectedText

/-! Which editing keys Ctrl+Z takes back. An undo record holds one line, and Ctrl+Z uses one
record. -/

namespace LivlyOS.Apps

open LivlyOS.Lib

/-- The key leaves another text. -/
def ChangesText (press : KeyPress) (ed : EditorState) : Prop := ∀ ed1 ∈ edKey press ed, ¬SameText ed ed1

/-- The key and then Ctrl+Z leave the text and the cursor as they were. -/
def UndoReverts (display : Display) (press : KeyPress) (ed : EditorState) : Prop :=
  ∃ ed1 ed2, edTurn display press ed = some ed1 ∧ edTurn display { key := 0x86 } ed1 = some ed2 ∧ Restored ed ed2

/-- What is left of the cursor's line when the selection ends on it. -/
def restLength (ed : EditorState) : Int := ed.lineLen ed.cursorY - (ed.selStartX - ed.cursorX)

/-- When one record is enough. Without a selection the key neither splits nor joins lines. With
one inside the cursor's line the deletion stays on the line, and typing adds nothing to it, or
the selection is empty. Enter over a selection up to the start of the next line works out if that
line and the text behind the cursor are the same. -/
def UndoFits (press : KeyPress) (ed : EditorState) : Prop :=
  (ed.selActive = false ∧ press.key ≠ 10 ∧ (press.key = 8 → 0 < ed.cursorX)) ∨
  (ed.selActive = true ∧ ed.selStartY = ed.cursorY ∧ (0 ≤ restLength ed ∧ restLength ed ≤ 77) ∧
    (press.key = 8 ∨ (press.key = 10 ∧ ed.lineCount = 200) ∨
      (press.key ≠ 8 ∧ press.key ≠ 10 ∧ (restLength ed = 77 ∨ ed.selStartX = ed.cursorX)))) ∨
  (ed.selActive = true ∧ press.key = 10 ∧ (ed.selStartY = ed.cursorY + 1 ∧ ed.selStartX = 0) ∧
    ed.lineLen ed.cursorY < 77 ∧ ed.lineLen ed.cursorY - ed.cursorX = ed.lineLen ed.selStartY ∧
    ∀ k, 0 ≤ k → k < ed.lineLen ed.selStartY → ed.lines ed.cursorY (ed.cursorX + k) = ed.lines ed.selStartY k)

section
variable {display : Display} {press : KeyPress} {old ed ed1 : EditorState}

/-- Ctrl+Z leaves the number of lines that the key left. -/
theorem UndoReverts.lineCount (reverts : UndoReverts display press ed) :
    ∃ ed1, edKey press ed = some ed1 ∧ ed1.lineCount = ed.lineCount := by
  obtain ⟨ed1', ed2', first, second, restored⟩ := reverts
  obtain ⟨ed1, typed, drawn1⟩ := edTurn_some first
  obtain ⟨ed2, undone, drawn2⟩ := edTurn_some second
  refine ⟨ed1, typed, ?_⟩
  calc ed1.lineCount = ed1'.lineCount := drawn1.sameText.count.symm
    _ = ed2.lineCount := (edDoUndo_lineCount undone).symm
    _ = ed2'.lineCount := drawn2.sameText.count.symm
    _ = ed.lineCount := restored.count

/-- What a key and Ctrl+Z leave when the last record the key saved is that of an older state. -/
theorem undoReverts_of_save (display : Display) (typed : edKey press ed = some ed1) (saved : old.undo.save old = some ed1.undo)
    (undo : RingOk old.undo rows) (row : 0 ≤ old.cursorY ∧ old.cursorY < 200) (short : old.lineLen old.cursorY ≤ 77)
    (state : Drawable ed1) (redo : 0 ≤ ed1.redo.top ∧ ed1.redo.top < 50) (cursor : ed1.cursorY < 200)
    (cursorLen : ed1.lineLen ed1.cursorY ≤ 77) :
    ∃ ed2, PutsBack old ed1 ed2 ∧ (UndoReverts display press ed ↔ Restored ed ed2) := by
  obtain ⟨ed1', first, drawn⟩ := edTurn_total display press typed state
  have drawable : Drawable ed1' := drawn.drawable ⟨state.row, scrolledTop_nonneg display state, state.lens⟩
  obtain ⟨ed2, second, back⟩ : ∃ ed2, edTurn display { key := 0x86 } ed1' = some ed2 ∧ PutsBack old ed1 ed2 := by
    obtain ⟨_, _, _, _, _, _, rfl⟩ := drawn
    obtain ⟨ed2, second, back⟩ := undoTurn_save display drawable saved undo row short redo cursor cursorLen
    exact ⟨ed2, second, back.count, back.row, back.column, back.length, back.chars, back.others⟩
  refine ⟨ed2, back, fun reverts => ?_, fun restored => ⟨ed1', ed2, first, second, restored⟩⟩
  obtain ⟨_, _, first', second', restored⟩ := reverts
  obtain rfl := Option.some.inj (first.symm.trans first')
  obtain rfl := Option.some.inj (second.symm.trans second')
  exact restored

/-- A key that changed one line after one record was saved. -/
theorem undoReverts_of_row (display : Display) (state : Editing ed) (typed : edKey press ed = some ed1)
    (changed : LineChanged ed ed1) (state1 : Drawable ed1) (redo : 0 ≤ ed1.redo.top ∧ ed1.redo.top < 50)
    (cursor : ed1.cursorY < 200) (cursorLen : ed1.lineLen ed1.cursorY ≤ 77) : UndoReverts display press ed := by
  obtain ⟨ed2, back, iff⟩ := undoReverts_of_save display typed changed.saved state.undo state.cursorRow state.cursorLen.2
    state1 redo cursor cursorLen
  exact iff.mpr (back.restored changed.count changed.others)

theorem edKey_enter (enter : press.key = 10) (ed : EditorState) : edKey press ed = deleteThen edInsertNewline ed := by
  simp [edKey, enter]

theorem edKey_backspace (backspace : press.key = 8) (ed : EditorState) :
    edKey press ed = if ed.selActive then edDeleteSelection ed else edBackspace ed := by
  simp [edKey, backspace]

/-- Enter splits the line, and the line stays split. -/
theorem enter_inactive (inactive : ed.selActive = false) (changes : ChangesText press ed) (enter : press.key = 10) :
    ¬UndoReverts display press ed := by
  intro reverts
  obtain ⟨ed1, typed, count⟩ := reverts.lineCount
  have ran := typed
  rw [edKey_enter enter] at ran
  obtain ⟨ed0, deleted, inserted⟩ := deleteThen_some ran
  rw [edDeleteSelection_inactive inactive] at deleted
  obtain rfl := Option.some.inj deleted
  cases edInsertNewline_some inserted with
  | full => exact changes ed typed (SameText.refl ed)
  | split =>
    dsimp only at count
    omega

theorem backspace_inactive (display : Display) (state : Editing ed) (inactive : ed.selActive = false)
    (changes : ChangesText press ed) (backspace : press.key = 8) : UndoReverts display press ed ↔ 0 < ed.cursorX := by
  have key : edKey press ed = edBackspace ed := by
    rw [edKey_backspace backspace, inactive]
    rfl
  by_cases inside : 0 < ed.cursorX
  · obtain ⟨ed1, ran, state1, _, changed⟩ := edBackspace_changes state inactive inside
    exact iff_of_true (undoReverts_of_row display state (key.trans ran) changed state1.drawable state1.redo.top
      state1.cursorRow.2 state1.cursorLen.2) inside
  · refine iff_of_false (fun reverts => ?_) inside
    obtain ⟨ed1, typed, count⟩ := reverts.lineCount
    obtain ⟨undo, ed0, _, erased, rfl⟩ := edBackspace_some (key.symm.trans typed)
    cases erased with
    | char before => exact inside before
    | line =>
      dsimp only at count
      omega
    | nothing => exact changes _ typed ⟨rfl, fun _ _ _ => rfl, fun _ _ _ _ _ _ => rfl⟩

theorem printable_inactive (display : Display) (state : Editing ed) (inactive : ed.selActive = false)
    (changes : ChangesText press ed) (low : 0x20 ≤ press.key) (high : press.key < 0x80) : UndoReverts display press ed := by
  have key : edKey press ed = edInsertChar ed press.key := by
    rw [edKey_printable low high, deleteThen, edDeleteSelection_inactive inactive]
    rfl
  by_cases short : ed.lineLen ed.cursorY < 77
  · obtain ⟨ed1, ran, state1, _, changed⟩ := edInsertChar_changes state inactive short press.key
    exact undoReverts_of_row display state (key.trans ran) changed state1.drawable state1.redo.top state1.cursorRow.2
      state1.cursorLen.2
  · obtain ⟨ed1, ran, _⟩ := edInsertChar_safe state press.key
    obtain ⟨ed0, cleared, inserted⟩ := edInsertChar_some ran
    rw [edClearSelection_inactive inactive] at cleared
    obtain rfl := Option.some.inj cleared
    cases inserted with
    | full => exact absurd (SameText.refl ed) (changes ed (key.trans ran))
    | typed room => omega

/-- The state after a deletion within the cursor's line. -/
structure CutInLine (ed ed0 : EditorState) : Prop where
  saved : ed.undo.save ed = some ed0.undo
  redo : ed0.redo = ed.redo.clear
  inactive : ed0.selActive = false
  count : ed0.lineCount = ed.lineCount
  row : ed0.cursorY = ed.cursorY
  column : ed0.cursorX = ed.cursorX
  view : ed0.viewTop = ed.viewTop
  rest : 0 ≤ restLength ed ∧ restLength ed ≤ 77
  length : ed0.lineLen ed.cursorY = restLength ed
  others : ∀ i, i ≠ ed.cursorY → SameRow (ed.lines, ed.lineLen) (ed0.lines, ed0.lineLen) i

theorem cutInLine_of_some (active : ed.selActive = true) (same : ed.selStartY = ed.cursorY)
    (ran : edDeleteSelection ed = some ed0) : CutInLine ed ed0 := by
  cases edDeleteSelection_some active ran with
  | inLine _ saved cut marked =>
    obtain ⟨rest, length⟩ := cutChars_length cut
    exact ⟨saved, rfl, rfl, rfl, rfl, rfl, rfl, rest, length, fun i other => cutChars_frame other cut⟩
  | across apart => exact absurd same.symm apart

theorem cutInLine_total (state : Editing ed) (active : ed.selActive = true) (same : ed.selStartY = ed.cursorY)
    (rest : 0 ≤ restLength ed ∧ restLength ed ≤ 77) : ∃ ed0, edDeleteSelection ed = some ed0 ∧ CutInLine ed ed0 := by
  have startX := (state.selection active).2
  have column := state.column
  obtain ⟨undo, saved, _⟩ := edSaveUndo_spec state
  obtain ⟨lines, lineLen, cut, _⟩ := cutChars_safe ed.lines ed.lineLen ed.cursorY ed.cursorX (ed.selStartX - ed.cursorX)
    state.cursorRow ⟨column.1, by omega⟩ rest state.cursorLen.2
  obtain ⟨lineDirty, marked, _⟩ := writeCell_spec ed.lineDirty state.cursorRow 1
  have on : ¬ed.selActive = false := by simp [active]
  have ran : edDeleteSelection ed = some { ed with
      lines, lineLen, lineDirty, undo, redo := ed.redo.clear, selActive := false, dirty := 1, statusDirty := 1 } := by
    simp only [edDeleteSelection, if_neg on, saved, if_pos same.symm, deleteInLine, cut, marked, bind, Option.bind]
  exact ⟨_, ran, cutInLine_of_some active same ran⟩

namespace CutInLine

variable {ed0 : EditorState}

theorem drawable (cut : CutInLine ed ed0) (state : Editing ed) : Drawable ed0 := by
  refine ⟨cut.row ▸ state.row.1, cut.view ▸ state.view, fun i low high => ?_⟩
  by_cases here : i = ed.cursorY
  · rw [here, cut.length]
    exact cut.rest.2
  · exact Int.le_trans (Int.le_of_eq (cut.others i here).2) (state.lens i low (cut.count ▸ high)).2

theorem cursorRow (cut : CutInLine ed ed0) (state : Editing ed) : 0 ≤ ed0.cursorY ∧ ed0.cursorY < 200 := by
  rw [cut.row]
  exact state.cursorRow

theorem cursorLen (cut : CutInLine ed ed0) : ed0.lineLen ed0.cursorY = restLength ed := by
  rw [cut.row]
  exact cut.length

theorem redoTop (cut : CutInLine ed ed0) : 0 ≤ ed0.redo.top ∧ ed0.redo.top < 50 := by
  rw [cut.redo]
  exact (RingOk.clear ed.redo 0).top

theorem reverts (cut : CutInLine ed ed0) (display : Display) (state : Editing ed) (typed : edKey press ed = some ed0) :
    UndoReverts display press ed :=
  undoReverts_of_row display state typed ⟨cut.saved, cut.count, cut.others⟩ (cut.drawable state) cut.redoTop
    (cut.cursorRow state).2 (Int.le_trans (Int.le_of_eq cut.cursorLen) cut.rest.2)

theorem undo (cut : CutInLine ed ed0) (state : Editing ed) : RingOk ed0.undo 200 := by
  obtain ⟨lines, saved, _⟩ := LineRing.save_spec state.cursorRow state.cursorLen.2 state.undo.top
  rw [Option.some.inj (cut.saved.symm.trans saved)]
  exact state.undo.saved state.toStructural state.cursorRow.2 lines

theorem sameText (state : Editing ed) (active : ed.selActive = true)
    (same : ed.selStartY = ed.cursorY) (none : ed.selStartX = ed.cursorX) (ran : edDeleteSelection ed = some ed0) :
    SameText ed ed0 := by
  obtain ⟨above, left, right, below, shows⟩ := state.toStructural.shows
  have shows' : Shows ed above left ([] ++ right) below := shows
  obtain ⟨ed0', ran', shown⟩ := deleteSelected_inLine state active shows' same.symm (by simp [none])
  obtain rfl := Option.some.inj (ran.symm.trans ran')
  exact shows.sameText shown rfl

end CutInLine

theorem backspace_inLine (display : Display) (state : Editing ed) (active : ed.selActive = true)
    (same : ed.selStartY = ed.cursorY) (backspace : press.key = 8) :
    UndoReverts display press ed ↔ 0 ≤ restLength ed ∧ restLength ed ≤ 77 := by
  have key : edKey press ed = edDeleteSelection ed := by
    rw [edKey_backspace backspace, if_pos active]
  constructor
  · intro reverts
    obtain ⟨ed0, typed, _⟩ := reverts.lineCount
    rw [key] at typed
    exact (cutInLine_of_some active same typed).rest
  · intro rest
    obtain ⟨ed0, ran, cut⟩ := cutInLine_total state active same rest
    exact cut.reverts display state (key.trans ran)

theorem enter_inLine (display : Display) (state : Editing ed) (active : ed.selActive = true)
    (same : ed.selStartY = ed.cursorY) (enter : press.key = 10) :
    UndoReverts display press ed ↔ (0 ≤ restLength ed ∧ restLength ed ≤ 77) ∧ ed.lineCount = 200 := by
  constructor
  · intro reverts
    obtain ⟨ed1, typed, count⟩ := reverts.lineCount
    rw [edKey_enter enter] at typed
    obtain ⟨ed0, deleted, inserted⟩ := deleteThen_some typed
    have cut := cutInLine_of_some active same deleted
    have few := state.count.2
    cases edInsertNewline_some inserted with
    | full many => exact ⟨cut.rest, by omega⟩
    | split =>
      have before := cut.count
      dsimp only at count
      omega
  · intro ⟨rest, many⟩
    obtain ⟨ed0, ran, cut⟩ := cutInLine_total state active same rest
    have full : 200 ≤ ed0.lineCount := Int.le_of_eq (many.symm.trans cut.count.symm)
    apply cut.reverts display state
    rw [edKey_enter enter, deleteThen, ran]
    simp only [edInsertNewline, readCell_eq ed0.lineLen (cut.cursorRow state), if_pos full, bind, Option.bind]

/-- A character typed over a selection, and taken back by one Ctrl+Z. -/
theorem printable_inLine_only (state : Editing ed) (active : ed.selActive = true) (same : ed.selStartY = ed.cursorY)
    (low : 0x20 ≤ press.key) (high : press.key < 0x80) (reverts : UndoReverts display press ed) :
    (0 ≤ restLength ed ∧ restLength ed ≤ 77) ∧ (restLength ed = 77 ∨ ed.selStartX = ed.cursorX) := by
  obtain ⟨ed1, typed, _⟩ := reverts.lineCount
  have ran := typed
  rw [edKey_printable low high] at ran
  obtain ⟨ed0, deleted, inserted⟩ := deleteThen_some ran
  have cut := cutInLine_of_some active same deleted
  obtain ⟨ed0', cleared, inserted⟩ := edInsertChar_some inserted
  rw [edClearSelection_inactive cut.inactive] at cleared
  obtain rfl := Option.some.inj cleared
  have length := cut.cursorLen
  refine ⟨cut.rest, ?_⟩
  cases inserted with
  | full long =>
    have bound := cut.rest.2
    exact .inl (by omega)
  | @typed _ _ lineLen _ short saved placed marked =>
    have drawable := cut.drawable state
    have longer := placeChar_length placed
    have lens : ∀ i, 0 ≤ i → i < ed0.lineCount → lineLen i ≤ 77 := by
      intro i low high
      by_cases here : i = ed0.cursorY
      · subst here
        exact Int.le_trans (Int.le_of_eq longer) (by omega)
      · exact Int.le_trans (Int.le_of_eq (placeChar_frame here placed).2) (drawable.lens i low high)
    obtain ⟨ed2, back, iff⟩ := undoReverts_of_save display typed saved (cut.undo state) (cut.cursorRow state)
      (by omega) ⟨drawable.row, drawable.view, lens⟩ (RingOk.clear _ 0).top (cut.cursorRow state).2
      (Int.le_trans (Int.le_of_eq longer) (by omega))
    have back' := (iff.mp reverts).lens ed.cursorY state.row.1 state.row.2
    have length' := back.length
    rw [cut.row] at length' length
    have whole : restLength ed = ed.lineLen ed.cursorY := by omega
    unfold restLength at whole
    exact .inr (by omega)

/-- The rest of the line has no room for the character. -/
theorem printable_inLine_full (display : Display) (state : Editing ed) (active : ed.selActive = true)
    (same : ed.selStartY = ed.cursorY) (low : 0x20 ≤ press.key) (high : press.key < 0x80) (full : restLength ed = 77) :
    UndoReverts display press ed := by
  obtain ⟨ed0, ran, cut⟩ := cutInLine_total state active same (by omega)
  have length := cut.cursorLen
  have long : 78 - 1 ≤ ed0.lineLen ed0.cursorY := by omega
  apply cut.reverts display state
  rw [edKey_printable low high, deleteThen, ran]
  simp only [edInsertChar, edClearSelection_inactive cut.inactive, readCell_eq ed0.lineLen (cut.cursorRow state),
    if_pos long, bind, Option.bind]

/-- Nothing is selected but the place of the cursor. -/
theorem printable_inLine_empty (display : Display) (state : Editing ed) (active : ed.selActive = true)
    (same : ed.selStartY = ed.cursorY) (low : 0x20 ≤ press.key) (high : press.key < 0x80)
    (rest : 0 ≤ restLength ed ∧ restLength ed < 77) (empty : ed.selStartX = ed.cursorX) : UndoReverts display press ed := by
  have column := state.column
  have len := state.cursorLen
  have fits : ed.selActive = true → DeleteFits ed := by
    refine fun _ => ⟨?_, fun _ => by omega, fun above => by omega⟩
    rw [empty, same]
    exact column.2
  obtain ⟨ed0, ran, state0, _⟩ := edDeleteSelection_safe state fits
  have cut := cutInLine_of_some active same ran
  have room : ed0.lineLen ed0.cursorY < 77 := Int.lt_of_le_of_lt (Int.le_of_eq cut.cursorLen) rest.2
  obtain ⟨ed1, inserted, state1, _, changed⟩ := edInsertChar_changes state0 cut.inactive room press.key
  have typed : edKey press ed = some ed1 := by
    rw [edKey_printable low high, deleteThen, ran]
    exact inserted
  obtain ⟨ed2, back, iff⟩ := undoReverts_of_save display typed changed.saved state0.undo state0.cursorRow
    state0.cursorLen.2 state1.drawable state1.redo.top state1.cursorRow.2 state1.cursorLen.2
  have again := back.restored changed.count changed.others
  have before := CutInLine.sameText state active same empty ran
  exact iff.mpr ⟨before.trans again.toSameText, again.row.trans cut.row, again.column.trans cut.column⟩

theorem printable_inLine (display : Display) (state : Editing ed) (active : ed.selActive = true)
    (same : ed.selStartY = ed.cursorY) (low : 0x20 ≤ press.key) (high : press.key < 0x80) :
    UndoReverts display press ed ↔
      (0 ≤ restLength ed ∧ restLength ed ≤ 77) ∧ (restLength ed = 77 ∨ ed.selStartX = ed.cursorX) := by
  constructor
  · exact printable_inLine_only state active same low high
  · intro ⟨rest, alone⟩
    by_cases full : restLength ed = 77
    · exact printable_inLine_full display state active same low high full
    · exact printable_inLine_empty display state active same low high (by omega) (alone.resolve_left full)

theorem across_lineCount (active : ed.selActive = true) (apart : ed.selStartY ≠ ed.cursorY)
    (ran : edDeleteSelection ed = some ed0) : ed0.lineCount = ed.lineCount - (ed.selStartY - ed.cursorY) := by
  cases edDeleteSelection_some active ran with
  | inLine same => exact absurd same.symm apart
  | across => rfl

theorem UndoReverts.across (reverts : UndoReverts display press ed) (active : ed.selActive = true)
    (edits : EditKey press.key) (apart : ed.selStartY ≠ ed.cursorY) :
    press.key = 10 ∧ ed.selStartY = ed.cursorY + 1 := by
  obtain ⟨ed1, typed, count⟩ := reverts.lineCount
  rcases edits with enter | backspace | ⟨low, high⟩
  · rw [edKey_enter enter] at typed
    obtain ⟨ed0, deleted, inserted⟩ := deleteThen_some typed
    have fewer := across_lineCount active apart deleted
    cases edInsertNewline_some inserted with
    | full => omega
    | split =>
      dsimp only at count
      exact ⟨enter, by omega⟩
  · rw [edKey_backspace backspace, if_pos active] at typed
    have fewer := across_lineCount active apart typed
    omega
  · rw [edKey_printable low high] at typed
    obtain ⟨ed0, deleted, inserted⟩ := deleteThen_some typed
    have fewer := across_lineCount active apart deleted
    obtain ⟨ed0', cleared, inserted⟩ := edInsertChar_some inserted
    obtain ⟨_, rfl, _⟩ := edClearSelection_some cleared
    cases inserted with
    | full =>
      dsimp only at count
      omega
    | typed =>
      dsimp only at count
      omega

/-- A split line put back over the first of its parts. -/
theorem PutsBack.shows_split {old ed1 ed2 : EditorState} (back : PutsBack old ed1 ed2)
    (shows : Shows old above left right below) (split : Shows ed1 (above ++ [left]) [] right below) :
    Shows ed2 above left right (right :: below) := by
  have place := shows.row
  have count := split.count
  have fits := split.fits
  have next := split.row
  simp only [List.length_append, List.length_singleton] at count fits next
  refine ⟨?_, ?_, back.row.trans place, back.column.trans shows.column, ?_, ?_, ?_⟩
  · rw [back.count, count, List.length_cons]
    omega
  · rw [List.length_cons]
    omega
  · exact (Rows.append_iff.mp split.before).1.congr fun i _ high => back.others i (by omega)
  · rw [back.row]
    refine ⟨back.length.trans shows.line.length, shows.line.fits, ?_⟩
    apply shows.line.spells.congr
    intro x low high
    have length := shows.line.length
    exact back.chars x low (by omega)
  · rw [back.row, show old.cursorY + 1 = ed1.cursorY by omega]
    exact ⟨split.line.congr (back.others _ (by omega)), split.behind.congr fun i low _ => back.others i (by omega)⟩

/-- A selection that ends behind the next line: what is deleted and split again does not return. -/
theorem enter_stale (state : Editing ed) (active : ed.selActive = true) (next : ed.selStartY = ed.cursorY + 1)
    (enter : press.key = 10) (off : ed.lineLen ed.selStartY < ed.selStartX) : ¬UndoReverts display press ed := by
  intro reverts
  obtain ⟨ed1, typed, _⟩ := reverts.lineCount
  rw [edKey_enter enter] at typed
  obtain ⟨ed0, deleted, inserted⟩ := deleteThen_some typed
  have count := state.count
  have column := state.column
  have len := state.cursorLen
  cases edDeleteSelection_some active deleted with
  | inLine same => omega
  | across _ _ joined moved =>
    have short : ed.cursorX + (ed.lineLen ed.selStartY - ed.selStartX) < 78 - 1 := by omega
    rw [joinRest, if_pos short] at joined
    have length := (carryChars_length joined).2
    have kept := (copyRowsUp_frame (.inl (Int.lt_succ ed.cursorY)) moved).2
    cases edInsertNewline_some inserted with
    | full many =>
      dsimp only at many
      omega
    | split _ _ _ carried =>
      have low := (carryChars_length carried).1
      dsimp only at low kept
      omega

/-- Enter over a selection up to a place in the next line, in terms of the lines: the line that is
split off comes back twice. -/
theorem enter_lines (display : Display) (state : Editing ed) (active : ed.selActive = true)
    (changes : ChangesText press ed) (next : ed.selStartY = ed.cursorY + 1) (enter : press.key = 10)
    (shows : Shows ed above left right ((front ++ rest) :: below)) (stop : ed.selStartX = front.length) :
    UndoReverts display press ed ↔ front = [] ∧ right = rest ∧ left.length + rest.length < 77 := by
  have last := (shows.behind.1).length
  have startY := (state.selection active).1
  rw [List.length_append, ← next] at last
  have fits : ed.selActive = true → DeleteFits ed := fun _ => ⟨by omega, fun same => by omega, fun above => by omega⟩
  obtain ⟨ed0, deleted, state0, _⟩ := edDeleteSelection_safe state fits
  have between : Shows ed above left right ([] ++ (front ++ rest) :: below) := shows
  obtain ⟨ed0', deleted', shows0⟩ := deleteSelected_across state active between (by simp [next]) stop
  obtain rfl := Option.some.inj (deleted.symm.trans deleted')
  have total := shows.fits
  rw [List.length_cons] at total
  obtain ⟨ed1, inserted, state1, _, _, split⟩ := edInsertNewline_spec state0 shows0
  rw [if_pos (by omega)] at split
  have typed : edKey press ed = some ed1 := by
    rw [edKey_enter enter, deleteThen, deleted]
    exact inserted
  have count0 := shows0.count
  cases edInsertNewline_some inserted with
  | full => omega
  | split _ saved =>
    obtain ⟨ed2, back, iff⟩ := undoReverts_of_save display typed saved state0.undo state0.cursorRow state0.cursorLen.2
      state1.drawable state1.redo.top state1.cursorRow.2 state1.cursorLen.2
    have shows2 := back.shows_split shows0 split
    have same : Restored ed ed2 ↔ front ++ rest = (if left.length + rest.length < 77 then rest else []) ∧
        right = if left.length + rest.length < 77 then rest else [] := by
      constructor
      · intro restored
        have lines := restored.documentLines
        rw [shows2.documentLines, shows.documentLines] at lines
        obtain ⟨first, second⟩ := List.cons.inj (List.append_cancel_left lines)
        exact ⟨(List.cons.inj second).1.symm, (List.append_cancel_left first).symm⟩
      · rintro ⟨second, first⟩
        exact ⟨shows.sameText shows2 (by rw [second, first]), shows2.row.trans shows.row.symm,
          shows2.column.trans shows.column.symm⟩
    rw [iff, same]
    by_cases short : left.length + rest.length < 77
    · rw [if_pos short, List.append_left_eq_self]
      constructor
      · rintro ⟨empty, text⟩
        exact ⟨empty, text, short⟩
      · rintro ⟨empty, text, _⟩
        exact ⟨empty, text⟩
    · rw [if_neg short] at split ⊢
      constructor
      · -- both lines are empty behind the cursor: the key changed nothing
        rintro ⟨second, first⟩
        refine absurd (shows.sameText split ?_) (changes _ typed)
        rw [second, first, List.append_assoc, List.singleton_append, List.append_nil, List.append_nil]
      · rintro ⟨_, _, room⟩
        exact absurd room short

theorem enter_next (display : Display) (state : Editing ed) (active : ed.selActive = true)
    (changes : ChangesText press ed) (next : ed.selStartY = ed.cursorY + 1) (enter : press.key = 10) :
    UndoReverts display press ed ↔ ed.selStartX = 0 ∧ ed.lineLen ed.cursorY < 77 ∧
      ed.lineLen ed.cursorY - ed.cursorX = ed.lineLen ed.selStartY ∧
      ∀ k, 0 ≤ k → k < ed.lineLen ed.selStartY → ed.lines ed.cursorY (ed.cursorX + k) = ed.lines ed.selStartY k := by
  obtain ⟨startY, startX⟩ := state.selection active
  by_cases onLine : ed.selStartX ≤ ed.lineLen ed.selStartY
  · obtain ⟨above, left, right, below, shows⟩ := state.toStructural.shows
    have count := shows.count
    have row := shows.row
    cases below with
    | nil =>
      rw [List.length_nil] at count
      omega
    | cons line below =>
      have last := shows.behind.1
      rw [← next] at last
      have length := last.length
      have cut := List.take_append_drop ed.selStartX.toNat line
      generalize front_eq : line.take ed.selStartX.toNat = front at cut
      generalize line.drop ed.selStartX.toNat = rest at cut
      subst cut
      have stop : ed.selStartX = front.length := by
        have size := congrArg List.length front_eq
        rw [List.length_take] at size
        omega
      rw [enter_lines display state active changes next enter shows stop]
      have len := shows.cursorLen
      have column := shows.column
      have behind := (Spells.append_iff.mp shows.line.spells).2
      rw [show 0 + (left.length : Int) = ed.cursorX by omega] at behind
      rw [List.length_append] at length
      constructor
      · intro ⟨empty, text, room⟩
        subst empty text
        simp only [List.length_nil] at length stop
        refine ⟨by omega, by omega, by omega, fun k low high => ?_⟩
        obtain ⟨index, rfl⟩ := Int.eq_ofNat_of_zero_le low
        have inside : index < right.length := by omega
        have there := last.spells.get inside
        rw [Int.zero_add] at there
        exact (behind.get inside).trans there.symm
      · intro ⟨start, room, size, text⟩
        have empty : front = [] := List.eq_nil_of_length_eq_zero (by omega)
        subst empty
        simp only [List.length_nil] at length
        refine ⟨rfl, behind.unique last.spells (by omega) fun k low high => ?_, by omega⟩
        rw [Int.zero_add]
        exact text k low (by omega)
  · refine iff_of_false (enter_stale state active next enter (by omega)) fun ⟨start, _⟩ => onLine ?_
    rw [start]
    exact (state.lens ed.selStartY startY.1 startY.2).1

/-- Ctrl+Z takes an editing key that changes the text back exactly when one record is enough. -/
theorem undoReverts_iff (display : Display) (state : Editing ed) (edits : EditKey press.key)
    (changes : ChangesText press ed) : UndoReverts display press ed ↔ UndoFits press ed := by
  have different : ∀ key : UInt8, 0x20 ≤ key → key < 0x80 → key ≠ 8 ∧ key ≠ 10 := fun key low high =>
    ⟨printable_ne low high (by decide), printable_ne low high (by decide)⟩
  unfold UndoFits
  cases active : ed.selActive with
  | false =>
    simp only [true_and, false_and, or_false, reduceCtorEq]
    rcases edits with enter | backspace | ⟨low, high⟩
    · exact iff_of_false (enter_inactive active changes enter) fun ⟨other, _⟩ => other enter
    · rw [backspace_inactive display state active changes backspace, backspace]
      exact ⟨fun inside => ⟨by decide, fun _ => inside⟩, fun ⟨_, inside⟩ => inside rfl⟩
    · obtain ⟨not8, not10⟩ := different press.key low high
      exact iff_of_true (printable_inactive display state active changes low high) ⟨not10, fun is8 => absurd is8 not8⟩
  | true =>
    simp only [true_and, false_and, false_or, reduceCtorEq]
    by_cases same : ed.selStartY = ed.cursorY
    · have here : ¬ed.cursorY = ed.cursorY + 1 := by omega
      simp only [same, true_and]
      rcases edits with enter | backspace | ⟨low, high⟩
      · rw [enter_inLine display state active same enter, enter]
        simp [here]
      · rw [backspace_inLine display state active same backspace, backspace]
        simp
      · obtain ⟨not8, not10⟩ := different press.key low high
        rw [printable_inLine display state active same low high]
        simp [not8, not10]
    · simp only [same, false_and, false_or]
      by_cases next : press.key = 10 ∧ ed.selStartY = ed.cursorY + 1
      · rw [enter_next display state active changes next.2 next.1]
        simp only [next.1, next.2, true_and]
      · refine iff_of_false (fun reverts => next (reverts.across active edits same)) fun fits => next ?_
        exact ⟨fits.1, fits.2.1.1⟩

end

theorem changesText_of_shape (rows : 0 < ed.lineCount)
    (shape : (edKey press ed).map (fun ed1 => (ed1.lineCount, ed1.lineLen 0)) ≠ some (ed.lineCount, ed.lineLen 0)) :
    ChangesText press ed := by
  intro ed1 typed same
  apply shape
  rw [Option.mem_def.mp typed, Option.map_some, same.count, same.lens 0 (Int.le_refl 0) rows]

/-- Backspace over the selected line of `abEditor`. -/
theorem undoReverts_iff_selection : UndoReverts ⟨80, 25⟩ { key := 8 } (abEditor 2 0) ↔ UndoFits { key := 8 } (abEditor 2 0) :=
  undoReverts_iff ⟨80, 25⟩ (abEditor_editing (by decide) (by decide)) (by decide)
    (changesText_of_shape (by decide) (by decide))

/-- Enter in an empty document leaves two lines, and Ctrl+Z does not join them. -/
theorem enter_stays_split : Editing emptyEditor ∧ EditKey 10 ∧ ChangesText { key := 10 } emptyEditor ∧
    ¬UndoReverts ⟨80, 25⟩ { key := 10 } emptyEditor := by
  have changes : ChangesText { key := 10 } emptyEditor := changesText_of_shape (by decide) (by decide)
  exact ⟨emptyEditor_editing, by decide, changes, enter_inactive rfl changes rfl⟩

end LivlyOS.Apps
