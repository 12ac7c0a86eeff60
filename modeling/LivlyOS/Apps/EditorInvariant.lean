import LivlyOS.Apps.EditorRows

namespace LivlyOS.Apps

open LivlyOS.Lib

/-- Line count, cursor and line lengths are in their ranges. -/
structure Structural (ed : EditorState) : Prop where
  count : 1 ≤ ed.lineCount ∧ ed.lineCount ≤ 200
  row : 0 ≤ ed.cursorY ∧ ed.cursorY < ed.lineCount
  column : 0 ≤ ed.cursorX ∧ ed.cursorX ≤ ed.lineLen ed.cursorY
  lens : ∀ i, 0 ≤ i → i < ed.lineCount → 0 ≤ ed.lineLen i ∧ ed.lineLen i ≤ 77

/-- A slot of a ring that can still be stepped back to. -/
def LineRing.Live (ring : LineRing) (slot : Int) : Prop :=
  ∃ age, 1 ≤ age ∧ age ≤ ring.count ∧ slot = (ring.top + 50 - age) % 50

/-- Every live slot holds a line with a cursor in it, in one of the first rows. -/
structure RingOk (ring : LineRing) (rows : Int) : Prop where
  top : 0 ≤ ring.top ∧ ring.top < 50
  count : 0 ≤ ring.count ∧ ring.count ≤ 50
  lens : ∀ slot, ring.Live slot → ring.lens slot ≤ 77
  column : ∀ slot, ring.Live slot → 0 ≤ ring.cx slot ∧ ring.cx slot ≤ ring.lens slot
  row : ∀ slot, ring.Live slot → 0 ≤ ring.cy slot ∧ ring.cy slot < rows

/-- The structure with what the next keys rely on: the rings and the selection's start. -/
structure Editing (ed : EditorState) : Prop extends Structural ed where
  view : 0 ≤ ed.viewTop
  undo : RingOk ed.undo 200
  redo : RingOk ed.redo ed.lineCount
  selection : ed.selActive = true →
    (0 ≤ ed.selStartY ∧ ed.selStartY < ed.lineCount) ∧ 0 ≤ ed.selStartX ∧ ed.selStartX ≤ 77

/-- A ring with nothing in it. -/
def emptyRing : LineRing := ⟨fun _ _ => 0, fun _ => 0, fun _ => 0, fun _ => 0, 0, 0⟩

/-- A document of one empty line. -/
def emptyEditor : EditorState where
  lines := fun _ _ => 0
  lineLen := fun _ => 0
  lineCount := 1
  cursorX := 0
  cursorY := 0
  viewTop := 0
  dirty := 0
  lineDirty := fun _ => 0
  statusDirty := 0
  filename := []
  undo := emptyRing
  redo := emptyRing
  lastCursorX := 0
  lastCursorY := 0
  lastDirty := 0
  selStartX := 0
  selStartY := 0
  selActive := false
  clipboard := fun _ => 0
  clipboardLen := 0
  screen := fun _ _ => (32, .console)
  written := []

theorem Structural.cursorRow (state : Structural ed) : 0 ≤ ed.cursorY ∧ ed.cursorY < 200 := by
  have row := state.row
  have count := state.count
  omega

theorem Structural.cursorLen (state : Structural ed) :
    0 ≤ ed.lineLen ed.cursorY ∧ ed.lineLen ed.cursorY ≤ 77 := state.lens _ state.row.1 state.row.2

/-- The ring after the cursor's line went into its top slot. -/
def LineRing.saved (ring : LineRing) (ed : EditorState) (lines : Lines) : LineRing where
  lines := lines
  lens := Function.update ring.lens ring.top (ed.lineLen ed.cursorY)
  cx := Function.update ring.cx ring.top ed.cursorX
  cy := Function.update ring.cy ring.top ed.cursorY
  top := (ring.top + 1) % 50
  count := if ring.count < 50 then ring.count + 1 else ring.count

namespace RingOk

theorem of_empty {ring : LineRing} (top : 0 ≤ ring.top ∧ ring.top < 50) (empty : ring.count = 0) (rows : Int) :
    RingOk ring rows := by
  have dead : ∀ slot, ¬ring.Live slot := fun slot ⟨age, low, high, _⟩ => by omega
  exact ⟨top, by omega, fun slot live => absurd live (dead slot), fun slot live => absurd live (dead slot),
    fun slot live => absurd live (dead slot)⟩

theorem clear (ring : LineRing) (rows : Int) : RingOk ring.clear rows := of_empty (by simp [LineRing.clear]) rfl rows

theorem live_back {ring : LineRing} (ok : RingOk ring rows) (live : ring.back.Live slot) : ring.Live slot := by
  obtain ⟨age, low, high, place⟩ := live
  have top := ok.top
  simp only [LineRing.back] at high place
  exact ⟨age + 1, by omega, by omega, by omega⟩

theorem back {ring : LineRing} (ok : RingOk ring rows) (some : ring.count ≠ 0) : RingOk ring.back rows where
  top := ⟨Int.emod_nonneg _ (by decide), Int.emod_lt_of_pos _ (by decide)⟩
  count := by
    have count := ok.count
    simp only [LineRing.back]
    omega
  lens := fun slot live => ok.lens slot (ok.live_back live)
  column := fun slot live => ok.column slot (ok.live_back live)
  row := fun slot live => ok.row slot (ok.live_back live)

theorem live_last {ring : LineRing} (ok : RingOk ring rows) (some : ring.count ≠ 0) : ring.Live ring.back.top := by
  have count := ok.count
  exact ⟨1, by omega, by omega, rfl⟩

theorem live_saved {ring : LineRing} (ok : RingOk ring rows) (live : (ring.saved ed lines).Live slot) :
    slot = ring.top ∨ (slot ≠ ring.top ∧ ring.Live slot) := by
  obtain ⟨age, low, high, place⟩ := live
  have top := ok.top
  have count := ok.count
  simp only [LineRing.saved] at high place
  by_cases newest : age = 1
  · exact .inl (by omega)
  · exact .inr ⟨by split at high <;> omega, age - 1, by omega, by split at high <;> omega, by omega⟩

/-- A ring that was in order is in order after saving. -/
theorem saved {ring : LineRing} (ok : RingOk ring rows) (state : Structural ed) (inside : ed.cursorY < rows)
    (lines : Lines) : RingOk (ring.saved ed lines) rows where
  top := ⟨Int.emod_nonneg _ (by decide), Int.emod_lt_of_pos _ (by decide)⟩
  count := by
    have count := ok.count
    simp only [LineRing.saved]
    split <;> omega
  lens := fun slot live => by
    rcases ok.live_saved live with rfl | ⟨other, live⟩
    · simp only [LineRing.saved, Function.update_self]
      exact state.cursorLen.2
    · simp only [LineRing.saved, Function.update_of_ne other]
      exact ok.lens slot live
  column := fun slot live => by
    rcases ok.live_saved live with rfl | ⟨other, live⟩
    · simp only [LineRing.saved, Function.update_self]
      exact state.column
    · simp only [LineRing.saved, Function.update_of_ne other]
      exact ok.column slot live
  row := fun slot live => by
    rcases ok.live_saved live with rfl | ⟨other, live⟩
    · simp only [LineRing.saved, Function.update_self]
      exact ⟨state.row.1, inside⟩
    · simp only [LineRing.saved, Function.update_of_ne other]
      exact ok.row slot live

end RingOk

theorem emptyEditor_editing : Editing emptyEditor where
  count := by decide
  row := by decide
  column := by decide
  lens := fun _ _ _ => (by decide : (0 : Int) ≤ 0 ∧ (0 : Int) ≤ 77)
  view := by decide
  undo := RingOk.clear emptyRing 200
  redo := RingOk.clear emptyRing 1
  selection := nofun

/-- Saving the cursor's line stays inside the arrays and fills the top slot. -/
theorem LineRing.save_spec {ed : EditorState} {ring : LineRing} (row : 0 ≤ ed.cursorY ∧ ed.cursorY < 200)
    (short : ed.lineLen ed.cursorY ≤ 77) (topOk : 0 ≤ ring.top ∧ ring.top < 50) :
    ∃ lines, ring.save ed = some (ring.saved ed lines) ∧ (∀ slot, slot ≠ ring.top → lines slot = ring.lines slot) ∧
      ∀ x, 0 ≤ x → x < ed.lineLen ed.cursorY + 1 → lines ring.top x = ed.lines ed.cursorY x := by
  obtain ⟨lines, ran, others, filled⟩ := transferChars_spec ed.lines row ring.lines topOk
    (show ed.lineLen ed.cursorY + 1 ≤ 78 by omega)
  refine ⟨lines, ?_, others, filled⟩
  simp only [LineRing.save, readCell_eq _ row, ran, writeCell_eq _ topOk, bind, Option.bind, saved]

/-- `ed_save_undo` fills the undo ring, empties the redo ring and touches nothing else. -/
theorem edSaveUndo_spec (state : Editing ed) :
    ∃ undo, edSaveUndo ed = some { ed with undo := undo, redo := ed.redo.clear } ∧ RingOk undo 200 := by
  obtain ⟨lines, saved, _⟩ := LineRing.save_spec state.cursorRow state.cursorLen.2 state.undo.top
  exact ⟨_, by simp only [edSaveUndo, saved, bind, Option.bind],
    state.undo.saved state.toStructural state.cursorRow.2 lines⟩

/-- The state after the line of a slot went back to its row. -/
structure LineRing.PutBack (ring : LineRing) (ed ed' : EditorState) : Prop where
  shape : ∃ lines lineLen lineDirty, ed' = { ed with
    lines, lineLen, cursorX := ring.cx ring.top, cursorY := ring.cy ring.top, lineDirty, statusDirty := 1 }
  length : ed'.lineLen (ring.cy ring.top) = ring.lens ring.top
  chars : ∀ x, 0 ≤ x → x < ring.lens ring.top → ed'.lines (ring.cy ring.top) x = ring.lines ring.top x
  others : OtherRows (ring.cy ring.top) ed.lines ed'.lines ed.lineLen ed'.lineLen

theorem LineRing.restore_spec (ed : EditorState) {ring : LineRing} (topOk : 0 ≤ ring.top ∧ ring.top < 50)
    (short : ring.lens ring.top ≤ 77) (row : 0 ≤ ring.cy ring.top ∧ ring.cy ring.top < 200) :
    ∃ ed', ring.restore ed = some ed' ∧ ring.PutBack ed ed' := by
  obtain ⟨lines, ran, others, filled⟩ := transferChars_spec ring.lines topOk ed.lines row
    (show ring.lens ring.top + 1 ≤ 78 by omega)
  obtain ⟨lineLen, set, here, otherLens⟩ := writeCell_spec ed.lineLen row (ring.lens ring.top)
  obtain ⟨lineDirty, marked, _⟩ := writeCell_spec ed.lineDirty row 1
  refine ⟨_, ?_, ⟨lines, lineLen, lineDirty, rfl⟩, here, fun x low high => filled x low (by omega),
    fun i other => ⟨others i other, otherLens i other⟩⟩
  simp only [restore, readCell_eq _ topOk, ran, set, marked, bind, Option.bind]

/-- Putting a saved line back keeps the structure if its row is still there. -/
theorem LineRing.PutBack.structural {ring : LineRing} {ed ed' : EditorState} (back : ring.PutBack ed ed')
    (state : Structural ed) (short : ring.lens ring.top ≤ 77)
    (column : 0 ≤ ring.cx ring.top ∧ ring.cx ring.top ≤ ring.lens ring.top)
    (row : 0 ≤ ring.cy ring.top ∧ ring.cy ring.top < ed.lineCount) : Structural ed' := by
  obtain ⟨⟨lines, lineLen, lineDirty, rfl⟩, length, _, others⟩ := back
  refine ⟨state.count, row, ⟨column.1, Int.le_trans column.2 (Int.le_of_eq length.symm)⟩, fun i low high => ?_⟩
  change 0 ≤ lineLen i ∧ lineLen i ≤ 77
  by_cases same : i = ring.cy ring.top
  · have here : lineLen (ring.cy ring.top) = ring.lens ring.top := length
    rw [same, here]
    omega
  · have other : lineLen i = ed.lineLen i := (others i same).2
    rw [other]
    exact state.lens i low high

/-- Ctrl+Z saves the cursor's line and puts the newest saved line back. -/
theorem edDoUndo_eq {ed : EditorState} (some : ed.undo.count ≠ 0) (undo : RingOk ed.undo 200) (redo : 0 ≤ ed.redo.top ∧ ed.redo.top < 50)
    (row : 0 ≤ ed.cursorY ∧ ed.cursorY < 200) (short : ed.lineLen ed.cursorY ≤ 77) :
    ∃ lines ed', ed.redo.save ed = .some (ed.redo.saved ed lines) ∧ edDoUndo ed = .some ed' ∧
      ed.undo.back.PutBack { ed with redo := ed.redo.saved ed lines, undo := ed.undo.back } ed' := by
  obtain ⟨lines, saved, _⟩ := LineRing.save_spec row short redo
  have last := undo.live_last some
  obtain ⟨ed', restored, back⟩ := LineRing.restore_spec { ed with redo := ed.redo.saved ed lines, undo := ed.undo.back }
    (undo.back some).top (undo.lens _ last) (undo.row _ last)
  refine ⟨lines, ed', saved, ?_, back⟩
  rw [edDoUndo, if_neg some, saved]
  exact restored

/-- Ctrl+Z keeps the structure if the row of the saved line is still there. -/
theorem edDoUndo_spec (state : Editing ed)
    (there : ed.undo.count ≠ 0 → ed.undo.cy ed.undo.back.top < ed.lineCount) :
    ∃ ed', edDoUndo ed = some ed' ∧ Editing ed' := by
  by_cases none : ed.undo.count = 0
  · exact ⟨ed, if_pos none, state⟩
  · obtain ⟨lines, ed', _, ran, back⟩ :=
      edDoUndo_eq none state.undo state.redo.top state.cursorRow state.cursorLen.2
    have last := state.undo.live_last none
    have structural := back.structural ⟨state.count, state.row, state.column, state.lens⟩
      (state.undo.lens _ last) (state.undo.column _ last) ⟨(state.undo.row _ last).1, there none⟩
    obtain ⟨_, _, _, rfl⟩ := back.shape
    exact ⟨_, ran, structural, state.view, state.undo.back none,
      state.redo.saved state.toStructural state.row.2 lines, state.selection⟩

/-- Ctrl+Y puts the newest line back that Ctrl+Z saved. -/
theorem edDoRedo_eq {ed : EditorState} (some : ed.redo.count ≠ 0) (redo : RingOk ed.redo rows) (few : rows ≤ 200) :
    ∃ ed', edDoRedo ed = .some ed' ∧ ed.redo.back.PutBack { ed with redo := ed.redo.back } ed' := by
  have last := redo.live_last some
  have row := redo.row _ last
  obtain ⟨ed', restored, back⟩ := LineRing.restore_spec { ed with redo := ed.redo.back } (redo.back some).top
    (redo.lens _ last) ⟨row.1, Int.lt_of_lt_of_le row.2 few⟩
  refine ⟨ed', ?_, back⟩
  rw [edDoRedo, if_neg some]
  exact restored

/-- Ctrl+Y keeps the structure: what it puts back was saved since the last change. -/
theorem edDoRedo_spec (state : Editing ed) : ∃ ed', edDoRedo ed = some ed' ∧ Editing ed' := by
  by_cases none : ed.redo.count = 0
  · exact ⟨ed, if_pos none, state⟩
  · obtain ⟨ed', ran, back⟩ := edDoRedo_eq none state.redo state.count.2
    have last := state.redo.live_last none
    have structural := back.structural ⟨state.count, state.row, state.column, state.lens⟩
      (state.redo.lens _ last) (state.redo.column _ last) (state.redo.row _ last)
    obtain ⟨_, _, _, rfl⟩ := back.shape
    exact ⟨_, ran, structural, state.view, state.undo, state.redo.back none, state.selection⟩

end LivlyOS.Apps
