import LivlyOS.Apps.EditorEdits

namespace LivlyOS.Apps

open LivlyOS.Lib

/-- Drawing changes the marks, the screen and what the status line shows. -/
def Drawn (ed ed' : EditorState) : Prop :=
  ∃ lineDirty statusDirty lastCursorX lastCursorY lastDirty screen,
    ed' = { ed with lineDirty, statusDirty, lastCursorX, lastCursorY, lastDirty, screen }

theorem Drawn.trans {first second third : EditorState} (one : Drawn first second) (two : Drawn second third) :
    Drawn first third := by
  obtain ⟨_, _, _, _, _, _, rfl⟩ := one
  obtain ⟨_, _, _, _, _, _, rfl⟩ := two
  exact ⟨_, _, _, _, _, _, rfl⟩

theorem Drawn.editing {ed ed' : EditorState} (drawn : Drawn ed ed') (state : Editing ed) : Editing ed' := by
  obtain ⟨_, _, _, _, _, _, rfl⟩ := drawn
  exact ⟨⟨state.count, state.row, state.column, state.lens⟩, state.view, state.undo, state.redo, state.selection⟩

theorem Drawn.shows {ed ed' : EditorState} (drawn : Drawn ed ed') (shows : Shows ed above left right below) :
    Shows ed' above left right below := by
  obtain ⟨_, _, _, _, _, _, rfl⟩ := drawn
  exact shows.congr rfl rfl rfl rfl rfl

/-- What drawing relies on. -/
structure Drawable (ed : EditorState) : Prop where
  row : 0 ≤ ed.cursorY
  view : 0 ≤ ed.viewTop
  lens : ∀ i, 0 ≤ i → i < ed.lineCount → ed.lineLen i ≤ 77

theorem Drawn.drawable {ed ed' : EditorState} (drawn : Drawn ed ed') (state : Drawable ed) : Drawable ed' := by
  obtain ⟨_, _, _, _, _, _, rfl⟩ := drawn
  exact ⟨state.row, state.view, state.lens⟩

theorem Editing.drawable (state : Editing ed) : Drawable ed :=
  ⟨state.row.1, state.view, fun i low high => (state.lens i low high).2⟩

theorem edDrawStatus_drawn (display : Display) (ed : EditorState) : Drawn ed (edDrawStatus display ed) := by
  unfold edDrawStatus
  split
  · exact ⟨_, _, _, _, _, _, rfl⟩
  · exact ⟨_, _, _, _, _, _, rfl⟩

theorem edRender_some (ran : edRender display ed = some ed') :
    ∃ lineDirty screen, forUp 0 display.viewHeight (renderRow display ed) (ed.lineDirty, ed.screen) = some (lineDirty, screen) ∧
      ed' = if ed.statusDirty ≠ 0 then { edDrawStatus display { ed with lineDirty, screen } with statusDirty := 0 }
        else { ed with lineDirty, screen } := by
  obtain ⟨⟨lineDirty, screen⟩, rows, ran⟩ := Option.bind_eq_some_iff.mp ran
  refine ⟨lineDirty, screen, rows, ?_⟩
  dsimp only at ran
  split at ran
  · rename_i flag
    rw [if_pos flag]
    exact (Option.some.inj ran).symm
  · rename_i flag
    rw [if_neg flag]
    exact (Option.some.inj ran).symm

theorem edRender_drawn (ran : edRender display ed = some ed') : Drawn ed ed' := by
  obtain ⟨lineDirty, screen, _, rfl⟩ := edRender_some ran
  split
  · obtain ⟨_, _, _, _, _, _, status⟩ := edDrawStatus_drawn display { ed with lineDirty, screen }
    exact ⟨_, _, _, _, _, _, by rw [status]⟩
  · exact ⟨_, _, _, _, _, _, rfl⟩

theorem edDrawStatusFull_drawn (display : Display) (ed : EditorState) : Drawn ed (edDrawStatusFull display ed) := by
  unfold edDrawStatusFull
  exact Drawn.trans ⟨_, _, _, _, _, _, rfl⟩ (edDrawStatus_drawn display _)

theorem edRenderFull_drawn (ran : edRenderFull display ed = some ed') : Drawn ed ed' := by
  simp only [edRenderFull, bind, Option.bind_eq_some_iff] at ran
  obtain ⟨lineDirty, _, ran⟩ := ran
  have status := edDrawStatusFull_drawn display { ed with
    lineDirty, statusDirty := 1
    screen := writeStrAt 0 display.viewHeight (List.replicate display.width.toNat 45) ed.screen }
  exact Drawn.trans ⟨_, _, _, _, _, _, rfl⟩ (status.trans (edRender_drawn ran))

/-- What follows a key moves the view to the cursor and draws. -/
theorem edUpdate_drawn (ran : edUpdate display ed = some ed') : Drawn { ed with viewTop := scrolledTop display ed } ed' := by
  obtain ⟨ed1, scrolled, rendered⟩ := Option.bind_eq_some_iff.mp ran
  unfold edScrollToCursor at scrolled
  dsimp only at scrolled
  split at scrolled
  · exact (edRenderFull_drawn scrolled).trans (edRender_drawn rendered)
  · rw [← Option.some.inj scrolled] at rendered
    exact edRender_drawn rendered

theorem drawLine_spec (ed : EditorState) (inside : 0 ≤ ty ∧ ty < 200) (sy : Int) (short : len ≤ 78) (screen : Screen) :
    ∃ screen', drawLine ed ty sy len screen = some screen' := by
  obtain ⟨screen', ran, _⟩ := forUp_kept 0 len (fun x screen => do
      let c ← charAt 200 ed.lines ty x
      some (writeAt x sy c (if edIsSelected ed x ty then .selected else .normal) screen)) screen (fun _ => True)
    (fun x screen low high _ => by
      rw [charAt_eq ed.lines inside (show 0 ≤ x ∧ x < 78 by omega)]
      exact ⟨_, rfl, trivial⟩) trivial
  exact ⟨screen', ran⟩

theorem drawBlanks_spec (sy lo hi : Int) (screen : Screen) : ∃ screen', drawBlanks sy lo hi screen = some screen' := by
  obtain ⟨screen', ran, _⟩ := forUp_kept lo hi (fun x screen => some (writeAt x sy 32 .normal screen)) screen
    (fun _ => True) (fun x screen low high _ => ⟨_, rfl, trivial⟩) trivial
  exact ⟨screen', ran⟩

/-- The length with which row `ty` is drawn: nothing is shown below the last line. -/
def shownLen (ed : EditorState) (ty : Int) : Int := if ty < ed.lineCount then ed.lineLen ty else 0

/-- The rows from the cursor to the selection's start are drawn every time. -/
def InSelection (ed : EditorState) (ty : Int) : Prop :=
  ed.selActive = true ∧ min ed.selStartY ed.cursorY ≤ ty ∧ ty ≤ max ed.selStartY ed.cursorY

instance (ed : EditorState) (ty : Int) : Decidable (InSelection ed ty) := inferInstanceAs (Decidable (_ ∧ _))

/-- A row that is marked or selected is drawn whole, and its mark taken away. -/
theorem renderRow_eq (display : Display) (inside : 0 ≤ ed.viewTop + sy ∧ ed.viewTop + sy < 200)
    (lineDirty : Int → UInt8) (screen : Screen) :
    renderRow display ed sy (lineDirty, screen) =
      if lineDirty (ed.viewTop + sy) ≠ 0 ∨ InSelection ed (ed.viewTop + sy) then do
        let screen ← drawLine ed (ed.viewTop + sy) sy (shownLen ed (ed.viewTop + sy)) screen
        let screen ← drawBlanks sy (shownLen ed (ed.viewTop + sy)) display.width screen
        some (Function.update lineDirty (ed.viewTop + sy) 0, screen)
      else some (lineDirty, screen) := by
  have beyond : ¬200 ≤ ed.viewTop + sy := by omega
  simp only [renderRow, if_neg beyond, readCell_eq _ inside, writeCell_eq lineDirty inside, bind, Option.bind, InSelection,
    shownLen]
  by_cases shown : ed.viewTop + sy < ed.lineCount
  · simp only [if_pos shown]
  · simp only [if_neg shown]

/-- No row of the view leaves the arrays. -/
def ViewFits (display : Display) (ed : EditorState) : Prop :=
  ∀ ty, ed.viewTop ≤ ty → ty < ed.viewTop + display.viewHeight → ty < 200 → 0 ≤ ty ∧ shownLen ed ty ≤ 78

theorem Drawable.viewFits (state : Drawable ed) (display : Display) : ViewFits display ed := by
  intro ty low _ _
  have inside : 0 ≤ ty := Int.le_trans state.view low
  refine ⟨inside, ?_⟩
  unfold shownLen
  split
  · rename_i shown
    have short := state.lens ty inside shown
    omega
  · decide

theorem Drawn.viewFits {ed ed' : EditorState} (drawn : Drawn ed ed') (fits : ViewFits display ed) :
    ViewFits display ed' := by
  obtain ⟨_, _, _, _, _, _, rfl⟩ := drawn
  exact fits

theorem renderRow_spec (fits : ViewFits display ed) (low : 0 ≤ sy) (high : sy < display.viewHeight)
    (marks : (Int → UInt8) × Screen) : ∃ marks', renderRow display ed sy marks = some marks' := by
  obtain ⟨lineDirty, screen⟩ := marks
  by_cases beyond : 200 ≤ ed.viewTop + sy
  · exact ⟨_, if_pos beyond⟩
  · obtain ⟨start, short⟩ := fits (ed.viewTop + sy) (by omega) (by omega) (by omega)
    have inside : 0 ≤ ed.viewTop + sy ∧ ed.viewTop + sy < 200 := by omega
    rw [renderRow_eq display inside]
    split
    · obtain ⟨screen1, line⟩ := drawLine_spec ed inside sy short screen
      obtain ⟨screen2, blanks⟩ := drawBlanks_spec sy (shownLen ed (ed.viewTop + sy)) display.width screen1
      exact ⟨(Function.update lineDirty (ed.viewTop + sy) 0, screen2), by simp only [line, blanks, bind, Option.bind]⟩
    · exact ⟨_, rfl⟩

theorem edRender_spec (display : Display) (fits : ViewFits display ed) : ∃ ed', edRender display ed = some ed' ∧ Drawn ed ed' := by
  obtain ⟨⟨lineDirty, screen⟩, rows, _⟩ := forUp_kept 0 display.viewHeight (renderRow display ed)
    (ed.lineDirty, ed.screen) (fun _ => True) (fun sy marks low high _ => by
      obtain ⟨marks', row⟩ := renderRow_spec fits low high marks
      exact ⟨marks', row, trivial⟩) trivial
  obtain ⟨ed', ran⟩ : ∃ ed', edRender display ed = some ed' := by
    simp only [edRender, rows, bind, Option.bind]
    split
    · exact ⟨_, rfl⟩
    · exact ⟨_, rfl⟩
  exact ⟨ed', ran, edRender_drawn ran⟩

theorem edRenderFull_spec (fits : ViewFits display ed) :
    ∃ ed', edRenderFull display ed = some ed' ∧ Drawn ed ed' := by
  obtain ⟨lineDirty, marked⟩ := markLines_spec 0 200 ed.lineDirty (by decide) (by decide)
  have status := edDrawStatusFull_drawn display { ed with
    lineDirty, statusDirty := 1
    screen := writeStrAt 0 display.viewHeight (List.replicate display.width.toNat 45) ed.screen }
  obtain ⟨ed', ran, _⟩ := edRender_spec display (status.viewFits fits)
  have full : edRenderFull display ed = some ed' := by
    simp only [edRenderFull, marked, bind, Option.bind]
    exact ran
  exact ⟨ed', full, edRenderFull_drawn full⟩

theorem scrolledTop_nonneg (display : Display) (state : Drawable ed) : 0 ≤ scrolledTop display ed := by
  have row := state.row
  have view := state.view
  unfold scrolledTop
  dsimp only
  split
  · split at *
    · omega
    · omega
  · split
    · omega
    · omega

theorem edUpdate_total (display : Display) (state : Drawable ed) : ∃ ed', edUpdate display ed = some ed' := by
  have top := scrolledTop_nonneg display state
  have moved : Drawable { ed with viewTop := scrolledTop display ed } := ⟨state.row, top, state.lens⟩
  unfold edUpdate edScrollToCursor
  dsimp only
  split
  · obtain ⟨ed1, full, drawn⟩ := edRenderFull_spec (moved.viewFits display)
    obtain ⟨ed', rendered, _⟩ := edRender_spec display (drawn.viewFits (moved.viewFits display))
    exact ⟨ed', by rw [full]; exact rendered⟩
  · obtain ⟨ed', rendered, _⟩ := edRender_spec display (moved.viewFits display)
    exact ⟨ed', rendered⟩

theorem edUpdate_spec (display : Display) (state : Editing ed) :
    ∃ top ed', edUpdate display ed = some ed' ∧ Editing ed' ∧ Drawn { ed with viewTop := top } ed' := by
  obtain ⟨ed', updated⟩ := edUpdate_total display state.drawable
  have moved : Editing { ed with viewTop := scrolledTop display ed } :=
    ⟨⟨state.count, state.row, state.column, state.lens⟩, scrolledTop_nonneg display state.drawable, state.undo,
      state.redo, state.selection⟩
  exact ⟨_, ed', updated, (edUpdate_drawn updated).editing moved, edUpdate_drawn updated⟩

end LivlyOS.Apps
