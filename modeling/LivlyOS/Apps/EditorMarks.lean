import LivlyOS.Apps.EditorRedraw
import LivlyOS.Apps.EditorText
import LivlyOS.Lib.Run

/-! Every key marks the rows it changes, except where it does not: rows that are no longer
selected, and rows behind the end of a document that shrank. -/

namespace LivlyOS.Apps

open LivlyOS.Lib

/-- No character shown of row `ty` is selected. -/
def RowPlain (display : Display) (ed : EditorState) (ty : Int) : Prop :=
  ∀ x, 0 ≤ x → x < display.width → x < shownLen ed ty → edIsSelected ed x ty = false

/-- Line `ty` is blank as far as the screen is wide, whether it is shown or not. -/
def LineBlank (display : Display) (ed : EditorState) (ty : Int) : Prop :=
  ed.lineLen ty ≤ 78 ∧ ∀ x, 0 ≤ x → x < display.width → x < ed.lineLen ty → ed.lines ty x = 32

/-- Row `ty` shows the same characters in two states. -/
structure RowKept (display : Display) (ed ed' : EditorState) (ty : Int) : Prop where
  fits : shownLen ed ty ≤ 78 → shownLen ed' ty ≤ 78
  chars : ∀ x, 0 ≤ x → x < display.width → shownChar ed' ty x = shownChar ed ty x

theorem InView.of_top {ed ed' : EditorState} (top : ed'.viewTop = ed.viewTop) (view : InView display ed' ty) :
    InView display ed ty := by
  unfold InView at view ⊢
  rw [← top]
  exact view

theorem LineBlank.of_same {ed ed' : EditorState} (same : SameRow (ed.lines, ed.lineLen) (ed'.lines, ed'.lineLen) ty)
    (blank : LineBlank display ed ty) : LineBlank display ed' ty := by
  obtain ⟨row, length⟩ := same
  unfold LineBlank
  rw [show ed'.lines ty = ed.lines ty from row, show ed'.lineLen ty = ed.lineLen ty from length]
  exact blank

theorem edIsSelected_outside (outside : ¬InSelection ed ty) (x : Int) : edIsSelected ed x ty = false := by
  unfold InSelection at outside
  unfold edIsSelected selectionEnds
  by_cases active : ed.selActive = true
  · have beyond : ty < min ed.selStartY ed.cursorY ∨ max ed.selStartY ed.cursorY < ty := by
      by_contra inside
      exact outside ⟨active, by omega⟩
    rw [active, Bool.true_and]
    by_cases order : ed.selStartY > ed.cursorY ∨ (ed.selStartY = ed.cursorY ∧ ed.selStartX > ed.cursorX)
    · have off : ty < ed.cursorY ∨ ty > ed.selStartY := by omega
      simp only [if_pos order, if_pos off]
    · have off : ty < ed.selStartY ∨ ty > ed.cursorY := by omega
      simp only [if_neg order, if_pos off]
  · rw [Bool.not_eq_true] at active
    rw [active, Bool.false_and]

/-- Of the cursor's line a selection from above takes what is before the cursor. -/
theorem edIsSelected_last (above : ed.selStartY < ed.cursorY) (selected : edIsSelected ed x ed.cursorY = true) :
    x < ed.cursorX := by
  unfold edIsSelected selectionEnds at selected
  have order : ¬(ed.selStartY > ed.cursorY ∨ (ed.selStartY = ed.cursorY ∧ ed.selStartX > ed.cursorX)) := by omega
  have inside : ¬(ed.cursorY < ed.selStartY ∨ ed.cursorY > ed.cursorY) := by omega
  have apart : ¬ed.cursorY = ed.selStartY := by omega
  simp only [if_neg order, if_neg inside, apart, false_and, if_false, if_true, Bool.and_eq_true, decide_eq_true_eq] at selected
  exact selected.2

/-- Of the cursor's line a selection from below takes what is from the cursor on. -/
theorem edIsSelected_first (below : ed.cursorY < ed.selStartY) (selected : edIsSelected ed x ed.cursorY = true) :
    ed.cursorX ≤ x := by
  unfold edIsSelected selectionEnds at selected
  have order : ed.selStartY > ed.cursorY ∨ (ed.selStartY = ed.cursorY ∧ ed.selStartX > ed.cursorX) := by omega
  have inside : ¬(ed.cursorY < ed.cursorY ∨ ed.cursorY > ed.selStartY) := by omega
  have apart : ¬ed.cursorY = ed.selStartY := by omega
  simp only [if_pos order, if_neg inside, apart, and_false, if_false, if_true, Bool.and_eq_true, decide_eq_true_eq] at selected
  exact selected.2

theorem RowPlain.of_outside (outside : ¬InSelection ed ty) : RowPlain display ed ty :=
  fun x _ _ _ => edIsSelected_outside outside x

namespace RowKept

theorem of_same {ed ed' : EditorState} (same : SameRow (ed.lines, ed.lineLen) (ed'.lines, ed'.lineLen) ty)
    (shown : ty < ed'.lineCount ↔ ty < ed.lineCount) : RowKept display ed ed' ty := by
  have length : shownLen ed' ty = shownLen ed ty := by
    unfold shownLen
    by_cases here : ty < ed.lineCount
    · rw [if_pos (shown.mpr here), if_pos here]
      exact same.2
    · rw [if_neg (fun there => here (shown.mp there)), if_neg here]
  refine ⟨fun fits => length ▸ fits, fun x _ _ => ?_⟩
  unfold shownChar
  rw [length, show ed'.lines ty = ed.lines ty from same.1]

theorem of_hidden (hidden : ed.lineCount ≤ ty) (hidden' : ed'.lineCount ≤ ty) : RowKept display ed ed' ty := by
  have length : shownLen ed ty = 0 := if_neg (Int.not_lt.mpr hidden)
  have length' : shownLen ed' ty = 0 := if_neg (Int.not_lt.mpr hidden')
  refine ⟨fun _ => by rw [length']; decide, fun x low _ => ?_⟩
  unfold shownChar
  rw [length, length', if_neg (Int.not_lt.mpr low), if_neg (Int.not_lt.mpr low)]

theorem shownChar_blank (blank : LineBlank display ed ty) (low : 0 ≤ x) (high : x < display.width) :
    shownChar ed ty x = 32 := by
  unfold shownChar
  split
  · rename_i shown
    unfold shownLen at shown
    split at shown
    · exact blank.2 x low high shown
    · omega
  · rfl

/-- Of a blank line it does not matter whether it is shown. -/
theorem of_blank {ed ed' : EditorState} (blank : LineBlank display ed ty)
    (same : ed'.lineCount ≤ ty ∨ SameRow (ed.lines, ed.lineLen) (ed'.lines, ed'.lineLen) ty) : RowKept display ed ed' ty := by
  by_cases hidden : ed'.lineCount ≤ ty
  · have length : shownLen ed' ty = 0 := if_neg (Int.not_lt.mpr hidden)
    refine ⟨fun _ => by rw [length]; decide, fun x low high => ?_⟩
    rw [shownChar_blank blank low high]
    unfold shownChar
    rw [length, if_neg (Int.not_lt.mpr low)]
  · have blank' := blank.of_same (same.resolve_left hidden)
    refine ⟨fun _ => ?_, fun x low high => by rw [shownChar_blank blank' low high, shownChar_blank blank low high]⟩
    unfold shownLen
    split
    · exact blank'.1
    · decide

end RowKept

/-- What the next drawing leaves out has to be drawn already, not selected, and kept. -/
theorem Pending.of_rows (ed : EditorState) {ed' : EditorState} (view : ed'.viewTop = ed.viewTop) (screen : ed'.screen = ed.screen)
    (rows : ∀ ty, InView display ed ty → 0 ≤ ty → ty < 200 → ed'.lineDirty ty = 0 → ¬InSelection ed' ty →
      RowDrawn display ed ty ∧ RowPlain display ed ty ∧ RowKept display ed ed' ty) : Pending display ed' := by
  intro ty inView low high clean outside
  obtain ⟨drawn, plain, kept⟩ := rows ty (inView.of_top view) low high clean outside
  refine ⟨kept.fits drawn.fits, fun x left right => ?_⟩
  rw [screen, view, drawn.cells x left right]
  unfold rowCell
  rw [kept.chars x left right, edIsSelected_outside outside]
  by_cases shown : x < shownLen ed ty
  · rw [plain x left right shown]
    simp
  · simp [shown]

/-- A row the drawing would leave out before as well. -/
theorem Pending.row (pending : Pending display ed) (view : InView display ed ty) (low : 0 ≤ ty) (high : ty < 200)
    (clean : ed.lineDirty ty = 0) (outside : ¬InSelection ed ty) (kept : RowKept display ed ed' ty) :
    RowDrawn display ed ty ∧ RowPlain display ed ty ∧ RowKept display ed ed' ty :=
  ⟨pending ty view low high clean outside, .of_outside outside, kept⟩

/-- The rings and the flags of the status line are not shown in the view. -/
theorem Pending.flags (pending : Pending display ed) (undo redo : LineRing) (dirty statusDirty : UInt8) :
    Pending display { ed with undo, redo, dirty, statusDirty } := by
  refine Pending.of_rows ed rfl rfl fun ty view low high clean outside => ?_
  exact pending.row view low high clean outside (.of_same (SameRow.refl _ ty) Iff.rfl)

theorem inactive_outside (inactive : ed.selActive = false) (ty : Int) : ¬InSelection ed ty :=
  fun inside => absurd (inactive.symm.trans inside.1) (by decide)

theorem edClearSelection_pending (pending : Pending display ed) (ran : edClearSelection ed = some ed') :
    Pending display ed' := by
  obtain ⟨lineDirty, rfl, marks⟩ := edClearSelection_some ran
  refine Pending.of_rows ed rfl rfl fun ty view low high clean _ => ?_
  have kept : RowKept display ed { ed with lineDirty, selActive := false } ty := .of_same (SameRow.refl _ ty) Iff.rfl
  rcases marks with ⟨inactive, rfl⟩ | marked
  · exact pending.row view low high clean (inactive_outside inactive ty) kept
  · obtain ⟨unmarked, beyond⟩ := markSelection_mark marked clean
    refine pending.row view low high unmarked (fun inside => ?_) kept
    have range := inside.2
    omega

theorem CharInserted.pending {ed ed' : EditorState} (inserted : CharInserted ed c ed') (inactive : ed.selActive = false)
    (pending : Pending display ed) : Pending display ed' := by
  cases inserted with
  | full => exact pending
  | typed short saved placed marked =>
    refine Pending.of_rows ed rfl rfl fun ty view low high clean _ => ?_
    obtain ⟨unmarked, other⟩ := writeCell_mark marked clean
    exact pending.row view low high unmarked (inactive_outside inactive ty) (.of_same (placeChar_frame other placed) Iff.rfl)

theorem edInsertChar_pending (pending : Pending display ed) (ran : edInsertChar ed c = some ed') : Pending display ed' := by
  obtain ⟨ed1, cleared, inserted⟩ := edInsertChar_some ran
  refine inserted.pending ?_ (edClearSelection_pending pending cleared)
  obtain ⟨_, rfl, _⟩ := edClearSelection_some cleared
  rfl

/-- Enter marks from the cursor's line down to the new last line, and no row above the cursor
is new unless the cursor is below the document. -/
theorem NewlineInserted.pending {ed ed' : EditorState} (inserted : NewlineInserted ed ed')
    (below : ed.lineCount < ed.cursorY →
      ed.selActive = false ∧ (ed.lineCount < 200 → InView display ed ed.lineCount → LineBlank display ed ed.lineCount))
    (pending : Pending display ed) : Pending display ed' := by
  cases inserted with
  | full => exact pending
  | split few saved moved carried ended marked =>
    refine Pending.of_rows ed rfl rfl fun ty view low high clean outside => ?_
    obtain ⟨unmarked, beyond⟩ := markLines_mark marked clean
    have left : ¬InSelection ed ty := by
      intro inside
      by_cases under : ed.lineCount < ed.cursorY
      · exact inactive_outside (below under).1 ty inside
      · refine outside ⟨inside.1, ?_⟩
        have range := inside.2
        dsimp only
        omega
    by_cases above : ty < ed.cursorY
    · have same := (copyRowsDown_frame (i := ty) (by omega) moved).trans
        ((carryChars_frame (by omega) carried).trans (endRow_frame (by omega) ended))
      refine pending.row view low high unmarked left ?_
      by_cases new : ty = ed.lineCount
      · subst new
        exact .of_blank ((below above).2 few view) (.inr same)
      · refine .of_same same ?_
        dsimp only
        omega
    · exact pending.row view low high unmarked left (.of_hidden (by omega) (by dsimp only; omega))

theorem Erased.pending {ed ed' : EditorState} (erased : Erased ed ed') (inactive : ed.selActive = false)
    (below : ed.cursorX ≤ 0 → 0 < ed.cursorY → ed.lineLen (ed.cursorY - 1) + ed.lineLen ed.cursorY < 78 - 1 →
      ed'.cursorY = ed.cursorY - 1 → ed.lineCount < ed.cursorY → InView display ed (ed.lineCount - 1) →
      LineBlank display ed (ed.lineCount - 1))
    (pending : Pending display ed) : Pending display ed' := by
  cases erased with
  | char inside cut marked =>
    refine Pending.of_rows ed rfl rfl fun ty view low high clean _ => ?_
    obtain ⟨unmarked, other⟩ := writeCell_mark marked clean
    exact pending.row view low high unmarked (inactive_outside inactive ty) (.of_same (cutChars_frame other cut) Iff.rfl)
  | line start above room carried moved marked =>
    refine Pending.of_rows ed rfl rfl fun ty view low high clean _ => ?_
    obtain ⟨unmarked, beyond⟩ := markLines_mark marked clean
    refine pending.row view low high unmarked (inactive_outside inactive ty) ?_
    by_cases hidden : ed.lineCount ≤ ty
    · exact .of_hidden hidden (by dsimp only; omega)
    · have same := (carryChars_frame (i := ty) (by omega) carried).trans (copyRowsUp_frame (by omega) moved)
      by_cases last : ty = ed.lineCount - 1
      · subst last
        exact .of_blank (below (Int.not_lt.mp start) above room rfl (by omega) view) (.inl (Int.le_refl _))
      · refine .of_same same ?_
        dsimp only
        omega
  | nothing => exact pending

theorem edBackspace_pending (ran : edBackspace ed = some ed') (inactive : ed.selActive = false)
    (below : ed.cursorX ≤ 0 → 0 < ed.cursorY → ed.lineLen (ed.cursorY - 1) + ed.lineLen ed.cursorY < 78 - 1 →
      ed'.cursorY = ed.cursorY - 1 → ed.lineCount < ed.cursorY → InView display ed (ed.lineCount - 1) →
      LineBlank display ed (ed.lineCount - 1))
    (pending : Pending display ed) : Pending display ed' := by
  obtain ⟨undo, ed1, _, erased, rfl⟩ := edBackspace_some ran
  exact (erased.pending inactive below (pending.flags undo _ _ _)).flags _ _ 1 1

theorem NewlineInserted.place {ed ed' : EditorState} (inserted : NewlineInserted ed ed') :
    ed'.viewTop = ed.viewTop ∧ ed'.cursorY = if ed.lineCount < 200 then ed.cursorY + 1 else ed.cursorY := by
  cases inserted with
  | full many => exact ⟨rfl, (if_neg (Int.not_lt.mpr many)).symm⟩
  | split few => exact ⟨rfl, (if_pos few).symm⟩

theorem NewlineInserted.kept {ed ed' : EditorState} (inserted : NewlineInserted ed ed') (within : ed.cursorY ≤ ed.lineCount) :
    ed'.cursorY ≤ ed'.lineCount := by
  cases inserted with
  | full => exact within
  | split => exact Int.add_le_add_right within 1

theorem edInsertChar_kept (ran : edInsertChar ed c = some ed') :
    ed'.cursorY = ed.cursorY ∧ ed'.lineCount = ed.lineCount ∧ ed'.clipboard = ed.clipboard ∧ ed'.viewTop = ed.viewTop := by
  obtain ⟨ed1, cleared, inserted⟩ := edInsertChar_some ran
  obtain ⟨_, rfl, _⟩ := edClearSelection_some cleared
  cases inserted with
  | full => exact ⟨rfl, rfl, rfl, rfl⟩
  | typed => exact ⟨rfl, rfl, rfl, rfl⟩

/-- In the document, or without a newline anywhere, every character that is pasted marks what it
changes. -/
theorem edPaste_pending (pending : Pending display ed)
    (below : ed.lineCount < ed.cursorY → ∀ i, 0 ≤ i → i < ed.clipboardLen → ed.clipboard i ≠ 10)
    (ran : edPaste ed = some ed') : Pending display ed' := by
  unfold edPaste at ran
  split at ran
  · obtain ⟨⟩ := ran
    exact pending
  · have turn : ∀ i (mid next : EditorState), 0 ≤ i → i < ed.clipboardLen →
        (Pending display mid ∧ (mid.cursorY ≤ mid.lineCount ∨
          mid.clipboard = ed.clipboard ∧ ∀ i, 0 ≤ i → i < ed.clipboardLen → ed.clipboard i ≠ 10)) →
        (do
          let c ← readCell (200 * 78) mid.clipboard i
          if c = 10 then edInsertNewline mid else edInsertChar mid c) = some next →
        Pending display next ∧ (next.cursorY ≤ next.lineCount ∨
          next.clipboard = ed.clipboard ∧ ∀ i, 0 ≤ i → i < ed.clipboardLen → ed.clipboard i ≠ 10) := by
      intro i mid next low high before step
      obtain ⟨pending, place⟩ := before
      obtain ⟨c, read, step⟩ := Option.bind_eq_some_iff.mp step
      obtain ⟨_, rfl⟩ := readCell_some read
      split at step
      · rename_i newline
        have inserted := edInsertNewline_some step
        rcases place with within | ⟨same, plain⟩
        · exact ⟨inserted.pending (fun below => absurd within (Int.not_le.mpr below)) pending, .inl (inserted.kept within)⟩
        · rw [same] at newline
          exact absurd newline (plain i low high)
      · obtain ⟨row, count, clipboard, _⟩ := edInsertChar_kept step
        refine ⟨edInsertChar_pending pending step, ?_⟩
        rw [row, count, clipboard]
        exact place
    have start : ed.cursorY ≤ ed.lineCount ∨
        ed.clipboard = ed.clipboard ∧ ∀ i, 0 ≤ i → i < ed.clipboardLen → ed.clipboard i ≠ 10 := by
      by_cases within : ed.cursorY ≤ ed.lineCount
      · exact .inl within
      · exact .inr ⟨rfl, below (Int.not_le.mp within)⟩
    exact (forUp_result _ turn ⟨pending, start⟩ ran).1

/-- With the cursor in row `row` no row of the view beyond the selection still shows a selected
character. -/
def PlainBeyond (display : Display) (ed : EditorState) (row : Int) : Prop :=
  ed.selActive = true → ∀ ty, InView display ed ty → 0 ≤ ty → ty < 200 →
    (ty < min ed.selStartY row ∨ max ed.selStartY row < ty) → RowPlain display ed ty

theorem PlainBeyond.same (display : Display) (ed : EditorState) : PlainBeyond display ed ed.cursorY := by
  intro active ty _ _ _ beyond
  refine .of_outside fun inside => ?_
  have range := inside.2
  omega

theorem PlainBeyond.plain (beyond : PlainBeyond display ed row) (view : InView display ed ty) (low : 0 ≤ ty) (high : ty < 200)
    (outside : ed.selActive = true → ty < min ed.selStartY row ∨ max ed.selStartY row < ty) : RowPlain display ed ty := by
  by_cases active : ed.selActive = true
  · exact beyond active ty view low high (outside active)
  · exact .of_outside (inactive_outside (Bool.not_eq_true _ ▸ active) ty)

/-- A line that is put back is marked; the cursor jumps to it and takes the selection along. -/
theorem LineRing.restore_pending {ring : LineRing} (fresh : Fresh display ed)
    (ran : ring.restore { ed with undo, redo } = some ed') (shown : InView display ed' ed'.cursorY)
    (leaves : InView display ed (ring.cy ring.top) → PlainBeyond display ed (ring.cy ring.top)) : Pending display ed' := by
  obtain ⟨lines, lineLen, lineDirty, rfl, same, marked⟩ := LineRing.restore_some ran
  have beyond := leaves shown
  refine Pending.of_rows ed rfl rfl fun ty view low high clean outside => ?_
  obtain ⟨_, other⟩ := writeCell_mark marked clean
  refine ⟨(fresh ty view high).2, beyond.plain view low high fun active => ?_, .of_same (same ty other) Iff.rfl⟩
  by_contra range
  refine outside ⟨active, ?_⟩
  dsimp only
  omega

theorem shiftArrow_pending (moves : OnlyMoves move) (fresh : Fresh display ed) (ran : shiftArrow move ed = some ed')
    (shown : InView display ed' ed'.cursorY)
    (leaves : ∀ ed1, move ed = some ed1 → InView display ed ed1.cursorY → PlainBeyond display ed ed1.cursorY) :
    Pending display ed' := by
  obtain ⟨ed1, lineDirty, moved, marked, rfl⟩ := shiftArrow_some ran
  by_cases active : ed.selActive = true
  · rw [startSelection, if_pos active] at moved
    have beyond := leaves ed1 moved
    obtain ⟨x, y, flag, rfl⟩ := moves _ _ moved
    refine Pending.of_rows ed rfl rfl fun ty view low high clean _ => ?_
    obtain ⟨_, outside⟩ := markSelection_mark marked clean
    exact ⟨(fresh ty view high).2, (beyond shown).plain view low high (fun _ => outside), .of_same (SameRow.refl _ ty) Iff.rfl⟩
  · rw [startSelection, if_neg active] at moved
    obtain ⟨x, y, flag, rfl⟩ := moves _ _ moved
    refine Pending.of_rows ed rfl rfl fun ty view low high clean _ => ?_
    exact ⟨(fresh ty view high).2, .of_outside (inactive_outside (Bool.not_eq_true _ ▸ active) ty),
      .of_same (SameRow.refl _ ty) Iff.rfl⟩

theorem plainArrow_pending (moves : OnlyMoves move) (pending : Pending display ed) (ran : plainArrow move ed = some ed') :
    Pending display ed' := by
  obtain ⟨lineDirty, x, y, flag, cleared, rfl⟩ := plainArrow_some moves ran
  have pending1 := edClearSelection_pending pending cleared
  refine Pending.of_rows { ed with lineDirty, selActive := false } rfl rfl fun ty view low high clean outside => ?_
  exact pending1.row view low high clean (inactive_outside rfl ty) (.of_same (SameRow.refl _ ty) Iff.rfl)

/-- The number of lines once the selection is deleted. -/
def linesLeft (ed : EditorState) : Int :=
  if ed.selActive then ed.lineCount - (ed.selStartY - ed.cursorY) else ed.lineCount

/-- Beyond the rows a deletion marks nothing selected is shown, and what appears or disappears
there is blank. -/
def DeletionLeaves (display : Display) (ed : EditorState) : Prop :=
  ∀ ty, InView display ed ty → 0 ≤ ty → ty < 200 → (ty < ed.cursorY ∨ linesLeft ed < ty) →
    RowPlain display ed ty ∧ (¬(ty < linesLeft ed ↔ ty < ed.lineCount) → LineBlank display ed ty)

theorem SelectionDeleted.above {ed ed' : EditorState} (deleted : SelectionDeleted ed ed') (above : ty < ed.cursorY) :
    SameRow (ed.lines, ed.lineLen) (ed'.lines, ed'.lineLen) ty := by
  cases deleted with
  | inLine same saved cut marked => exact cutChars_frame (by omega) cut
  | across apart saved joined moved marked => exact (joinRest_frame (by omega) joined).trans (copyRowsUp_frame (by omega) moved)

theorem SelectionDeleted.place {ed ed' : EditorState} (active : ed.selActive = true) (deleted : SelectionDeleted ed ed') :
    ed'.selActive = false ∧ ed'.viewTop = ed.viewTop ∧ ed'.cursorY = ed.cursorY ∧ ed'.lineCount = linesLeft ed := by
  unfold linesLeft
  rw [if_pos active]
  cases deleted with
  | inLine same => exact ⟨rfl, rfl, rfl, by dsimp only; omega⟩
  | across => exact ⟨rfl, rfl, rfl, rfl⟩

/-- A deletion marks the cursor's line, and when it joins two lines every row down to the new end. -/
theorem SelectionDeleted.pending {ed ed' : EditorState} (active : ed.selActive = true) (deleted : SelectionDeleted ed ed')
    (fresh : Fresh display ed) (leaves : DeletionLeaves display ed) : Pending display ed' := by
  have above : ∀ ty, ty < ed.cursorY → SameRow (ed.lines, ed.lineLen) (ed'.lines, ed'.lineLen) ty := fun ty => deleted.above
  have left : linesLeft ed = ed.lineCount - (ed.selStartY - ed.cursorY) := if_pos active
  cases deleted with
  | inLine same saved cut marked =>
    refine Pending.of_rows ed rfl rfl fun ty view low high clean _ => ?_
    obtain ⟨_, other⟩ := writeCell_mark marked clean
    have outside : ¬InSelection ed ty := by
      intro inside
      have range := inside.2
      omega
    exact ⟨(fresh ty view high).2, .of_outside outside, .of_same (cutChars_frame other cut) Iff.rfl⟩
  | across apart saved joined moved marked =>
    refine Pending.of_rows ed rfl rfl fun ty view low high clean _ => ?_
    obtain ⟨_, outside⟩ := markLines_mark marked clean
    obtain ⟨plain, blank⟩ := leaves ty view low high (by omega)
    refine ⟨(fresh ty view high).2, plain, ?_⟩
    by_cases hidden : ed.lineCount ≤ ty ∧ linesLeft ed ≤ ty
    · exact .of_hidden hidden.1 (by dsimp only; omega)
    · by_cases row : ty < ed.cursorY
      · by_cases shown : ty < linesLeft ed ↔ ty < ed.lineCount
        · exact .of_same (above ty row) (by dsimp only; rw [← left]; exact shown)
        · exact .of_blank (blank shown) (.inr (above ty row))
      · exact .of_blank (blank (by omega)) (.inl (by dsimp only; omega))

/-- What is left when nothing is selected any more. -/
theorem edDeleteSelection_place (ran : edDeleteSelection ed = some ed') :
    ed'.selActive = false ∧ ed'.viewTop = ed.viewTop ∧ ed'.cursorY = ed.cursorY ∧ ed'.lineCount = linesLeft ed := by
  by_cases active : ed.selActive = true
  · exact (edDeleteSelection_some active ran).place active
  · have inactive : ed.selActive = false := Bool.not_eq_true _ ▸ active
    rw [edDeleteSelection_inactive inactive] at ran
    obtain rfl := Option.some.inj ran
    exact ⟨inactive, rfl, rfl, (if_neg active).symm⟩

theorem edDeleteSelection_above (ran : edDeleteSelection ed = some ed') (above : ty < ed.cursorY) :
    SameRow (ed.lines, ed.lineLen) (ed'.lines, ed'.lineLen) ty := by
  by_cases active : ed.selActive = true
  · exact (edDeleteSelection_some active ran).above above
  · rw [edDeleteSelection_inactive (Bool.not_eq_true _ ▸ active)] at ran
    obtain rfl := Option.some.inj ran
    exact SameRow.refl _ ty

theorem edDeleteSelection_pending (fresh : Fresh display ed) (leaves : ed.selActive = true → DeletionLeaves display ed)
    (ran : edDeleteSelection ed = some ed') : Pending display ed' := by
  by_cases active : ed.selActive = true
  · exact (edDeleteSelection_some active ran).pending active fresh (leaves active)
  · rw [edDeleteSelection_inactive (Bool.not_eq_true _ ▸ active)] at ran
    obtain rfl := Option.some.inj ran
    exact fresh.pending

theorem moveUp_row (ran : moveUp ed = some ed') :
    ed'.cursorY = ed.cursorY ∨ (0 < ed.cursorY ∧ ed'.cursorY = ed.cursorY - 1) := by
  unfold moveUp at ran
  split at ran
  · rename_i below
    obtain ⟨x, rfl⟩ := clampColumn_some ran
    exact .inr ⟨below, rfl⟩
  · obtain ⟨⟩ := ran
    exact .inl rfl

theorem moveDown_row (ran : moveDown ed = some ed') :
    ed'.cursorY = ed.cursorY ∨ (ed.cursorY < ed.lineCount - 1 ∧ ed'.cursorY = ed.cursorY + 1) := by
  unfold moveDown at ran
  split at ran
  · rename_i above
    obtain ⟨x, rfl⟩ := clampColumn_some ran
    exact .inr ⟨above, rfl⟩
  · obtain ⟨⟩ := ran
    exact .inl rfl

/-- A step to the left leaves a row at its start only. -/
theorem moveLeft_beyond (display : Display) (ran : moveLeft ed = some ed') : PlainBeyond display ed ed'.cursorY := by
  unfold moveLeft at ran
  split at ran
  · obtain ⟨⟩ := ran
    exact .same display ed
  · rename_i start
    split at ran
    · obtain ⟨len, _, ⟨⟩⟩ := Option.bind_eq_some_iff.mp ran
      intro active ty view low high outside
      dsimp only at outside
      by_cases here : ty = ed.cursorY ∧ ed.selStartY < ed.cursorY
      · obtain ⟨rfl, above⟩ := here
        intro x left _ _
        rw [← Bool.not_eq_true]
        intro selected
        have before := edIsSelected_last above selected
        omega
      · refine .of_outside fun inside => ?_
        have range := inside.2
        omega
    · obtain ⟨⟩ := ran
      exact .same display ed

/-- A step to the right leaves a row at its end only. -/
theorem moveRight_beyond (display : Display) (ran : moveRight ed = some ed') : PlainBeyond display ed ed'.cursorY := by
  obtain ⟨len, read, ran⟩ := Option.bind_eq_some_iff.mp ran
  obtain ⟨_, rfl⟩ := readCell_some read
  split at ran
  · obtain ⟨⟩ := ran
    exact .same display ed
  · rename_i stop
    split at ran
    · rename_i above
      obtain ⟨⟩ := ran
      intro active ty view low high outside
      dsimp only at outside
      by_cases here : ty = ed.cursorY ∧ ed.cursorY < ed.selStartY
      · obtain ⟨rfl, below⟩ := here
        intro x _ _ shown
        rw [← Bool.not_eq_true]
        intro selected
        have behind := edIsSelected_first below selected
        have length : shownLen ed ed.cursorY = ed.lineLen ed.cursorY := if_pos (by omega)
        omega
      · refine .of_outside fun inside => ?_
        have range := inside.2
        omega
    · obtain ⟨⟩ := ran
      exact .same display ed

/-- When a key marks every row it changes, or scrolls. Shift+Up and Shift+Down, Ctrl+Z and
Ctrl+Y leave no row with selected characters behind; a deleted selection leaves none either,
and the rows that appear or disappear unmarked are blank; with the cursor below the document
no line is added or taken away. -/
structure RedrawFits (display : Display) (press : KeyPress) (ed : EditorState) : Prop where
  up : press.key = 0x89 → 0 < ed.cursorY → InView display ed (ed.cursorY - 1) → PlainBeyond display ed (ed.cursorY - 1)
  down : press.key = 0x8A → ed.cursorY < ed.lineCount - 1 → InView display ed (ed.cursorY + 1) →
    PlainBeyond display ed (ed.cursorY + 1)
  undo : press.key = 0x86 → ed.undo.count ≠ 0 → InView display ed (ed.undo.cy ed.undo.back.top) →
    PlainBeyond display ed (ed.undo.cy ed.undo.back.top)
  redo : press.key = 0x87 → ed.redo.count ≠ 0 → InView display ed (ed.redo.cy ed.redo.back.top) →
    PlainBeyond display ed (ed.redo.cy ed.redo.back.top)
  delete : EditKey press.key → ed.selActive = true →
    InView display ed (if press.key = 10 ∧ linesLeft ed < 200 then ed.cursorY + 1 else ed.cursorY) →
    DeletionLeaves display ed
  enter : press.key = 10 → linesLeft ed < 200 → InView display ed (ed.cursorY + 1) → linesLeft ed < ed.cursorY →
    InView display ed (linesLeft ed) → LineBlank display ed (linesLeft ed)
  join : press.key = 8 → ed.selActive = false → ed.cursorX ≤ 0 → 0 < ed.cursorY →
    ed.lineLen (ed.cursorY - 1) + ed.lineLen ed.cursorY < 78 - 1 → InView display ed (ed.cursorY - 1) →
    ed.lineCount < ed.cursorY → InView display ed (ed.lineCount - 1) → LineBlank display ed (ed.lineCount - 1)
  paste : press.key = 0x85 → ed.lineCount < ed.cursorY → ∀ i, 0 ≤ i → i < ed.clipboardLen → ed.clipboard i ≠ 10

theorem enter_pending (enter : press.key = 10) (fresh : Fresh display ed) (fits : RedrawFits display press ed)
    (ran : deleteThen edInsertNewline ed = some ed') (shown : InView display ed' ed'.cursorY) : Pending display ed' := by
  obtain ⟨ed0, deleted, ran⟩ := deleteThen_some ran
  have inserted := edInsertNewline_some ran
  obtain ⟨inactive, top, row, count⟩ := edDeleteSelection_place deleted
  obtain ⟨top', row'⟩ := inserted.place
  have view := (shown.of_top top').of_top top
  rw [row', row, count] at view
  have pending : Pending display ed0 := by
    refine edDeleteSelection_pending fresh (fun active => fits.delete (.inl enter) active ?_) deleted
    by_cases few : linesLeft ed < 200
    · rw [if_pos ⟨enter, few⟩]
      rwa [if_pos few] at view
    · rw [if_neg (fun both => few both.2)]
      rwa [if_neg few] at view
  refine inserted.pending (fun below => ⟨inactive, fun few last => ?_⟩) pending
  rw [count] at below few last ⊢
  rw [row] at below
  rw [if_pos few] at view
  exact (fits.enter enter few view below (last.of_top top)).of_same (edDeleteSelection_above deleted below)

theorem backspace_pending (backspace : press.key = 8) (fresh : Fresh display ed) (fits : RedrawFits display press ed)
    (ran : (if ed.selActive then edDeleteSelection ed else edBackspace ed) = some ed')
    (shown : InView display ed' ed'.cursorY) : Pending display ed' := by
  have other : ¬(press.key = 10 ∧ linesLeft ed < 200) := by
    rw [backspace]
    exact fun both => absurd both.1 (by decide)
  by_cases active : ed.selActive = true
  · rw [if_pos active] at ran
    obtain ⟨_, top, row, _⟩ := edDeleteSelection_place ran
    refine edDeleteSelection_pending fresh (fun active => fits.delete (.inr (.inl backspace)) active ?_) ran
    rw [if_neg other, ← row]
    exact shown.of_top top
  · have inactive : ed.selActive = false := Bool.not_eq_true _ ▸ active
    rw [if_neg active] at ran
    refine edBackspace_pending ran inactive (fun start above room row => ?_) fresh.pending
    apply fits.join backspace inactive start above room
    rw [← row]
    apply shown.of_top
    obtain ⟨undo, ed1, _, erased, rfl⟩ := edBackspace_some ran
    cases erased with
    | char => rfl
    | line => rfl
    | nothing => rfl

theorem printable_pending (printable : 0x20 ≤ press.key ∧ press.key < 0x80) (fresh : Fresh display ed)
    (fits : RedrawFits display press ed) (ran : deleteThen (edInsertChar · press.key) ed = some ed')
    (shown : InView display ed' ed'.cursorY) : Pending display ed' := by
  obtain ⟨ed0, deleted, ran⟩ := deleteThen_some ran
  obtain ⟨_, top, row, _⟩ := edDeleteSelection_place deleted
  obtain ⟨row', _, _, top'⟩ := edInsertChar_kept ran
  have other : ¬(press.key = 10 ∧ linesLeft ed < 200) := fun both => printable_ne printable.1 printable.2 (.inl (by decide)) both.1
  refine edInsertChar_pending (edDeleteSelection_pending fresh (fun active => ?_) deleted) ran
  refine fits.delete (.inr (.inr printable)) active ?_
  rw [if_neg other, ← row, ← row']
  exact (shown.of_top top').of_top top

theorem edCopySelection_pending (pending : Pending display ed) (ran : edCopySelection ed = some ed') :
    Pending display ed' := by
  unfold edCopySelection at ran
  split at ran
  · obtain ⟨⟩ := ran
    exact pending
  · obtain ⟨_, _, ran⟩ := Option.bind_eq_some_iff.mp ran
    obtain ⟨clipboard, _, ⟨⟩⟩ := Option.bind_eq_some_iff.mp ran
    refine Pending.of_rows ed rfl rfl fun ty view low high clean outside => ?_
    exact pending.row view low high clean outside (.of_same (SameRow.refl _ ty) Iff.rfl)

theorem edDoUndo_pending (fresh : Fresh display ed) (ran : edDoUndo ed = some ed') (shown : InView display ed' ed'.cursorY)
    (leaves : ed.undo.count ≠ 0 → InView display ed (ed.undo.cy ed.undo.back.top) →
      PlainBeyond display ed (ed.undo.cy ed.undo.back.top)) : Pending display ed' := by
  by_cases empty : ed.undo.count = 0
  · rw [edDoUndo, if_pos empty] at ran
    obtain rfl := Option.some.inj ran
    exact fresh.pending
  · obtain ⟨redo, _, restored⟩ := edDoUndo_some empty ran
    exact LineRing.restore_pending fresh restored shown (leaves empty)

theorem edDoRedo_pending (fresh : Fresh display ed) (ran : edDoRedo ed = some ed') (shown : InView display ed' ed'.cursorY)
    (leaves : ed.redo.count ≠ 0 → InView display ed (ed.redo.cy ed.redo.back.top) →
      PlainBeyond display ed (ed.redo.cy ed.redo.back.top)) : Pending display ed' := by
  by_cases empty : ed.redo.count = 0
  · rw [edDoRedo, if_pos empty] at ran
    obtain rfl := Option.some.inj ran
    exact fresh.pending
  · rw [edDoRedo, if_neg empty] at ran
    exact LineRing.restore_pending fresh ran shown (leaves empty)

theorem pending_ite {choice : Prop} [Decidable choice] {first second : Option EditorState}
    (ran : (if choice then first else second) = some ed') (yes : choice → first = some ed' → Pending display ed')
    (no : ¬choice → second = some ed' → Pending display ed') : Pending display ed' := by
  by_cases holds : choice
  · rw [if_pos holds] at ran
    exact yes holds ran
  · rw [if_neg holds] at ran
    exact no holds ran

/-- A key that fits leaves only rows to draw that it marked. -/
theorem edKey_pending (fresh : Fresh display ed) (notSave : press.key ≠ 0x88) (fits : RedrawFits display press ed)
    (ran : edKey press ed = some ed') (shown : InView display ed' ed'.cursorY) : Pending display ed' := by
  unfold edKey at ran
  refine pending_ite ran (fun up ran => ?_) fun _ ran => ?_
  · refine shiftArrow_pending moveUp_moves fresh ran shown fun ed1 moved view => ?_
    rcases moveUp_row moved with row | ⟨below, row⟩
    · rw [row]
      exact .same display ed
    · rw [row] at view ⊢
      exact fits.up up below view
  refine pending_ite ran (fun down ran => ?_) fun _ ran => ?_
  · refine shiftArrow_pending moveDown_moves fresh ran shown fun ed1 moved view => ?_
    rcases moveDown_row moved with row | ⟨above, row⟩
    · rw [row]
      exact .same display ed
    · rw [row] at view ⊢
      exact fits.down down above view
  refine pending_ite ran (fun _ ran => ?_) fun _ ran => ?_
  · exact shiftArrow_pending moveLeft_moves fresh ran shown fun _ moved _ => moveLeft_beyond display moved
  refine pending_ite ran (fun _ ran => ?_) fun _ ran => ?_
  · exact shiftArrow_pending moveRight_moves fresh ran shown fun _ moved _ => moveRight_beyond display moved
  refine pending_ite ran (fun _ => plainArrow_pending moveUp_moves fresh.pending) fun _ ran => ?_
  refine pending_ite ran (fun _ => plainArrow_pending moveDown_moves fresh.pending) fun _ ran => ?_
  refine pending_ite ran (fun _ => plainArrow_pending moveLeft_moves fresh.pending) fun _ ran => ?_
  refine pending_ite ran (fun _ => plainArrow_pending moveRight_moves fresh.pending) fun _ ran => ?_
  refine pending_ite ran (fun save => absurd save notSave) fun _ ran => ?_
  refine pending_ite ran (fun _ => edCopySelection_pending fresh.pending) fun _ ran => ?_
  refine pending_ite ran (fun paste => edPaste_pending fresh.pending (fits.paste paste)) fun _ ran => ?_
  refine pending_ite ran (fun undo ran => edDoUndo_pending fresh ran shown (fits.undo undo)) fun _ ran => ?_
  refine pending_ite ran (fun redo ran => edDoRedo_pending fresh ran shown (fits.redo redo)) fun _ ran => ?_
  refine pending_ite ran (fun enter ran => enter_pending enter fresh fits ran shown) fun _ ran => ?_
  refine pending_ite ran (fun backspace ran => backspace_pending backspace fresh fits ran shown) fun _ ran => ?_
  refine pending_ite ran (fun printable ran => printable_pending printable fresh fits ran shown) fun _ ran => ?_
  obtain rfl := Option.some.inj ran
  exact fresh.pending

/-- A turn with a key that fits keeps the view up to date. -/
theorem edTurn_fresh (fresh : Fresh display ed) (notSave : press.key ≠ 0x88) (fits : RedrawFits display press ed)
    (ran : edTurn display press ed = some ed') : Fresh display ed' := by
  obtain ⟨ed1, typed, updated⟩ := Option.bind_eq_some_iff.mp ran
  exact edUpdate_fresh (edKey_pending fresh notSave fits typed) updated

theorem fatEditFile_fresh (opens : fatEditFile display name file start = some opened) : Fresh display opened := by
  obtain ⟨ed1, _, drawn⟩ := Option.bind_eq_some_iff.mp opens
  exact edRenderFull_fresh drawn

/-- In an opened file, after every run of keys other than Ctrl+S and Escape that all fit, the
view holds what a full redraw would draw. -/
theorem redraw_run (display : Display) (name file : List UInt8) (start opened ed : EditorState) (keys : List KeyPress)
    (opens : fatEditFile display name file start = some opened)
    (run : Run (fun ed press ed' => edTurn display press ed = some ed')
      (fun ed press => (press.key ≠ 0x88 ∧ press.key ≠ 0x1B) ∧ RedrawFits display press ed) opened keys ed) :
    RedrawMatches display ed := by
  have fresh : Fresh display ed := by
    apply run.invariant (Fresh display) _ (fatEditFile_fresh opens)
    rintro ed press ed' fresh ⟨typed, fits⟩ ran
    exact edTurn_fresh fresh typed.1 fits ran
  exact fresh.matches

/-- Shift+Down from the start of a line and Shift+Up: the row that is left showed nothing selected. -/
theorem redraw_run_shift : ∃ opened ed, fatEditFile ⟨80, 25⟩ [65] [97, 98, 10, 99, 100] emptyEditor = some opened ∧
    Run (fun ed press ed' => edTurn ⟨80, 25⟩ press ed = some ed')
      (fun ed press => (press.key ≠ 0x88 ∧ press.key ≠ 0x1B) ∧ RedrawFits ⟨80, 25⟩ press ed) opened
      [{ key := 0x8A }, { key := 0x89 }] ed ∧ RedrawMatches ⟨80, 25⟩ ed := by
  have shape : ((fatEditFile ⟨80, 25⟩ [65] [97, 98, 10, 99, 100] emptyEditor).bind fun opened =>
      (edTurn ⟨80, 25⟩ { key := 0x8A } opened).bind fun ed1 => (edTurn ⟨80, 25⟩ { key := 0x89 } ed1).bind fun _ =>
        some (opened.selActive, ed1.selStartY, ed1.cursorY, ed1.cursorX)) = some (false, 0, 1, 0) := by
    decide +kernel
  obtain ⟨opened, opens, rest⟩ := Option.bind_eq_some_iff.mp shape
  obtain ⟨ed1, down, rest⟩ := Option.bind_eq_some_iff.mp rest
  obtain ⟨ed, up, rest⟩ := Option.bind_eq_some_iff.mp rest
  simp only [Option.some.injEq, Prod.mk.injEq] at rest
  obtain ⟨inactive, first, row, column⟩ := rest
  have fits : RedrawFits ⟨80, 25⟩ { key := 0x8A } opened :=
    ⟨fun key => absurd key (by decide), fun _ _ _ active => absurd (active.symm.trans inactive) (by decide),
      fun key => absurd key (by decide), fun key => absurd key (by decide),
      fun key => absurd key (by decide), fun key => absurd key (by decide), fun key => absurd key (by decide),
      fun key => absurd key (by decide)⟩
  have plain : PlainBeyond ⟨80, 25⟩ ed1 (ed1.cursorY - 1) := by
    intro active ty view low high beyond x left _ _
    by_cases here : ty = ed1.cursorY
    · subst here
      rw [← Bool.not_eq_true]
      intro selected
      have before := edIsSelected_last (by omega) selected
      omega
    · refine edIsSelected_outside (fun inside => ?_) x
      have range := inside.2
      omega
  have fits1 : RedrawFits ⟨80, 25⟩ { key := 0x89 } ed1 :=
    ⟨fun _ _ _ => plain, fun key => absurd key (by decide), fun key => absurd key (by decide),
      fun key => absurd key (by decide), fun key => absurd key (by decide), fun key => absurd key (by decide),
      fun key => absurd key (by decide), fun key => absurd key (by decide)⟩
  have run : Run (fun ed press ed' => edTurn ⟨80, 25⟩ press ed = some ed')
      (fun ed press => (press.key ≠ 0x88 ∧ press.key ≠ 0x1B) ∧ RedrawFits ⟨80, 25⟩ press ed) opened
      [{ key := 0x8A }, { key := 0x89 }] ed := .next ⟨by decide, fits⟩ down (.next ⟨by decide, fits1⟩ up .done)
  exact ⟨opened, ed, opens, run, redraw_run ⟨80, 25⟩ [65] [97, 98, 10, 99, 100] emptyEditor opened ed _ opens run⟩
/-- Shift+Down with the cursor behind the first character of a line, then Shift+Up: the row that is
left keeps its colour. -/
theorem redraw_leaves_selected : ∃ opened ed, fatEditFile ⟨80, 25⟩ [65] [97, 98, 10, 99, 100] emptyEditor = some opened ∧
    Run (fun ed press ed' => edTurn ⟨80, 25⟩ press ed = some ed') (fun _ press => press.key ≠ 0x88 ∧ press.key ≠ 0x1B) opened
      [{ key := 0x83 }, { key := 0x8A }, { key := 0x89 }] ed ∧ ¬RedrawMatches ⟨80, 25⟩ ed := by
  have shape : ((fatEditFile ⟨80, 25⟩ [65] [97, 98, 10, 99, 100] emptyEditor).bind fun opened =>
      (edTurn ⟨80, 25⟩ { key := 0x83 } opened).bind fun ed1 => (edTurn ⟨80, 25⟩ { key := 0x8A } ed1).bind fun ed2 =>
        (edTurn ⟨80, 25⟩ { key := 0x89 } ed2).bind fun ed => (edRenderFull ⟨80, 25⟩ ed).bind fun full =>
          some (ed.screen 1 0, full.screen 1 0)) = some ((99, .selected), (99, .normal)) := by
    decide +kernel
  obtain ⟨opened, opens, rest⟩ := Option.bind_eq_some_iff.mp shape
  obtain ⟨ed1, right, rest⟩ := Option.bind_eq_some_iff.mp rest
  obtain ⟨ed2, down, rest⟩ := Option.bind_eq_some_iff.mp rest
  obtain ⟨ed, up, rest⟩ := Option.bind_eq_some_iff.mp rest
  obtain ⟨full, redrawn, rest⟩ := Option.bind_eq_some_iff.mp rest
  obtain ⟨stale, new⟩ := Prod.mk.inj (Option.some.inj rest)
  refine ⟨opened, ed, opens, .next (by decide) right (.next (by decide) down (.next (by decide) up .done)), ?_⟩
  rintro ⟨full', redrawn', same⟩
  obtain rfl := Option.some.inj (redrawn.symm.trans redrawn')
  have cell := same 0 1 (by decide) (by decide) (by decide) (by decide)
  rw [stale, new] at cell
  exact absurd cell (by decide)

end LivlyOS.Apps
