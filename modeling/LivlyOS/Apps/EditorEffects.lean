import LivlyOS.Apps.EditorInvariant

namespace LivlyOS.Apps

open LivlyOS.Lib

/-- Row `i` and its length are the same in two texts. -/
def SameRow (text text' : Text) (i : Int) : Prop := text'.1 i = text.1 i ∧ text'.2 i = text.2 i

namespace SameRow

theorem refl (text : Text) (i : Int) : SameRow text text i := ⟨rfl, rfl⟩

theorem trans {first second third : Text} (one : SameRow first second i) (two : SameRow second third i) :
    SameRow first third i := ⟨two.1.trans one.1, two.2.trans one.2⟩

end SameRow

theorem setChar_frame (other : i ≠ y) (ran : setChar rows lines y x c = some lines') : lines' i = lines i := by
  unfold setChar at ran
  split at ran
  · rw [← Option.some.inj ran, Function.update_of_ne other]
  · cases ran

theorem writeCell_frame (other : i ≠ y) (ran : writeCell size cells y value = some cells') : cells' i = cells i := by
  rw [(writeCell_some ran).2, Function.update_of_ne other]

theorem copyChars_frame (other : i ≠ dstY) (ran : copyChars dstY dstX srcY srcX count lines = some lines') :
    lines' i = lines i := by
  apply forUp_result (fun _ lines' => lines' i = lines i) _ rfl ran
  intro _ mid next _ _ same step
  obtain ⟨_, _, put⟩ := Option.bind_eq_some_iff.mp step
  exact (setChar_frame other put).trans same

theorem shiftRight_frame (other : i ≠ y) (ran : shiftRight y x len lines = some lines') : lines' i = lines i := by
  apply forDown_result (fun _ lines' => lines' i = lines i) _ rfl ran
  intro _ mid next _ _ same step
  obtain ⟨_, _, put⟩ := Option.bind_eq_some_iff.mp step
  exact (setChar_frame other put).trans same

theorem placeChar_frame (other : i ≠ y) (ran : placeChar y x c text = some text') : SameRow text text' i := by
  obtain ⟨lines, lineLen⟩ := text
  simp only [placeChar, bind, Option.bind_eq_some_iff] at ran
  obtain ⟨_, _, _, shifted, _, put, _, ended, _, set, ⟨⟩⟩ := ran
  refine ⟨?_, writeCell_frame other set⟩
  exact (setChar_frame other ended).trans ((setChar_frame other put).trans (shiftRight_frame other shifted))

theorem placeChar_length (ran : placeChar y x c (lines, lineLen) = some text') : text'.2 y = lineLen y + 1 := by
  simp only [placeChar, bind, Option.bind_eq_some_iff] at ran
  obtain ⟨_, read, _, _, _, _, _, _, _, set, ⟨⟩⟩ := ran
  obtain ⟨_, rfl⟩ := readCell_some read
  exact (congrFun (writeCell_some set).2 y).trans (Function.update_self ..)

theorem cutChars_frame (other : i ≠ y) (ran : cutChars y x del text = some text') : SameRow text text' i := by
  obtain ⟨lines, lineLen⟩ := text
  simp only [cutChars, bind, Option.bind_eq_some_iff] at ran
  obtain ⟨_, _, _, copied, _, set, _, ended, ⟨⟩⟩ := ran
  exact ⟨(setChar_frame other ended).trans (copyChars_frame other copied), writeCell_frame other set⟩

theorem cutChars_length (ran : cutChars y x del (lines, lineLen) = some text') :
    (0 ≤ lineLen y - del ∧ lineLen y - del ≤ 77) ∧ text'.2 y = lineLen y - del := by
  simp only [cutChars, bind, Option.bind_eq_some_iff] at ran
  obtain ⟨_, read, _, _, _, set, _, ended, ⟨⟩⟩ := ran
  obtain ⟨_, rfl⟩ := readCell_some read
  unfold setChar at ended
  split at ended
  · rename_i inside
    exact ⟨⟨inside.2.1, Int.le_of_lt_add_one inside.2.2⟩,
      (congrFun (writeCell_some set).2 y).trans (Function.update_self ..)⟩
  · cases ended

theorem carryChars_frame (other : i ≠ dstY) (ran : carryChars dstY dstX srcY srcX count text = some text') :
    SameRow text text' i := by
  obtain ⟨lines, lineLen⟩ := text
  simp only [carryChars, bind, Option.bind_eq_some_iff] at ran
  obtain ⟨_, copied, _, ended, _, set, ⟨⟩⟩ := ran
  exact ⟨(setChar_frame other ended).trans (copyChars_frame other copied), writeCell_frame other set⟩

/-- The row that goes on ends behind what was copied. -/
theorem carryChars_length (ran : carryChars dstY dstX srcY srcX count text = some text') :
    0 ≤ dstX + count ∧ text'.2 dstY = dstX + count := by
  obtain ⟨lines, lineLen⟩ := text
  simp only [carryChars, bind, Option.bind_eq_some_iff] at ran
  obtain ⟨_, _, _, ended, _, set, ⟨⟩⟩ := ran
  unfold setChar at ended
  split at ended
  · rename_i inside
    exact ⟨inside.2.1, (congrFun (writeCell_some set).2 dstY).trans (Function.update_self ..)⟩
  · cases ended

theorem endRow_frame (other : i ≠ y) (ran : endRow y x text = some text') : SameRow text text' i := by
  obtain ⟨lines, lineLen⟩ := text
  simp only [endRow, bind, Option.bind_eq_some_iff] at ran
  obtain ⟨_, ended, _, set, ⟨⟩⟩ := ran
  exact ⟨setChar_frame other ended, writeCell_frame other set⟩

theorem copyRow_frame (other : i ≠ dst) (ran : copyRow dst src text = some text') : SameRow text text' i := by
  obtain ⟨lines, lineLen⟩ := text
  simp only [copyRow, bind, Option.bind_eq_some_iff] at ran
  obtain ⟨_, _, _, copied, _, set, ⟨⟩⟩ := ran
  exact ⟨copyChars_frame other copied, writeCell_frame other set⟩

theorem joinRest_frame (other : i ≠ sy) (ran : joinRest sy sx ey ex tailLen text = some text') : SameRow text text' i := by
  unfold joinRest at ran
  split at ran
  · exact carryChars_frame other ran
  · exact endRow_frame other ran

theorem copyRowsUp_frame (outside : i < lo ∨ hi ≤ i) (ran : copyRowsUp lo hi distance text = some text') :
    SameRow text text' i := by
  apply forUp_result (fun _ text' => SameRow text text' i) _ (SameRow.refl text i) ran
  intro j mid next low high same step
  exact same.trans (copyRow_frame (by omega) step)

theorem copyRowsDown_frame (outside : i ≤ lo ∨ hi < i) (ran : copyRowsDown hi lo text = some text') :
    SameRow text text' i := by
  apply forDown_result (fun _ text' => SameRow text text' i) _ (SameRow.refl text i) ran
  intro j mid next low high same step
  exact same.trans (copyRow_frame (by omega) step)

variable {marks marks' : Int → UInt8}

theorem writeCell_mark (ran : writeCell 200 marks y 1 = some marks') (clean : marks' i = 0) :
    marks i = 0 ∧ i ≠ y := by
  rw [(writeCell_some ran).2] at clean
  by_cases here : i = y
  · subst here
    rw [Function.update_self] at clean
    cases clean
  · rw [Function.update_of_ne here] at clean
    exact ⟨clean, here⟩

theorem markLines_mark (ran : markLines lo hi marks = some marks') (clean : marks' i = 0) :
    marks i = 0 ∧ (i < lo ∨ hi ≤ i) := by
  have kept : ∀ j (mid next : Int → UInt8), lo ≤ j → j < hi → (mid i = 0 → marks i = 0 ∧ (i < lo ∨ j ≤ i)) →
      writeCell 200 mid j 1 = some next → next i = 0 → marks i = 0 ∧ (i < lo ∨ j + 1 ≤ i) := by
    intro j mid next _ _ before step clean
    obtain ⟨clean, other⟩ := writeCell_mark step clean
    obtain ⟨unmarked, outside⟩ := before clean
    exact ⟨unmarked, by omega⟩
  have marked := forUp_result _ kept (fun clean => ⟨clean, by omega⟩) ran clean
  exact ⟨marked.1, by omega⟩

theorem markSelection_mark (ran : markSelection ed = some marks) (clean : marks i = 0) :
    ed.lineDirty i = 0 ∧ (i < min ed.selStartY ed.cursorY ∨ max ed.selStartY ed.cursorY < i) := by
  obtain ⟨unmarked, outside⟩ := markLines_mark ran clean
  exact ⟨unmarked, by omega⟩

theorem edSaveUndo_some (ran : edSaveUndo ed = some ed') :
    ∃ undo, ed.undo.save ed = some undo ∧ ed' = { ed with undo, redo := ed.redo.clear } := by
  obtain ⟨undo, saved, ⟨⟩⟩ := Option.bind_eq_some_iff.mp ran
  exact ⟨undo, saved, rfl⟩

theorem edClearSelection_some (ran : edClearSelection ed = some ed') : ∃ lineDirty,
    ed' = { ed with lineDirty, selActive := false } ∧
      (ed.selActive = false ∧ lineDirty = ed.lineDirty ∨ markSelection ed = some lineDirty) := by
  unfold edClearSelection at ran
  split at ran
  · rename_i inactive
    obtain ⟨⟩ := ran
    exact ⟨ed.lineDirty, by rw [← inactive], .inl ⟨inactive, rfl⟩⟩
  · obtain ⟨lineDirty, marked, ⟨⟩⟩ := Option.bind_eq_some_iff.mp ran
    exact ⟨lineDirty, rfl, .inr marked⟩

/-- `ed_insert_char` finds the line full, or types the character. -/
inductive CharInserted (ed : EditorState) (c : UInt8) : EditorState → Prop where
  | full (long : 78 - 1 ≤ ed.lineLen ed.cursorY) : CharInserted ed c ed
  | typed (short : ed.lineLen ed.cursorY < 78 - 1) (saved : ed.undo.save ed = some undo)
      (placed : placeChar ed.cursorY ed.cursorX c (ed.lines, ed.lineLen) = some (lines, lineLen))
      (marked : writeCell 200 ed.lineDirty ed.cursorY 1 = some lineDirty) :
      CharInserted ed c { ed with
        lines, lineLen, cursorX := ed.cursorX + 1, dirty := 1, lineDirty, statusDirty := 1
        undo, redo := ed.redo.clear }

theorem edInsertChar_some (ran : edInsertChar ed c = some ed') :
    ∃ ed1, edClearSelection ed = some ed1 ∧ CharInserted ed1 c ed' := by
  obtain ⟨ed1, cleared, ran⟩ := Option.bind_eq_some_iff.mp ran
  refine ⟨ed1, cleared, ?_⟩
  obtain ⟨len, read, ran⟩ := Option.bind_eq_some_iff.mp ran
  obtain ⟨_, rfl⟩ := readCell_some read
  split at ran
  · rename_i long
    obtain ⟨⟩ := ran
    exact .full long
  · rename_i short
    obtain ⟨ed2, saved, ran⟩ := Option.bind_eq_some_iff.mp ran
    obtain ⟨undo, stored, rfl⟩ := edSaveUndo_some saved
    obtain ⟨⟨lines, lineLen⟩, placed, ran⟩ := Option.bind_eq_some_iff.mp ran
    obtain ⟨lineDirty, marked, ⟨⟩⟩ := Option.bind_eq_some_iff.mp ran
    exact .typed (Int.not_le.mp short) stored placed marked

/-- `ed_insert_newline` finds the document full, or splits the line. -/
inductive NewlineInserted (ed : EditorState) : EditorState → Prop where
  | full (many : 200 ≤ ed.lineCount) : NewlineInserted ed ed
  | split (few : ed.lineCount < 200) (saved : ed.undo.save ed = some undo)
      (moved : copyRowsDown ed.lineCount (ed.cursorY + 1) (ed.lines, ed.lineLen) = some text1)
      (carried : carryChars (ed.cursorY + 1) 0 ed.cursorY ed.cursorX (ed.lineLen ed.cursorY - ed.cursorX) text1 = some text2)
      (ended : endRow ed.cursorY ed.cursorX text2 = some (lines, lineLen))
      (marked : markLines ed.cursorY (ed.lineCount + 1) ed.lineDirty = some lineDirty) :
      NewlineInserted ed { ed with
        lines, lineLen, lineCount := ed.lineCount + 1, lineDirty
        cursorY := ed.cursorY + 1, cursorX := 0, dirty := 1, statusDirty := 1
        undo, redo := ed.redo.clear }

theorem edInsertNewline_some (ran : edInsertNewline ed = some ed') : NewlineInserted ed ed' := by
  obtain ⟨len, read, ran⟩ := Option.bind_eq_some_iff.mp ran
  obtain ⟨_, rfl⟩ := readCell_some read
  split at ran
  · rename_i many
    obtain ⟨⟩ := ran
    exact .full many
  · rename_i few
    obtain ⟨ed2, saved, ran⟩ := Option.bind_eq_some_iff.mp ran
    obtain ⟨undo, stored, rfl⟩ := edSaveUndo_some saved
    obtain ⟨text1, moved, ran⟩ := Option.bind_eq_some_iff.mp ran
    obtain ⟨text2, carried, ran⟩ := Option.bind_eq_some_iff.mp ran
    obtain ⟨⟨lines, lineLen⟩, ended, ran⟩ := Option.bind_eq_some_iff.mp ran
    obtain ⟨lineDirty, marked, ⟨⟩⟩ := Option.bind_eq_some_iff.mp ran
    exact .split (Int.not_le.mp few) stored moved carried ended marked

/-- `ed_backspace` saves the line, then erases a character, joins two lines or finds nothing to
do. -/
inductive Erased (ed : EditorState) : EditorState → Prop where
  | char (inside : ed.cursorX > 0)
      (cut : cutChars ed.cursorY (ed.cursorX - 1) 1 (ed.lines, ed.lineLen) = some (lines, lineLen))
      (marked : writeCell 200 ed.lineDirty ed.cursorY 1 = some lineDirty) :
      Erased ed { ed with lines, lineLen, cursorX := ed.cursorX - 1, lineDirty }
  | line (start : ¬ed.cursorX > 0) (below : ed.cursorY > 0)
      (room : ed.lineLen (ed.cursorY - 1) + ed.lineLen ed.cursorY < 78 - 1)
      (carried : carryChars (ed.cursorY - 1) (ed.lineLen (ed.cursorY - 1)) ed.cursorY 0 (ed.lineLen ed.cursorY)
        (ed.lines, ed.lineLen) = some text)
      (moved : copyRowsUp ed.cursorY (ed.lineCount - 1) 1 text = some (lines, lineLen))
      (marked : markLines (ed.cursorY - 1) (ed.lineCount - 1 + 1) ed.lineDirty = some lineDirty) :
      Erased ed { ed with
        lines, lineLen, lineCount := ed.lineCount - 1, cursorY := ed.cursorY - 1
        cursorX := ed.lineLen (ed.cursorY - 1), lineDirty }
  | nothing (start : ¬ed.cursorX > 0) : Erased ed ed

theorem eraseBefore_some (ran : eraseBefore ed = some ed') : Erased ed ed' := by
  unfold eraseBefore at ran
  dsimp only at ran
  split at ran
  · rename_i inside
    obtain ⟨⟨lines, lineLen⟩, cut, ran⟩ := Option.bind_eq_some_iff.mp ran
    obtain ⟨lineDirty, marked, ⟨⟩⟩ := Option.bind_eq_some_iff.mp ran
    exact .char inside cut marked
  · rename_i start
    split at ran
    · rename_i below
      obtain ⟨prevLen, read, ran⟩ := Option.bind_eq_some_iff.mp ran
      obtain ⟨_, rfl⟩ := readCell_some read
      obtain ⟨curLen, read, ran⟩ := Option.bind_eq_some_iff.mp ran
      obtain ⟨_, rfl⟩ := readCell_some read
      split at ran
      · rename_i room
        obtain ⟨text, carried, ran⟩ := Option.bind_eq_some_iff.mp ran
        obtain ⟨⟨lines, lineLen⟩, moved, ran⟩ := Option.bind_eq_some_iff.mp ran
        obtain ⟨lineDirty, marked, ⟨⟩⟩ := Option.bind_eq_some_iff.mp ran
        exact .line start below room carried moved marked
      · obtain ⟨⟩ := ran
        exact .nothing start
    · obtain ⟨⟩ := ran
      exact .nothing start

theorem edBackspace_some (ran : edBackspace ed = some ed') : ∃ undo ed1, ed.undo.save ed = some undo ∧
    Erased { ed with undo, redo := ed.redo.clear } ed1 ∧ ed' = { ed1 with dirty := 1, statusDirty := 1 } := by
  obtain ⟨ed0, saved, ran⟩ := Option.bind_eq_some_iff.mp ran
  obtain ⟨undo, stored, rfl⟩ := edSaveUndo_some saved
  obtain ⟨ed1, erased, ⟨⟩⟩ := Option.bind_eq_some_iff.mp ran
  exact ⟨undo, ed1, stored, eraseBefore_some erased, rfl⟩

/-- `ed_delete_selection` cuts within the cursor's line, or joins the rest of another line to
it. -/
inductive SelectionDeleted (ed : EditorState) : EditorState → Prop where
  | inLine (same : ed.cursorY = ed.selStartY) (saved : ed.undo.save ed = some undo)
      (cut : cutChars ed.cursorY ed.cursorX (ed.selStartX - ed.cursorX) (ed.lines, ed.lineLen) = some (lines, lineLen))
      (marked : writeCell 200 ed.lineDirty ed.cursorY 1 = some lineDirty) :
      SelectionDeleted ed { ed with
        lines, lineLen, lineDirty, selActive := false, dirty := 1, statusDirty := 1
        undo, redo := ed.redo.clear }
  | across (apart : ed.cursorY ≠ ed.selStartY) (saved : ed.undo.save ed = some undo)
      (joined : joinRest ed.cursorY ed.cursorX ed.selStartY ed.selStartX (ed.lineLen ed.selStartY - ed.selStartX)
        (ed.lines, ed.lineLen) = some text)
      (moved : copyRowsUp (ed.cursorY + 1) (ed.lineCount - (ed.selStartY - ed.cursorY)) (ed.selStartY - ed.cursorY) text =
        some (lines, lineLen))
      (marked : markLines ed.cursorY (ed.lineCount - (ed.selStartY - ed.cursorY) + 1) ed.lineDirty = some lineDirty) :
      SelectionDeleted ed { ed with
        lines, lineLen, lineCount := ed.lineCount - (ed.selStartY - ed.cursorY), lineDirty, selActive := false
        dirty := 1, statusDirty := 1, undo, redo := ed.redo.clear }

theorem edDeleteSelection_some (active : ed.selActive = true) (ran : edDeleteSelection ed = some ed') :
    SelectionDeleted ed ed' := by
  have on : ¬ed.selActive = false := by simp [active]
  rw [edDeleteSelection, if_neg on] at ran
  obtain ⟨ed0, saved, ran⟩ := Option.bind_eq_some_iff.mp ran
  obtain ⟨undo, stored, rfl⟩ := edSaveUndo_some saved
  dsimp only at ran
  split at ran
  · rename_i same
    obtain ⟨ed1, deleted, ⟨⟩⟩ := Option.bind_eq_some_iff.mp ran
    obtain ⟨⟨lines, lineLen⟩, cut, ran⟩ := Option.bind_eq_some_iff.mp deleted
    obtain ⟨lineDirty, marked, ⟨⟩⟩ := Option.bind_eq_some_iff.mp ran
    exact .inLine same stored cut marked
  · rename_i apart
    obtain ⟨ed1, deleted, ⟨⟩⟩ := Option.bind_eq_some_iff.mp ran
    obtain ⟨len, read, ran⟩ := Option.bind_eq_some_iff.mp deleted
    obtain ⟨_, rfl⟩ := readCell_some read
    obtain ⟨text, joined, ran⟩ := Option.bind_eq_some_iff.mp ran
    obtain ⟨⟨lines, lineLen⟩, moved, ran⟩ := Option.bind_eq_some_iff.mp ran
    obtain ⟨lineDirty, marked, ⟨⟩⟩ := Option.bind_eq_some_iff.mp ran
    exact .across apart stored joined moved marked

/-- Enter, Backspace and the printable characters. -/
def EditKey (key : UInt8) : Prop := key = 10 ∨ key = 8 ∨ (0x20 ≤ key ∧ key < 0x80)

instance (key : UInt8) : Decidable (EditKey key) := inferInstanceAs (Decidable (_ ∨ _))

theorem deleteThen_some {edit : EditorState → Option EditorState} (ran : deleteThen edit ed = some ed1) :
    ∃ ed0, edDeleteSelection ed = some ed0 ∧ edit ed0 = some ed1 := Option.bind_eq_some_iff.mp ran

/-- A move changes the cursor and nothing else that is drawn. -/
def OnlyMoves (move : EditorState → Option EditorState) : Prop :=
  ∀ ed ed', move ed = some ed' → ∃ x y flag, ed' = { ed with cursorX := x, cursorY := y, statusDirty := flag }

theorem clampColumn_some (ran : clampColumn ed = some ed') : ∃ x, ed' = { ed with cursorX := x } := by
  obtain ⟨len, _, ran⟩ := Option.bind_eq_some_iff.mp ran
  split at ran
  · exact ⟨len, (Option.some.inj ran).symm⟩
  · exact ⟨ed.cursorX, (Option.some.inj ran).symm⟩

theorem moveUp_moves : OnlyMoves moveUp := by
  intro ed ed' ran
  unfold moveUp at ran
  split at ran
  · obtain ⟨x, rfl⟩ := clampColumn_some ran
    exact ⟨x, _, _, rfl⟩
  · exact ⟨_, _, _, (Option.some.inj ran).symm⟩

theorem moveDown_moves : OnlyMoves moveDown := by
  intro ed ed' ran
  unfold moveDown at ran
  split at ran
  · obtain ⟨x, rfl⟩ := clampColumn_some ran
    exact ⟨x, _, _, rfl⟩
  · exact ⟨_, _, _, (Option.some.inj ran).symm⟩

theorem moveLeft_moves : OnlyMoves moveLeft := by
  intro ed ed' ran
  unfold moveLeft at ran
  split at ran
  · exact ⟨_, _, _, (Option.some.inj ran).symm⟩
  · split at ran
    · obtain ⟨len, _, ran⟩ := Option.bind_eq_some_iff.mp ran
      exact ⟨_, _, _, (Option.some.inj ran).symm⟩
    · exact ⟨_, _, _, (Option.some.inj ran).symm⟩

theorem moveRight_moves : OnlyMoves moveRight := by
  intro ed ed' ran
  obtain ⟨len, _, ran⟩ := Option.bind_eq_some_iff.mp ran
  split at ran
  · exact ⟨_, _, _, (Option.some.inj ran).symm⟩
  · split at ran
    · exact ⟨_, _, _, (Option.some.inj ran).symm⟩
    · exact ⟨_, _, _, (Option.some.inj ran).symm⟩

theorem plainArrow_some (moves : OnlyMoves move) (ran : plainArrow move ed = some ed') : ∃ lineDirty x y flag,
    edClearSelection ed = some { ed with lineDirty, selActive := false } ∧
      ed' = { ed with lineDirty, selActive := false, cursorX := x, cursorY := y, statusDirty := flag } := by
  obtain ⟨ed1, cleared, moved⟩ := Option.bind_eq_some_iff.mp ran
  obtain ⟨lineDirty, rfl, _⟩ := edClearSelection_some cleared
  obtain ⟨x, y, flag, rfl⟩ := moves _ _ moved
  exact ⟨lineDirty, x, y, flag, cleared, rfl⟩

theorem shiftArrow_some (ran : shiftArrow move ed = some ed') : ∃ ed1 lineDirty,
    move (startSelection ed) = some ed1 ∧ markSelection ed1 = some lineDirty ∧
      ed' = { ed1 with lineDirty, statusDirty := 1 } := by
  obtain ⟨ed1, moved, ran⟩ := Option.bind_eq_some_iff.mp ran
  obtain ⟨lineDirty, marked, ran⟩ := Option.bind_eq_some_iff.mp ran
  exact ⟨ed1, lineDirty, moved, marked, (Option.some.inj ran).symm⟩

/-- The arrows, alone and with shift. -/
def ArrowKey (key : UInt8) : Prop :=
  key = 0x80 ∨ key = 0x81 ∨ key = 0x82 ∨ key = 0x83 ∨ key = 0x89 ∨ key = 0x8A ∨ key = 0x8B ∨ key = 0x8C

instance (key : UInt8) : Decidable (ArrowKey key) := inferInstanceAs (Decidable (_ ∨ _))

theorem edKey_arrow {press : KeyPress} (arrow : ArrowKey press.key) (ed : EditorState) :
    ∃ move, OnlyMoves move ∧ (edKey press ed = plainArrow move ed ∨ edKey press ed = shiftArrow move ed) := by
  rcases arrow with key | key | key | key | key | key | key | key
  · exact ⟨moveUp, moveUp_moves, .inl (by simp [edKey, key])⟩
  · exact ⟨moveDown, moveDown_moves, .inl (by simp [edKey, key])⟩
  · exact ⟨moveLeft, moveLeft_moves, .inl (by simp [edKey, key])⟩
  · exact ⟨moveRight, moveRight_moves, .inl (by simp [edKey, key])⟩
  · exact ⟨moveUp, moveUp_moves, .inr (by simp [edKey, key])⟩
  · exact ⟨moveDown, moveDown_moves, .inr (by simp [edKey, key])⟩
  · exact ⟨moveLeft, moveLeft_moves, .inr (by simp [edKey, key])⟩
  · exact ⟨moveRight, moveRight_moves, .inr (by simp [edKey, key])⟩

/-- Putting a line back changes its row and marks it. -/
theorem LineRing.restore_some {ring : LineRing} (ran : ring.restore ed = some ed') :
    ∃ lines lineLen lineDirty, ed' = { ed with
        lines, lineLen, cursorX := ring.cx ring.top, cursorY := ring.cy ring.top, lineDirty, statusDirty := 1 } ∧
      (∀ i, i ≠ ring.cy ring.top → SameRow (ed.lines, ed.lineLen) (lines, lineLen) i) ∧
      writeCell 200 ed.lineDirty (ring.cy ring.top) 1 = some lineDirty := by
  obtain ⟨uy, read, ran⟩ := Option.bind_eq_some_iff.mp ran
  obtain ⟨_, rfl⟩ := readCell_some read
  obtain ⟨len, read, ran⟩ := Option.bind_eq_some_iff.mp ran
  obtain ⟨_, rfl⟩ := readCell_some read
  obtain ⟨lines, copied, ran⟩ := Option.bind_eq_some_iff.mp ran
  obtain ⟨lineLen, set, ran⟩ := Option.bind_eq_some_iff.mp ran
  obtain ⟨cx, read, ran⟩ := Option.bind_eq_some_iff.mp ran
  obtain ⟨_, rfl⟩ := readCell_some read
  obtain ⟨lineDirty, marked, ⟨⟩⟩ := Option.bind_eq_some_iff.mp ran
  refine ⟨lines, lineLen, lineDirty, rfl, fun i other => ⟨?_, writeCell_frame other set⟩, marked⟩
  apply forUp_result (fun _ mid => mid i = ed.lines i) _ rfl copied
  intro _ mid next _ _ same step
  obtain ⟨_, _, put⟩ := Option.bind_eq_some_iff.mp step
  exact (setChar_frame other put).trans same

theorem edDoUndo_some (nonempty : ed.undo.count ≠ 0) (ran : edDoUndo ed = some ed') :
    ∃ redo, ed.redo.save ed = some redo ∧ ed.undo.back.restore { ed with redo, undo := ed.undo.back } = some ed' := by
  rw [edDoUndo, if_neg nonempty] at ran
  exact Option.bind_eq_some_iff.mp ran

theorem edDoUndo_lineCount (ran : edDoUndo ed = some ed') : ed'.lineCount = ed.lineCount := by
  by_cases empty : ed.undo.count = 0
  · rw [edDoUndo, if_pos empty] at ran
    rw [← Option.some.inj ran]
  · obtain ⟨redo, _, restored⟩ := edDoUndo_some empty ran
    obtain ⟨_, _, _, rfl, _⟩ := LineRing.restore_some restored
    rfl

end LivlyOS.Apps
