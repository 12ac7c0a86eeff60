import LivlyOS.Lib.TextBuffer
import LivlyOS.Apps.EditorInvariant

namespace LivlyOS.Apps

open LivlyOS.Lib

/-- The lines of the document and where the cursor stands in them: between `left` and
`right`, below the lines `above` and over the lines `below`. -/
structure Shows (ed : EditorState) (above : List (List UInt8)) (left right : List UInt8)
    (below : List (List UInt8)) : Prop where
  count : ed.lineCount = above.length + 1 + below.length
  fits : above.length + 1 + below.length ≤ 200
  row : ed.cursorY = above.length
  column : ed.cursorX = left.length
  before : Rows ed.lines ed.lineLen 0 above
  line : RowIs ed.lines ed.lineLen ed.cursorY (left ++ right)
  behind : Rows ed.lines ed.lineLen (ed.cursorY + 1) below

namespace Shows

theorem rows (shows : Shows ed above left right below) :
    Rows ed.lines ed.lineLen 0 (above ++ (left ++ right) :: below) := by
  refine Rows.append_iff.mpr ⟨shows.before, ?_⟩
  rw [Int.zero_add, ← shows.row]
  exact ⟨shows.line, shows.behind⟩

theorem of_rows {ed : EditorState} (rows : Rows ed.lines ed.lineLen 0 (above ++ (left ++ right) :: below))
    (count : ed.lineCount = above.length + 1 + below.length) (fits : above.length + 1 + below.length ≤ 200)
    (row : ed.cursorY = above.length) (column : ed.cursorX = left.length) : Shows ed above left right below := by
  obtain ⟨before, here⟩ := Rows.append_iff.mp rows
  rw [Int.zero_add, ← row] at here
  exact ⟨count, fits, row, column, before, here.1, here.2⟩

theorem structural (shows : Shows ed above left right below) : Structural ed where
  count := by
    have count := shows.count
    have fits := shows.fits
    omega
  row := by
    have count := shows.count
    have row := shows.row
    omega
  column := by
    have column := shows.column
    have length := shows.line.length
    rw [List.length_append] at length
    omega
  lens := fun i low high => by
    obtain ⟨index, rfl⟩ := Int.eq_ofNat_of_zero_le low
    have count := shows.count
    have there : index < (above ++ (left ++ right) :: below).length := by
      simp only [List.length_append, List.length_cons]
      omega
    have here := shows.rows.row there
    rw [Int.zero_add] at here
    have length := here.length
    have fits := here.fits
    change 0 ≤ ed.lineLen index ∧ ed.lineLen index ≤ 77
    omega

theorem cursorLen (shows : Shows ed above left right below) :
    ed.lineLen ed.cursorY = left.length + right.length := by
  rw [shows.line.length, List.length_append]
  exact Int.natCast_add ..

theorem lineFits (shows : Shows ed above left right below) : left.length + right.length ≤ 77 := by
  have fits := shows.line.fits
  rw [List.length_append] at fits
  exact fits

end Shows

theorem Shows.congr {ed ed' : EditorState} (shows : Shows ed above left right below) (lines : ed'.lines = ed.lines)
    (lineLen : ed'.lineLen = ed.lineLen) (lineCount : ed'.lineCount = ed.lineCount)
    (cursorY : ed'.cursorY = ed.cursorY) (cursorX : ed'.cursorX = ed.cursorX) : Shows ed' above left right below := by
  obtain ⟨count, fits, row, column, before, line, behind⟩ := shows
  rw [← lineCount] at count
  rw [← cursorY] at row line behind
  rw [← cursorX] at column
  rw [← lines, ← lineLen] at before line behind
  exact ⟨count, fits, row, column, before, line, behind⟩

/-- The state shows a document. -/
abbrev Shown (ed : EditorState) (doc : LineDoc UInt8) : Prop := Shows ed doc.above doc.left doc.right doc.below

theorem Structural.shows (state : Structural ed) : ∃ above left right below, Shows ed above left right below := by
  have count := state.count
  have row := state.row
  have column := state.column
  have len := state.cursorLen
  obtain ⟨above, size, before⟩ := Rows.total ed.lines ed.lineLen 0 ed.cursorY.toNat fun i low high =>
    state.lens i low (by omega)
  obtain ⟨line, length, spells⟩ := Spells.total (ed.lines ed.cursorY) 0 (ed.lineLen ed.cursorY).toNat
  obtain ⟨below, rest, behind⟩ := Rows.total ed.lines ed.lineLen (ed.cursorY + 1)
    (ed.lineCount - ed.cursorY - 1).toNat fun i low high => state.lens i (by omega) (by omega)
  refine ⟨above, line.take ed.cursorX.toNat, line.drop ed.cursorX.toNat, below, by omega, by omega, by omega, ?_,
    before, ?_, behind⟩
  · rw [List.length_take]
    omega
  · rw [List.take_append_drop]
    exact ⟨by omega, by omega, spells⟩

/-- The clipboard of two states is the same. -/
def SameClip (ed ed' : EditorState) : Prop :=
  ed'.clipboard = ed.clipboard ∧ ed'.clipboardLen = ed.clipboardLen

/-- Marking rows of a state in order stays inside the marks. -/
theorem markSelection_spec (state : Editing ed) (active : ed.selActive = true) :
    ∃ lineDirty, markSelection ed = some lineDirty := by
  have start := state.selection active
  have cursor := state.cursorRow
  have count := state.count
  exact markLines_spec _ _ ed.lineDirty (by omega) (by omega)

theorem edClearSelection_spec (state : Editing ed) :
    ∃ lineDirty, edClearSelection ed = some { ed with lineDirty, selActive := false } := by
  cases active : ed.selActive with
  | false => exact ⟨ed.lineDirty, by rw [edClearSelection, if_pos active, ← active]⟩
  | true =>
    obtain ⟨lineDirty, marked⟩ := markSelection_spec state active
    exact ⟨lineDirty, by simp [edClearSelection, active, marked]⟩

/-- `ed_insert_char` puts a character before the cursor unless the line is full. -/
theorem edInsertChar_spec (state : Editing ed) (shows : Shows ed above left right below) (c : UInt8) :
    ∃ ed', edInsertChar ed c = some ed' ∧ Editing ed' ∧ SameClip ed ed' ∧ ed'.selActive = false ∧
      Shows ed' above (if left.length + right.length < 77 then left ++ [c] else left) right below := by
  obtain ⟨lineDirty, cleared⟩ := edClearSelection_spec state
  have clearedState : Editing { ed with lineDirty, selActive := false } :=
    ⟨⟨state.count, state.row, state.column, state.lens⟩, state.view, state.undo, state.redo, nofun⟩
  have row := state.cursorRow
  have place := shows.row
  have len := shows.cursorLen
  by_cases room : left.length + right.length < 77
  · have small : ¬78 - 1 ≤ ed.lineLen ed.cursorY := by omega
    obtain ⟨undo, saved, undoOk⟩ := edSaveUndo_spec clearedState
    obtain ⟨lines, lineLen, placed, line, frame⟩ := placeChar_spec shows.line row shows.column room c
    obtain ⟨lineDirty', marked, _⟩ := writeCell_spec lineDirty row 1
    have shown : Shows { ed with
        lines, lineLen, cursorX := ed.cursorX + 1, dirty := 1, lineDirty := lineDirty', statusDirty := 1
        selActive := false, undo, redo := ed.redo.clear } above (left ++ [c]) right below := by
      refine ⟨shows.count, shows.fits, place, ?_, shows.before.congr fun i _ high => frame i (by omega), line,
        shows.behind.congr fun i low _ => frame i (by omega)⟩
      simp only [List.length_append, List.length_singleton, shows.column]
      omega
    refine ⟨_, ?_, ⟨shown.structural, state.view, undoOk, RingOk.clear _ _, nofun⟩, ⟨rfl, rfl⟩, rfl, ?_⟩
    · simp only [edInsertChar, cleared, readCell_eq ed.lineLen row, if_neg small, saved, placed, marked, bind,
        Option.bind]
    · rw [if_pos room]
      exact shown
  · have full : 78 - 1 ≤ ed.lineLen ed.cursorY := by omega
    refine ⟨_, ?_, clearedState, ⟨rfl, rfl⟩, rfl, ?_⟩
    · simp only [edInsertChar, cleared, readCell_eq ed.lineLen row, if_pos full, bind, Option.bind]
    · rw [if_neg room]
      exact ⟨shows.count, shows.fits, place, shows.column, shows.before, shows.line, shows.behind⟩

/-- `ed_backspace` takes out the character before the cursor. -/
theorem eraseChar_spec (shows : Shows ed above (left ++ [c]) right below) :
    ∃ lines lineLen lineDirty, eraseChar ed ed.cursorY ed.cursorX =
        some { ed with lines, lineLen, cursorX := ed.cursorX - 1, lineDirty } ∧
      Shows { ed with lines, lineLen, cursorX := ed.cursorX - 1, lineDirty } above left right below := by
  have row := shows.structural.cursorRow
  have place := shows.row
  have column := shows.column
  rw [List.length_append, List.length_singleton] at column
  have whole := shows.line
  rw [List.append_assoc] at whole
  obtain ⟨lines, lineLen, erased, line, frame⟩ :=
    cutChars_spec whole row (show ed.cursorX - 1 = left.length by omega) (show 1 = _ from rfl)
  obtain ⟨lineDirty, marked, _⟩ := writeCell_spec ed.lineDirty row 1
  refine ⟨lines, lineLen, lineDirty, ?_, shows.count, shows.fits, place, ?_,
    shows.before.congr fun i _ high => frame i (by omega), line, shows.behind.congr fun i low _ => frame i (by omega)⟩
  · simp only [eraseChar, erased, marked, bind, Option.bind]
  · simp only [column]
    omega

/-- `ed_insert_newline` splits the cursor's line unless there are 200 lines. -/
theorem edInsertNewline_spec (state : Editing ed) (shows : Shows ed above left right below) :
    ∃ ed', edInsertNewline ed = some ed' ∧ Editing ed' ∧ SameClip ed ed' ∧ ed'.selActive = ed.selActive ∧
      if above.length + 1 + below.length < 200 then Shows ed' (above ++ [left]) [] right below
      else Shows ed' above left right below := by
  have row := state.cursorRow
  have place := shows.row
  have count := shows.count
  by_cases room : above.length + 1 + below.length < 200
  · have small : ¬200 ≤ ed.lineCount := by omega
    have next : 0 ≤ ed.cursorY + 1 ∧ ed.cursorY + 1 < 200 := by omega
    have len := shows.cursorLen
    have column := shows.column
    have fits := shows.lineFits
    obtain ⟨undo, saved, undoOk⟩ := edSaveUndo_spec state
    obtain ⟨lines1, lineLen1, moved, behind, first, _⟩ := copyRowsDown_spec shows.behind (by omega) (by omega)
    rw [show ed.cursorY + 1 + (below.length : Int) = ed.lineCount by omega] at moved
    have here := shows.line.congr (first ed.cursorY (by omega))
    have rest := (Spells.append_iff.mp here.spells).2
    rw [show 0 + (left.length : Int) = ed.cursorX by omega] at rest
    have front : Spells (lines1 (ed.cursorY + 1)) 0 [] := trivial
    obtain ⟨lines2, lineLen2, carried, rightRow, frame⟩ := carryChars_spec lineLen1 next row (by omega) front rest
      (show (0 : Int) = _ from rfl) (show ed.lineLen ed.cursorY - ed.cursorX = _ by omega) (by simp only [List.length_nil]; omega) (by omega)
    obtain ⟨lines3, lineLen3, ended, leftRow, frame'⟩ :=
      endRow_spec (here.congr (frame ed.cursorY (by omega))) row column
    obtain ⟨lineDirty, marked⟩ := markLines_spec ed.cursorY (ed.lineCount + 1) ed.lineDirty (by omega) (by omega)
    have shown : Shows { ed with
        lines := lines3, lineLen := lineLen3, lineCount := ed.lineCount + 1, cursorX := 0, cursorY := ed.cursorY + 1
        dirty := 1, lineDirty, statusDirty := 1, undo, redo := ed.redo.clear } (above ++ [left]) [] right below := by
      have before := ((shows.before.congr fun i _ high => first i (by omega)).congr fun i _ high =>
        frame i (by omega)).congr fun i _ high => frame' i (by omega)
      refine ⟨?_, ?_, ?_, rfl, Rows.append_iff.mpr ⟨before, ?_, trivial⟩, rightRow.congr (frame' _ (by omega)),
        (behind.congr fun i low _ => frame i (by omega)).congr fun i low _ => frame' i (by omega)⟩
      all_goals simp only [List.length_append, List.length_singleton]
      · omega
      · omega
      · omega
      · rw [Int.zero_add, ← place]
        exact leftRow
    refine ⟨_, ?_, ⟨shown.structural, state.view, undoOk, RingOk.clear _ _, fun active => ?_⟩, ⟨rfl, rfl⟩, rfl, ?_⟩
    · simp only [edInsertNewline, readCell_eq ed.lineLen row, if_neg small, saved, moved, carried, ended, marked, bind,
        Option.bind]
    · have start := state.selection active
      exact ⟨⟨start.1.1, Int.lt_add_one_of_le (Int.le_of_lt start.1.2)⟩, start.2⟩
    · rw [if_pos room]
      exact shown
  · have full : 200 ≤ ed.lineCount := by omega
    refine ⟨ed, ?_, state, ⟨rfl, rfl⟩, rfl, ?_⟩
    · simp only [edInsertNewline, readCell_eq ed.lineLen row, if_pos full, bind, Option.bind]
    · rw [if_neg room]
      exact shows

/-- `ed_backspace` at the start of a line joins it to the one above, unless that gets too long. -/
theorem joinLine_spec (shows : Shows ed (above ++ [line]) [] right below) :
    ∃ ed', joinLine ed ed.cursorY = some ed' ∧ ed'.viewTop = ed.viewTop ∧ ed'.undo = ed.undo ∧
      ed'.redo = ed.redo ∧ SameClip ed ed' ∧ ed'.selActive = ed.selActive ∧
      if line.length + right.length < 77 then Shows ed' above line right below
      else Shows ed' (above ++ [line]) [] right below := by
  have row := shows.structural.cursorRow
  have place := shows.row
  have count := shows.count
  have total := shows.fits
  have len := shows.cursorLen
  rw [List.length_nil] at len
  simp only [List.length_append, List.length_singleton] at place count total
  obtain ⟨before, previous, _⟩ := Rows.append_iff.mp shows.before
  rw [show 0 + (above.length : Int) = ed.cursorY - 1 by omega] at previous
  have prevLen := previous.length
  have up : 0 ≤ ed.cursorY - 1 ∧ ed.cursorY - 1 < 200 := by omega
  by_cases room : line.length + right.length < 77
  · have small : ed.lineLen (ed.cursorY - 1) + ed.lineLen ed.cursorY < 78 - 1 := by omega
    obtain ⟨lines1, lineLen1, carried, joined, frame⟩ := carryChars_spec ed.lineLen up row (by omega) previous.spells
      shows.line.spells prevLen (show ed.lineLen ed.cursorY = _ by simp only [List.nil_append]; omega)
      (by simp only [List.nil_append]; omega) (by omega)
    obtain ⟨lines2, lineLen2, moved, behind, frame'⟩ := copyRowsUp_spec 1 (by omega)
      (shows.behind.congr fun i low _ => frame i (by omega)) row.1 (by omega)
    rw [show ed.cursorY + (below.length : Int) = ed.lineCount - 1 by omega] at moved
    obtain ⟨lineDirty, marked⟩ := markLines_spec (ed.cursorY - 1) (ed.lineCount - 1 + 1) ed.lineDirty (by omega)
      (by omega)
    refine ⟨{ ed with
      lines := lines2, lineLen := lineLen2, lineCount := ed.lineCount - 1, cursorY := ed.cursorY - 1
      cursorX := ed.lineLen (ed.cursorY - 1), lineDirty }, ?_, rfl, rfl, rfl, ⟨rfl, rfl⟩, rfl, ?_⟩
    · simp only [joinLine, readCell_eq ed.lineLen up, readCell_eq ed.lineLen row, if_pos small, carried, moved, marked,
        bind, Option.bind]
    · rw [if_pos room]
      refine ⟨?_, by omega, ?_, prevLen, ?_, joined.congr (frame' _ (by omega)), ?_⟩
      · simp only
        omega
      · simp only
        omega
      · exact (before.congr fun i _ high => frame i (by omega)).congr fun i _ high => frame' i (by omega)
      · simp only [Int.sub_add_cancel]
        exact behind
  · have large : ¬ed.lineLen (ed.cursorY - 1) + ed.lineLen ed.cursorY < 78 - 1 := by omega
    refine ⟨ed, ?_, rfl, rfl, rfl, ⟨rfl, rfl⟩, rfl, ?_⟩
    · simp only [joinLine, readCell_eq ed.lineLen up, readCell_eq ed.lineLen row, if_neg large, bind, Option.bind]
    · rw [if_neg room]
      exact shows

theorem eraseBefore_spec (shows : Shows ed above left right below) :
    ∃ ed', eraseBefore ed = some ed' ∧ ed'.viewTop = ed.viewTop ∧ ed'.undo = ed.undo ∧ ed'.redo = ed.redo ∧
      SameClip ed ed' ∧ ed'.selActive = ed.selActive ∧
      Shown ed' (LineDoc.erase (· < 77) ⟨above, left, right, below⟩) := by
  have place := shows.row
  have column := shows.column
  rcases List.eq_nil_or_concat' left with rfl | ⟨front, c, rfl⟩
  · have start : ¬ed.cursorX > 0 := by
      rw [List.length_nil] at column
      omega
    rcases List.eq_nil_or_concat' above with rfl | ⟨rest, line, rfl⟩
    · have top : ¬ed.cursorY > 0 := by
        rw [List.length_nil] at place
        omega
      exact ⟨ed, by rw [eraseBefore, if_neg start, if_neg top], rfl, rfl, rfl, ⟨rfl, rfl⟩, rfl, shows⟩
    · have under : ed.cursorY > 0 := by
        rw [List.length_append, List.length_singleton] at place
        omega
      obtain ⟨ed', joined, view, undo, redo, clip, sel, shown⟩ := joinLine_spec shows
      refine ⟨ed', by rw [eraseBefore, if_neg start, if_pos under, joined], view, undo, redo, clip, sel, ?_⟩
      rw [LineDoc.erase_line]
      by_cases room : line.length + right.length < 77
      · rw [if_pos room] at shown ⊢
        exact shown
      · rw [if_neg room] at shown ⊢
        exact shown
  · have inside : ed.cursorX > 0 := by
      rw [List.length_append, List.length_singleton] at column
      omega
    obtain ⟨lines, lineLen, lineDirty, erased, shown⟩ := eraseChar_spec shows
    have ran : eraseBefore ed = _ := (if_pos inside).trans erased
    refine ⟨_, ran, rfl, rfl, rfl, ⟨rfl, rfl⟩, rfl, ?_⟩
    rw [LineDoc.erase_char]
    exact shown

theorem edBackspace_spec (state : Editing ed) (inactive : ed.selActive = false)
    (shows : Shows ed above left right below) :
    ∃ ed', edBackspace ed = some ed' ∧ Editing ed' ∧ SameClip ed ed' ∧ ed'.selActive = false ∧
      Shown ed' (LineDoc.erase (· < 77) ⟨above, left, right, below⟩) := by
  obtain ⟨undo, saved, undoOk⟩ := edSaveUndo_spec state
  obtain ⟨ed', erased, view, undo', redo', clip, sel, shown⟩ := eraseBefore_spec
    (shows.congr rfl rfl rfl rfl rfl : Shows { ed with undo, redo := ed.redo.clear } above left right below)
  have touched : Shown { ed' with dirty := 1, statusDirty := 1 } (LineDoc.erase (· < 77) ⟨above, left, right, below⟩) :=
    shown.congr rfl rfl rfl rfl rfl
  refine ⟨{ ed' with dirty := 1, statusDirty := 1 }, ?_, ⟨touched.structural, ?_, ?_, ?_, fun active => ?_⟩, clip,
    sel.trans inactive, touched⟩
  · simp only [edBackspace, saved, erased, bind, Option.bind]
  · rw [view]
    exact state.view
  · rw [undo']
    exact undoOk
  · rw [redo']
    exact RingOk.clear _ _
  · exact absurd (active.symm.trans (sel.trans inactive)) (by decide)

theorem Shows.move {ed : EditorState} (shows : Shows ed above left right below) (doc : LineDoc UInt8)
    (same : doc.lines = above ++ (left ++ right) :: below) (flag : UInt8) :
    Shown { ed with cursorX := doc.left.length, cursorY := doc.above.length, statusDirty := flag } doc := by
  have rows := shows.rows
  rw [← same] at rows
  have length := congrArg List.length same
  simp only [LineDoc.lines, List.length_append, List.length_cons] at length
  have count := shows.count
  have fits := shows.fits
  refine Shows.of_rows rows ?_ (by omega) rfl rfl
  simp only
  omega

/-- The cursor moves as it does in the document, and nothing else happens. -/
def MovesAs (move : EditorState → Option EditorState) (onDoc : LineDoc UInt8 → LineDoc UInt8) : Prop :=
  ∀ ed doc, Shown ed doc → ∃ x y flag,
    move ed = some { ed with cursorX := x, cursorY := y, statusDirty := flag } ∧
      Shown { ed with cursorX := x, cursorY := y, statusDirty := flag } (onDoc doc)

theorem moveLeft_spec : MovesAs moveLeft LineDoc.moveLeft := by
  rintro ed ⟨above, left, right, below⟩ shows
  have row : ed.cursorY = above.length := shows.row
  have column : ed.cursorX = left.length := shows.column
  rcases List.eq_nil_or_concat' left with rfl | ⟨front, c, rfl⟩
  · rw [List.length_nil] at column
    have start : ¬ed.cursorX > 0 := by omega
    rcases List.eq_nil_or_concat' above with rfl | ⟨rest, line, rfl⟩
    · rw [List.length_nil] at row
      have top : ¬ed.cursorY > 0 := by omega
      exact ⟨ed.cursorX, ed.cursorY, ed.statusDirty, by rw [moveLeft, if_neg start, if_neg top], shows⟩
    · have previous := (Rows.append_iff.mp shows.before).2.1
      rw [List.length_append, List.length_singleton] at row
      have under : ed.cursorY > 0 := by omega
      have fits := shows.fits
      rw [show 0 + (rest.length : Int) = ed.cursorY - 1 by omega] at previous
      refine ⟨_, _, 1, ?_, shows.move (LineDoc.moveLeft _) ((LineDoc.moveLeft_lines _).trans rfl) 1⟩
      simp only [List.length_append, List.length_singleton] at fits
      have up : 0 ≤ ed.cursorY - 1 ∧ ed.cursorY - 1 < 200 := by omega
      simp only [moveLeft, if_neg start, if_pos under, readCell_eq ed.lineLen up, LineDoc.moveLeft_line, bind,
        Option.bind, previous.length, show (rest.length : Int) = ed.cursorY - 1 by omega]
  · rw [List.length_append, List.length_singleton] at column
    have inside : ed.cursorX > 0 := by omega
    refine ⟨_, _, 1, ?_, shows.move (LineDoc.moveLeft _) ((LineDoc.moveLeft_lines _).trans rfl) 1⟩
    simp only [moveLeft, if_pos inside, LineDoc.moveLeft_char, ← row,
      show (front.length : Int) = ed.cursorX - 1 by omega]

theorem moveRight_spec : MovesAs moveRight LineDoc.moveRight := by
  rintro ed ⟨above, left, right, below⟩ shows
  have row : ed.cursorY = above.length := shows.row
  have column : ed.cursorX = left.length := shows.column
  have len : ed.lineLen ed.cursorY = left.length + right.length := shows.cursorLen
  have count : ed.lineCount = above.length + 1 + below.length := shows.count
  have read := readCell_eq ed.lineLen shows.structural.cursorRow
  rcases right with _ | ⟨c, right⟩
  · rw [List.length_nil] at len
    have stop : ¬ed.cursorX < ed.lineLen ed.cursorY := by omega
    rcases below with _ | ⟨line, below⟩
    · rw [List.length_nil] at count
      have last : ¬ed.cursorY < ed.lineCount - 1 := by omega
      refine ⟨ed.cursorX, ed.cursorY, ed.statusDirty, ?_, shows⟩
      simp only [moveRight, read, if_neg stop, if_neg last, bind, Option.bind]
    · rw [List.length_cons] at count
      have more : ed.cursorY < ed.lineCount - 1 := by omega
      refine ⟨_, _, 1, ?_, shows.move (LineDoc.moveRight _) ((LineDoc.moveRight_lines _).trans rfl) 1⟩
      simp only [moveRight, read, if_neg stop, if_pos more, LineDoc.moveRight_line, bind, Option.bind,
        List.length_append, List.length_singleton, List.length_nil, Int.natCast_add, ← row]
      rfl
  · rw [List.length_cons] at len
    have inside : ed.cursorX < ed.lineLen ed.cursorY := by omega
    refine ⟨_, _, 1, ?_, shows.move (LineDoc.moveRight _) ((LineDoc.moveRight_lines _).trans rfl) 1⟩
    simp only [moveRight, read, if_pos inside, LineDoc.moveRight_char, bind, Option.bind, List.length_append,
      List.length_singleton, Int.natCast_add, ← row, ← column]
    rfl

theorem clampColumn_spec (ed : EditorState) (row : 0 ≤ ed.cursorY ∧ ed.cursorY < 200) :
    clampColumn ed = some { ed with cursorX := min ed.cursorX (ed.lineLen ed.cursorY) } := by
  simp only [clampColumn, readCell_eq ed.lineLen row, bind, Option.bind]
  by_cases long : ed.cursorX > ed.lineLen ed.cursorY
  · rw [if_pos long, Int.min_eq_right (Int.le_of_lt long)]
  · rw [if_neg long, Int.min_eq_left (Int.not_lt.mp long)]

theorem moveUp_spec : MovesAs moveUp LineDoc.moveUp := by
  rintro ed ⟨above, left, right, below⟩ shows
  have row : ed.cursorY = above.length := shows.row
  have column : ed.cursorX = left.length := shows.column
  rcases List.eq_nil_or_concat' above with rfl | ⟨rest, line, rfl⟩
  · rw [List.length_nil] at row
    have top : ¬ed.cursorY > 0 := by omega
    exact ⟨ed.cursorX, ed.cursorY, ed.statusDirty, by rw [moveUp, if_neg top], shows⟩
  · have previous := (Rows.append_iff.mp shows.before).2.1
    rw [List.length_append, List.length_singleton] at row
    have under : ed.cursorY > 0 := by omega
    have inside := shows.structural.cursorRow
    rw [show 0 + (rest.length : Int) = ed.cursorY - 1 by omega] at previous
    refine ⟨_, _, 1, ?_, shows.move (LineDoc.moveUp _) ((LineDoc.moveUp_lines _).trans rfl) 1⟩
    have cut : ((min left.length line.length : Nat) : Int) = min (left.length : Int) line.length := by omega
    rw [moveUp, if_pos under, clampColumn_spec _ ⟨by simp only; omega, by simp only; omega⟩]
    simp only [LineDoc.moveUp_line, List.length_take, previous.length, column, cut,
      show (rest.length : Int) = ed.cursorY - 1 by omega]

theorem moveDown_spec : MovesAs moveDown LineDoc.moveDown := by
  rintro ed ⟨above, left, right, below⟩ shows
  have row : ed.cursorY = above.length := shows.row
  have column : ed.cursorX = left.length := shows.column
  have count : ed.lineCount = above.length + 1 + below.length := shows.count
  rcases below with _ | ⟨line, below⟩
  · rw [List.length_nil] at count
    have last : ¬ed.cursorY < ed.lineCount - 1 := by omega
    exact ⟨ed.cursorX, ed.cursorY, ed.statusDirty, by rw [moveDown, if_neg last], shows⟩
  · have next := shows.behind.1
    rw [List.length_cons] at count
    have more : ed.cursorY < ed.lineCount - 1 := by omega
    have total := shows.structural.count
    have inside := shows.structural.cursorRow
    refine ⟨_, _, 1, ?_, shows.move (LineDoc.moveDown _) ((LineDoc.moveDown_lines _).trans rfl) 1⟩
    have cut : ((min left.length line.length : Nat) : Int) = min (left.length : Int) line.length := by omega
    rw [moveDown, if_pos more, clampColumn_spec _ ⟨by simp only; omega, by simp only; omega⟩]
    simp only [LineDoc.moveDown_line, List.length_take, List.length_append, List.length_singleton, next.length, column,
      Int.natCast_add, ← row, cut]
    rfl

end LivlyOS.Apps
