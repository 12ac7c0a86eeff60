import LivlyOS.Apps.EditorSelection
import LivlyOS.Apps.EditorText

namespace LivlyOS.Apps

open LivlyOS.Lib

theorem deleteInLine_spec (shows : Shows ed above left (picked ++ right) below) (stop : ex = ed.cursorX + picked.length) :
    ∃ lines lineLen lineDirty, deleteInLine ed ed.cursorY ed.cursorX ex = some { ed with lines, lineLen, lineDirty } ∧
      Shows { ed with lines, lineLen, lineDirty } above left right below := by
  have row := shows.structural.cursorRow
  have place := shows.row
  obtain ⟨lines, lineLen, cut, line, frame⟩ :=
    cutChars_spec shows.line row shows.column (show ex - ed.cursorX = picked.length by omega)
  obtain ⟨lineDirty, marked, _⟩ := writeCell_spec ed.lineDirty row 1
  refine ⟨lines, lineLen, lineDirty, ?_, shows.count, shows.fits, place, shows.column,
    shows.before.congr fun i _ high => frame i (by omega), line, shows.behind.congr fun i low _ => frame i (by omega)⟩
  simp only [deleteInLine, cut, marked, bind, Option.bind]

/-- The rest of the last line goes behind the first part, or is dropped when it does not fit. -/
theorem joinRest_spec {lines : Lines} {lineLen : Int → Int} {sx ex tailLen : Int} (row : RowIs lines lineLen sy (left ++ right)) (lastRow : RowIs lines lineLen ey (front ++ rest))
    (apart : sy ≠ ey) (dst : 0 ≤ sy ∧ sy < 200) (src : 0 ≤ ey ∧ ey < 200) (column : sx = left.length) (stop : ex = front.length)
    (size : tailLen = rest.length) :
    ∃ lines' lineLen', joinRest sy sx ey ex tailLen (lines, lineLen) = some (lines', lineLen') ∧
      RowIs lines' lineLen' sy (left ++ if left.length + rest.length < 77 then rest else []) ∧
      OtherRows sy lines lines' lineLen lineLen' := by
  have fits := lastRow.fits
  rw [List.length_append] at fits
  unfold joinRest
  by_cases short : left.length + rest.length < 77
  · have room : sx + tailLen < 78 - 1 := by omega
    obtain ⟨_, restSpells⟩ := Spells.append_iff.mp lastRow.spells
    rw [show 0 + (front.length : Int) = ex by omega] at restSpells
    rw [if_pos room, if_pos short]
    exact carryChars_spec lineLen dst src apart (Spells.append_iff.mp row.spells).1 restSpells column size (by omega) (by omega)
  · have full : ¬sx + tailLen < 78 - 1 := by omega
    rw [if_neg full, if_neg short, List.append_nil]
    exact endRow_spec row dst column

theorem deleteAcross_spec (shows : Shows ed above left right (between ++ (front ++ rest) :: below))
    (stopRow : ey = ed.cursorY + 1 + between.length) (stop : ex = front.length) :
    ∃ lines lineLen lineCount lineDirty, deleteAcross ed ed.cursorY ed.cursorX ey ex =
        some { ed with lines, lineLen, lineCount, lineDirty } ∧
      Shows { ed with lines, lineLen, lineCount, lineDirty } above left
        (if left.length + rest.length < 77 then rest else []) below := by
  have row := shows.structural.cursorRow
  have place := shows.row
  have column := shows.column
  have count := shows.count
  have total := shows.fits
  simp only [List.length_append, List.length_cons] at count total
  obtain ⟨_, lastRow, behind⟩ := Rows.append_iff.mp shows.behind
  rw [show ed.cursorY + 1 + (between.length : Int) = ey by omega] at lastRow behind
  have src : 0 ≤ ey ∧ ey < 200 := by omega
  have len := lastRow.length
  rw [List.length_append] at len
  have size : ed.lineLen ey - ex = rest.length := by omega
  obtain ⟨lines1, lineLen1, rejoined, joined, frame⟩ :=
    joinRest_spec shows.line lastRow (by omega) row src column stop size
  have below1 := behind.congr fun i low _ => frame i (by omega)
  rw [show ey + 1 = ed.cursorY + 1 + (ey - ed.cursorY) by omega] at below1
  obtain ⟨lines2, lineLen2, moved, behind2, frame2⟩ :=
    copyRowsUp_spec (ey - ed.cursorY) (by omega) below1 (by omega) (by omega)
  rw [show ed.cursorY + 1 + (below.length : Int) = ed.lineCount - (ey - ed.cursorY) by omega] at moved
  obtain ⟨lineDirty, marked⟩ := markLines_spec ed.cursorY (ed.lineCount - (ey - ed.cursorY) + 1) ed.lineDirty
    (by omega) (by omega)
  refine ⟨lines2, lineLen2, ed.lineCount - (ey - ed.cursorY), lineDirty, ?_, ?_, by omega, place, column, ?_,
    joined.congr (frame2 _ (by omega)), behind2⟩
  · simp only [deleteAcross, readCell_eq ed.lineLen src, rejoined, moved, marked, bind, Option.bind]
  · simp only
    omega
  · exact (shows.before.congr fun i _ high => frame i (by omega)).congr fun i _ high => frame2 i (by omega)

/-- The clipboard holds a text and the counter stands behind it. -/
def Clip (clip : (Int → UInt8) × Int) (text : List UInt8) : Prop := Spells clip.1 0 text ∧ clip.2 = text.length

theorem clipChar_spec (c : UInt8) (held : Clip clip text) (room : text.length < 15599) :
    ∃ clip', clipChar c clip = some clip' ∧ Clip clip' (text ++ [c]) := by
  obtain ⟨spells, count⟩ := held
  have small : clip.2 < 200 * 78 - 1 := by omega
  refine ⟨(Function.update clip.1 clip.2 c, clip.2 + 1), ?_, Spells.append_iff.mpr ⟨?_, ?_, trivial⟩, ?_⟩
  · rw [clipChar, if_pos small, writeCell_eq clip.1 (by omega)]
    rfl
  · exact spells.congr fun i low high => Function.update_of_ne (by omega) ..
  · rw [show 0 + (text.length : Int) = clip.2 by omega]
    exact Function.update_self ..
  · simp only [List.length_append, List.length_singleton]
    omega

theorem clipRow_spec {clip : (Int → UInt8) × Int} (held : Clip clip text) (spells : Spells (lines y) x picked)
    (inside : 0 ≤ y ∧ y < 200) (column : 0 ≤ x ∧ x + picked.length ≤ 78)
    (room : text.length + picked.length ≤ 15599) :
    ∃ clip', clipRow lines y x (x + picked.length) clip = some clip' ∧ Clip clip' (text ++ picked) := by
  induction picked generalizing x clip text with
  | nil => exact ⟨clip, forUp_done (by simp) clip, by rw [List.append_nil]; exact held⟩
  | cons c rest ih =>
    have length : ((c :: rest).length : Int) = rest.length + 1 := by
      simp only [List.length_cons]
      omega
    rw [List.length_cons] at room
    obtain ⟨clip1, put, held1⟩ := clipChar_spec c held (by omega)
    have more : text.length + 1 + rest.length ≤ 15599 := by omega
    obtain ⟨clip', ran, held'⟩ := ih held1 spells.2 (by omega) (by simp only [List.length_append, List.length_singleton]; omega)
    have count := held.2
    have small : clip.2 < 200 * 78 - 1 := by omega
    refine ⟨clip', ?_, ?_⟩
    · rw [clipRow, length, forUp_next (by omega), if_pos small, charAt_eq lines inside (by omega), spells.1]
      simp only [bind, Option.bind, put]
      rw [show x + ((rest.length : Int) + 1) = x + 1 + rest.length by omega]
      exact ran
    · rw [List.append_assoc, List.singleton_append] at held'
      exact held'

section
variable {clip : (Int → UInt8) × Int} {lines : Lines} {lineLen : Int → Int}

/-- A row before the last one is copied to its end and a newline goes behind it. -/
theorem clipTurn_before (ex : Int) (held : Clip clip text) (starts : (if y = sy then sx else 0) = start)
    (spells : Spells (lines y) start picked) (len : lineLen y = start + picked.length) (before : y < ey)
    (inside : 0 ≤ y ∧ y < 200) (column : 0 ≤ start ∧ start + picked.length ≤ 78)
    (room : text.length + picked.length + 1 ≤ 15599) :
    ∃ clip', clipTurn lines lineLen sy sx ey ex y clip = some clip' ∧ Clip clip' (text ++ (picked ++ [10])) := by
  have count := held.2
  have small : clip.2 < 200 * 78 - 1 := by omega
  obtain ⟨clip1, ran, held1⟩ := clipRow_spec held spells inside column (by omega)
  have more : (text ++ picked).length < 15599 := by
    rw [List.length_append]
    omega
  obtain ⟨clip', put, held'⟩ := clipChar_spec 10 held1 more
  have stop : clipStop lineLen ey ex y = some (start + picked.length) := by
    rw [clipStop, if_neg (by omega), readCell_eq lineLen inside, len]
  refine ⟨clip', ?_, by rw [← List.append_assoc]; exact held'⟩
  rw [clipTurn, if_pos small]
  simp only [clipLine, starts, stop, ran, if_pos before, put, bind, Option.bind]

/-- The last row is copied to the end of the selection. -/
theorem clipTurn_last (held : Clip clip text) (starts : (if ey = sy then sx else 0) = start)
    (spells : Spells (lines ey) start picked) (stop : ex = start + picked.length) (inside : 0 ≤ ey ∧ ey < 200)
    (column : 0 ≤ start ∧ start + picked.length ≤ 78) (room : text.length + picked.length ≤ 15599) :
    ∃ clip', clipTurn lines lineLen sy sx ey ex ey clip = some clip' ∧ Clip clip' (text ++ picked) := by
  have count := held.2
  by_cases small : clip.2 < 200 * 78 - 1
  · obtain ⟨clip', ran, held'⟩ := clipRow_spec held spells inside column room
    have last : clipStop lineLen ey ex ey = some (start + picked.length) := by rw [clipStop, if_pos rfl, stop]
    refine ⟨clip', ?_, held'⟩
    rw [clipTurn, if_pos small]
    simp only [clipLine, starts, last, ran, if_neg (Int.lt_irrefl ey), bind, Option.bind]
  · -- a full clipboard: nothing is left to copy
    have none : picked = [] := List.eq_nil_of_length_eq_zero (by omega)
    refine ⟨clip, by rw [clipTurn, if_neg small], ?_⟩
    rw [none, List.append_nil]
    exact held

theorem clipRows_rest {ex : Int} {between : List (List UInt8)} (held : Clip clip text) (behind : sy < y)
    (rows : Rows lines lineLen y between) (last : ey = y + between.length) (spells : Spells (lines ey) 0 front)
    (stop : ex = front.length) (low : 0 ≤ y) (high : ey < 200) (short : front.length ≤ 77)
    (room : text.length + (between.flatMap (· ++ [10])).length + front.length ≤ 15599) :
    ∃ clip', forUp y (ey + 1) (clipTurn lines lineLen sy sx ey ex) clip = some clip' ∧
      Clip clip' (text ++ (between.flatMap (· ++ [10]) ++ front)) := by
  induction between generalizing y clip text with
  | nil =>
    simp only [List.length_nil, List.flatMap_nil] at last room
    obtain rfl : ey = y := by omega
    obtain ⟨clip', ran, held'⟩ := clipTurn_last held (if_neg (show ¬ey = sy by omega)) spells (show ex = 0 + (front.length : Int) by omega)
      (show 0 ≤ ey ∧ ey < 200 by omega) (by omega) (by omega)
    refine ⟨clip', ?_, held'⟩
    rw [forUp_next (by omega), ran]
    exact forUp_done (Int.le_refl _) clip'
  | cons line between ih =>
    simp only [List.length_cons, List.flatMap_cons, List.length_append, List.length_nil] at last room
    obtain ⟨row, rows⟩ := rows
    have len := row.length
    have fits := row.fits
    obtain ⟨clip1, ran, held1⟩ := clipTurn_before ex held (if_neg (show ¬y = sy by omega)) row.spells (show lineLen y = 0 + _ by omega)
      (show y < ey by omega) (by omega) (by omega) (by omega)
    obtain ⟨clip', rest, held'⟩ := ih held1 (by omega) rows (by omega) (by omega)
      (by simp only [List.length_append, List.length_cons, List.length_nil]; omega)
    refine ⟨clip', ?_, ?_⟩
    · rw [forUp_next (by omega), ran]
      exact rest
    · simp only [List.flatMap_cons, List.append_assoc] at held' ⊢
      exact held'

theorem clipRows_inLine (held : Clip clip text) (spells : Spells (lines y) start picked)
    (stop : ex = start + picked.length) (inside : 0 ≤ y ∧ y < 200) (column : 0 ≤ start ∧ start + picked.length ≤ 78)
    (room : text.length + picked.length ≤ 15599) :
    ∃ clip', clipRows lines lineLen y start y ex clip = some clip' ∧ Clip clip' (text ++ picked) := by
  obtain ⟨clip', ran, held'⟩ := clipTurn_last held (if_pos rfl) spells stop inside column room
  refine ⟨clip', ?_, held'⟩
  rw [clipRows, forUp_next (by omega), ran]
  exact forUp_done (Int.le_refl _) clip'

theorem clipRows_across {ex : Int} {between : List (List UInt8)} (held : Clip clip text) (spells : Spells (lines y) start right)
    (len : lineLen y = start + right.length) (inside : 0 ≤ y ∧ ey < 200)
    (column : 0 ≤ start ∧ start + right.length ≤ 78) (rows : Rows lines lineLen (y + 1) between)
    (last : ey = y + 1 + between.length) (lastSpells : Spells (lines ey) 0 front) (stop : ex = front.length)
    (short : front.length ≤ 77)
    (room : text.length + right.length + 1 + (between.flatMap (· ++ [10])).length + front.length ≤ 15599) :
    ∃ clip', clipRows lines lineLen y start ey ex clip = some clip' ∧
      Clip clip' (text ++ (right ++ [10]) ++ (between.flatMap (· ++ [10]) ++ front)) := by
  obtain ⟨clip1, ran, held1⟩ := clipTurn_before ex held (if_pos rfl) spells len (show y < ey by omega)
    (by omega) column (by omega)
  obtain ⟨clip', rest, held'⟩ := clipRows_rest held1 (show y < y + 1 by omega) rows last lastSpells stop (by omega)
    inside.2 short (by simp only [List.length_append, List.length_cons, List.length_nil]; omega)
  refine ⟨clip', ?_, held'⟩
  rw [clipRows, forUp_next (by omega), ran]
  exact rest

end

/-- The cursor is at or before the selection's start in reading order. -/
def CursorFirst (ed : EditorState) : Prop :=
  ed.cursorY < ed.selStartY ∨ (ed.cursorY = ed.selStartY ∧ ed.cursorX ≤ ed.selStartX)

instance (ed : EditorState) : Decidable (CursorFirst ed) := inferInstanceAs (Decidable (_ ∨ _))

/-- Row and column of the end of the selection that is read first. -/
def earlierEnd (ed : EditorState) : Int × Int :=
  if CursorFirst ed then (ed.cursorY, ed.cursorX) else (ed.selStartY, ed.selStartX)

/-- Row and column of the other end. -/
def laterEnd (ed : EditorState) : Int × Int :=
  if CursorFirst ed then (ed.selStartY, ed.selStartX) else (ed.cursorY, ed.cursorX)

/-- The length of the line that is left where the selection was. -/
def joinedLength (ed : EditorState) : Int :=
  (earlierEnd ed).2 + (ed.lineLen (laterEnd ed).1 - (laterEnd ed).2)

/-- The text in the clipboard. -/
def clipboardText (ed : EditorState) : List UInt8 :=
  (List.range ed.clipboardLen.toNat).map fun i : Nat => ed.clipboard i

/-- `ed_delete_selection` leaves the text before the earlier end and the text from the later
end on, with the cursor at the earlier end, and takes out what `ed_copy_selection` would copy. -/
def DeletesSelected (ed : EditorState) : Prop :=
  ∃ ed' copied, edDeleteSelection ed = some ed' ∧ edCopySelection ed = some copied ∧
    let lo := textOffset ed (earlierEnd ed).1 (earlierEnd ed).2
    let hi := textOffset ed (laterEnd ed).1 (laterEnd ed).2
    documentText ed' = (documentText ed).take lo ++ (documentText ed).drop hi ∧
      (ed'.cursorY, ed'.cursorX) = earlierEnd ed ∧
      clipboardText copied = ((documentText ed).take hi).drop lo

/-- With the text split in three, the ends of the middle part are what is deleted. -/
theorem deletesSelected_of_split (ed : EditorState) (before picked after : List UInt8) (first : CursorFirst ed)
    (whole : documentText ed = before ++ (picked ++ after))
    (lo : textOffset ed ed.cursorY ed.cursorX = before.length)
    (hi : textOffset ed ed.selStartY ed.selStartX = (before ++ picked).length)
    (deleted : ∃ ed', edDeleteSelection ed = some ed' ∧ documentText ed' = before ++ after ∧
      ed'.cursorY = ed.cursorY ∧ ed'.cursorX = ed.cursorX)
    (copied : ∃ copied, edCopySelection ed = some copied ∧ clipboardText copied = picked) : DeletesSelected ed := by
  obtain ⟨ed', removed, text, row, column⟩ := deleted
  obtain ⟨copied, ran, clip⟩ := copied
  have front : (documentText ed).take (before ++ picked).length = before ++ picked := by
    rw [whole, ← List.append_assoc, List.take_left]
  have back : (documentText ed).drop (before ++ picked).length = after := by
    rw [whole, ← List.append_assoc, List.drop_left]
  refine ⟨ed', copied, removed, ran, ?_⟩
  simp only [earlierEnd, laterEnd, if_pos first, lo, hi]
  refine ⟨?_, by rw [row, column], ?_⟩
  · rw [back, whole, List.take_left, text]
  · rw [front, List.drop_left, clip]

/-- The clipboard after the rows between the two ends are copied. -/
theorem edCopySelection_clip (active : ed.selActive = true) (ends : selectionEnds ed = ((sy, sx), (ey, ex)))
    (ran : clipRows ed.lines ed.lineLen sy sx ey ex (ed.clipboard, 0) = some clip) (held : Clip clip text)
    (short : text.length ≤ 15599) :
    ∃ copied, edCopySelection ed = some copied ∧ clipboardText copied = text ∧
      copied.clipboardLen = text.length ∧ copied.clipboard copied.clipboardLen = 0 ∧
      copied = { ed with clipboard := copied.clipboard, clipboardLen := copied.clipboardLen } := by
  obtain ⟨clipboard, p⟩ := clip
  obtain ⟨spells, count⟩ := held
  simp only at spells count
  have inside : 0 ≤ p ∧ p < 200 * 78 := by omega
  have on : ¬ed.selActive = false := by simp [active]
  refine ⟨{ ed with clipboard := Function.update clipboard p 0, clipboardLen := p }, ?_, ?_, count,
    Function.update_self .., rfl⟩
  · simp only [edCopySelection, if_neg on, ends, ran, writeCell_eq clipboard inside 0, bind, Option.bind]
  · have kept : Spells (Function.update clipboard p 0) 0 text :=
      spells.congr fun i _ high => Function.update_of_ne (by omega) ..
    simp only [clipboardText, count, Int.toNat_natCast]
    rw [← count]
    exact kept.map_range

/-- The clipboard after a copy from the cursor to the selection's start. -/
theorem edCopySelection_forward (active : ed.selActive = true) (first : CursorFirst ed) {text : List UInt8}
    (ran : ∃ clip, clipRows ed.lines ed.lineLen ed.cursorY ed.cursorX ed.selStartY ed.selStartX (ed.clipboard, 0) =
      some clip ∧ Clip clip text) (short : text.length ≤ 15599) :
    ∃ copied, edCopySelection ed = some copied ∧ clipboardText copied = text := by
  obtain ⟨clip, ran, held⟩ := ran
  have ends : selectionEnds ed = ((ed.cursorY, ed.cursorX), (ed.selStartY, ed.selStartX)) := by
    by_cases ahead : ed.selStartY > ed.cursorY ∨ (ed.selStartY = ed.cursorY ∧ ed.selStartX > ed.cursorX)
    · exact if_pos ahead
    · -- both ends are one place
      have place : ed.cursorY = ed.selStartY ∧ ed.cursorX = ed.selStartX := by
        unfold CursorFirst at first
        omega
      rw [selectionEnds, if_neg ahead, place.1, place.2]
  obtain ⟨copied, done, clipped, _⟩ := edCopySelection_clip active ends ran held short
  exact ⟨copied, done, clipped⟩

theorem deleteSelected_inLine (state : Editing ed) (active : ed.selActive = true)
    (shows : Shows ed above left (picked ++ right) below) (row : ed.cursorY = ed.selStartY)
    (stop : ed.selStartX = ed.cursorX + picked.length) :
    ∃ ed', edDeleteSelection ed = some ed' ∧ Shows ed' above left right below := by
  obtain ⟨undo, saved, _⟩ := edSaveUndo_spec state
  have on : ¬ed.selActive = false := by simp [active]
  have kept : Shows { ed with undo, redo := ed.redo.clear } above left (picked ++ right) below :=
    shows.congr rfl rfl rfl rfl rfl
  obtain ⟨lines, lineLen, lineDirty, cut, shown⟩ := deleteInLine_spec kept stop
  refine ⟨{ ed with
    lines, lineLen, lineDirty, undo, redo := ed.redo.clear, selActive := false, dirty := 1, statusDirty := 1 },
    ?_, shown.congr rfl rfl rfl rfl rfl⟩
  simp only [edDeleteSelection, if_neg on, saved, if_pos row, cut, bind, Option.bind]

theorem deleteSelected_across (state : Editing ed) (active : ed.selActive = true)
    (shows : Shows ed above left right (between ++ (front ++ rest) :: below))
    (row : ed.selStartY = ed.cursorY + 1 + between.length) (stop : ed.selStartX = front.length) :
    ∃ ed', edDeleteSelection ed = some ed' ∧
      Shows ed' above left (if left.length + rest.length < 77 then rest else []) below := by
  obtain ⟨undo, saved, _⟩ := edSaveUndo_spec state
  have on : ¬ed.selActive = false := by simp [active]
  have apart : ¬ed.cursorY = ed.selStartY := by omega
  have kept : Shows { ed with undo, redo := ed.redo.clear } above left right (between ++ (front ++ rest) :: below) :=
    shows.congr rfl rfl rfl rfl rfl
  obtain ⟨lines, lineLen, lineCount, lineDirty, cut, shown⟩ := deleteAcross_spec kept row stop
  refine ⟨{ ed with
    lines, lineLen, lineCount, lineDirty, undo, redo := ed.redo.clear, selActive := false, dirty := 1
    statusDirty := 1 }, ?_, shown.congr rfl rfl rfl rfl rfl⟩
  simp only [edDeleteSelection, if_neg on, saved, if_neg apart, cut, bind, Option.bind]

/-- Deleting leaves the cursor where it is, also when that is the later end. -/
theorem edDeleteSelection_cursor (state : Editing ed) (active : ed.selActive = true)
    (ran : edDeleteSelection ed = some ed') : ed'.cursorY = ed.cursorY ∧ ed'.cursorX = ed.cursorX := by
  obtain ⟨undo, saved, _⟩ := edSaveUndo_spec state
  have on : ¬ed.selActive = false := by simp [active]
  simp only [edDeleteSelection, if_neg on, saved, bind, Option.bind_some] at ran
  split at ran
  · simp only [deleteInLine, Option.bind_eq_some_iff, bind] at ran
    obtain ⟨_, ⟨⟨_, _⟩, _, _, _, ⟨⟩⟩, ⟨⟩⟩ := ran
    exact ⟨rfl, rfl⟩
  · simp only [deleteAcross, Option.bind_eq_some_iff, bind] at ran
    obtain ⟨_, ⟨_, _, _, _, ⟨_, _⟩, _, _, _, ⟨⟩⟩, ⟨⟩⟩ := ran
    exact ⟨rfl, rfl⟩

theorem Rows.flatMap_length {rows : List (List UInt8)} (held : Rows lines lineLen y rows) :
    (rows.flatMap (· ++ [10])).length ≤ 78 * rows.length := by
  induction rows generalizing y with
  | nil => exact Nat.le_refl 0
  | cons line rest ih =>
    have tail := ih held.2
    have fits := held.1.fits
    simp only [List.flatMap_cons, List.length_append, List.length_cons, List.length_nil]
    omega

theorem exists_cut {list : List α} {i : Nat} (inside : i < list.length) :
    ∃ front x rest, list = front ++ x :: rest ∧ front.length = i :=
  ⟨list.take i, list[i], list.drop (i + 1), by rw [List.getElem_cons_drop, List.take_append_drop],
    by rw [List.length_take]; omega⟩

theorem deletesSelected_inLine (state : Editing ed) (active : ed.selActive = true)
    (shows : Shows ed above left (picked ++ right) below) (row : ed.cursorY = ed.selStartY)
    (stop : ed.selStartX = ed.cursorX + picked.length) : DeletesSelected ed := by
  obtain ⟨ed', ran, shown⟩ := deleteSelected_inLine state active shows row stop
  have place := shows.row
  have column := shows.column
  have fits := shows.lineFits
  rw [List.length_append] at fits
  have spells := (Spells.append_iff.mp (Spells.append_iff.mp shows.line.spells).2).1
  rw [show 0 + (left.length : Int) = ed.cursorX by omega] at spells
  have empty : Clip (ed.clipboard, 0) [] := ⟨trivial, rfl⟩
  refine deletesSelected_of_split ed (above.flatMap (· ++ [10]) ++ left) picked
    (right ++ below.flatMap (10 :: ·)) (.inr ⟨row, by omega⟩) ?_ ?_ ?_
    ⟨ed', ran, shown.documentText, shown.row.trans place.symm, shown.column.trans column.symm⟩
    (edCopySelection_forward active (.inr ⟨row, by omega⟩) ?_ (by omega))
  · rw [shows.documentText]
    simp only [LineDoc.flat, TextBuffer.text, List.append_assoc]
  · rw [place, column, textOffset_eq shows.documentLines, List.length_append]
  · rw [← row, place, stop, column, ← Int.natCast_add, textOffset_eq shows.documentLines]
    simp only [List.length_append]
    omega
  · rw [← row]
    exact clipRows_inLine empty spells stop shows.structural.cursorRow (by omega) (by simp only [List.length_nil]; omega)

theorem deletesSelected_across (state : Editing ed) (active : ed.selActive = true)
    (shows : Shows ed above left right (between ++ (front ++ rest) :: below))
    (row : ed.selStartY = ed.cursorY + 1 + between.length) (stop : ed.selStartX = front.length)
    (short : left.length + rest.length < 77) : DeletesSelected ed := by
  obtain ⟨ed', ran, shown⟩ := deleteSelected_across state active shows row stop
  rw [if_pos short] at shown
  have place := shows.row
  have column := shows.column
  have fits := shows.lineFits
  have total := shows.fits
  have cursor := shows.structural.cursorRow
  simp only [List.length_append, List.length_cons] at total
  obtain ⟨middle, last, _⟩ := Rows.append_iff.mp shows.behind
  rw [← row] at last
  have lastFits := last.fits
  rw [List.length_append] at lastFits
  have size := middle.flatMap_length
  have spells := (Spells.append_iff.mp shows.line.spells).2
  rw [show 0 + (left.length : Int) = ed.cursorX by omega] at spells
  have len : ed.lineLen ed.cursorY = ed.cursorX + right.length := by
    rw [shows.cursorLen]
    omega
  have first : CursorFirst ed := .inl (by omega)
  have empty : Clip (ed.clipboard, 0) [] := ⟨trivial, rfl⟩
  refine deletesSelected_of_split ed (above.flatMap (· ++ [10]) ++ left)
    ((right ++ [10]) ++ (between.flatMap (· ++ [10]) ++ front)) (rest ++ below.flatMap (10 :: ·)) first ?_ ?_ ?_
    ⟨ed', ran, shown.documentText, shown.row.trans place.symm, shown.column.trans column.symm⟩
    (edCopySelection_forward active first ?_ ?_)
  · rw [shows.documentText]
    simp only [LineDoc.flat, TextBuffer.text, List.flatMap_append, List.flatMap_cons, List.append_assoc,
      List.cons_append, List.nil_append, LineDoc.newline_flatMap_append]
  · rw [place, column, textOffset_eq shows.documentLines, List.length_append]
  · have whole : documentLines ed = (above ++ (left ++ right) :: between) ++ (front ++ rest) :: below := by
      rw [shows.documentLines, List.append_assoc, List.cons_append]
    have offset := textOffset_eq whole front.length
    rw [show ((above ++ (left ++ right) :: between).length : Int) = ed.selStartY by
      simp only [List.length_append, List.length_cons]
      omega, ← stop] at offset
    rw [offset]
    simp only [List.flatMap_append, List.flatMap_cons, List.length_append, List.length_cons, List.length_nil]
    omega
  · exact clipRows_across empty spells len ⟨cursor.1, by omega⟩ (by omega) middle row
      (Spells.append_iff.mp last.spells).1 stop (by omega) (by simp only [List.length_nil]; omega)
  · simp only [List.length_append, List.length_cons, List.length_nil]
    omega

/-- With both ends on the text and a joined line below 77, deleting takes out exactly the
selected text if and only if the cursor is the end that is read first. -/
theorem deletesSelected_iff (state : Editing ed) (active : ed.selActive = true)
    (onLine : ed.selStartX ≤ ed.lineLen ed.selStartY) (short : joinedLength ed < 77) :
    DeletesSelected ed ↔ CursorFirst ed := by
  refine ⟨fun ⟨ed', _, ran, _, _, place, _⟩ => ?_, fun first => ?_⟩
  · -- the cursor stays, and the start is another place
    refine Decidable.byContradiction fun later => ?_
    obtain ⟨row, column⟩ := edDeleteSelection_cursor state active ran
    rw [earlierEnd, if_neg later, row, column] at place
    obtain ⟨rowSame, columnSame⟩ := Prod.mk.inj place
    exact later (.inr ⟨rowSame, Int.le_of_eq columnSame⟩)
  · obtain ⟨startY, startX⟩ := state.selection active
    obtain ⟨above, left, right, below, shows⟩ := state.toStructural.shows
    have place := shows.row
    have column := shows.column
    have count := shows.count
    have cursorLen := shows.cursorLen
    simp only [joinedLength, earlierEnd, laterEnd, if_pos first] at short
    rcases first with before | ⟨row, behind⟩
    · -- the start is in one of the lines below
      have there : (ed.selStartY - ed.cursorY - 1).toNat < below.length := by omega
      obtain ⟨between, line, rest, rfl, size⟩ := exists_cut there
      have last := (Rows.append_iff.mp shows.behind).2.1
      rw [show ed.cursorY + 1 + (between.length : Int) = ed.selStartY by omega] at last
      have len := last.length
      have cut := List.take_append_drop ed.selStartX.toNat line
      rw [← cut] at shows
      have frontLen : (line.take ed.selStartX.toNat).length = ed.selStartX.toNat := by
        rw [List.length_take]
        omega
      refine deletesSelected_across state active shows (by omega) (by omega) ?_
      rw [List.length_drop]
      omega
    · have cut := List.take_append_drop (ed.selStartX - ed.cursorX).toNat right
      rw [← cut] at shows
      rw [← row] at onLine
      have pickedLen : (right.take (ed.selStartX - ed.cursorX).toNat).length = (ed.selStartX - ed.cursorX).toNat := by
        rw [List.length_take]
        omega
      exact deletesSelected_inLine state active shows row (by omega)

/-- The line `ab` with a selection between two of its columns. -/
def abEditor (selStartX cursorX : Int) : EditorState :=
  { emptyEditor with
    lines := fun _ x => if x = 0 then 97 else 98
    lineLen := fun _ => 2
    selStartX, cursorX
    selActive := true }

theorem abEditor_editing (start : 0 ≤ selStartX ∧ selStartX ≤ 2) (cursor : 0 ≤ cursorX ∧ cursorX ≤ 2) :
    Editing (abEditor selStartX cursorX) where
  count := emptyEditor_editing.count
  row := emptyEditor_editing.row
  column := cursor
  lens := fun _ _ _ => (by decide : (0 : Int) ≤ 2 ∧ (2 : Int) ≤ 77)
  view := emptyEditor_editing.view
  undo := emptyEditor_editing.undo
  redo := emptyEditor_editing.redo
  selection := fun _ => ⟨emptyEditor_editing.row, start.1, Int.le_trans start.2 (by decide : (2 : Int) ≤ 77)⟩

/-- The `a` selected from its end to its start. -/
theorem deletesSelected_iff_backward : DeletesSelected (abEditor 1 0) ↔ CursorFirst (abEditor 1 0) :=
  deletesSelected_iff (abEditor_editing (by decide) (by decide)) rfl (by decide) (by decide)

/-- The `a` selected from its start to its end: deleting makes `aaa` of `ab`. -/
theorem forward_selection_grows : Editing (abEditor 0 1) ∧ (abEditor 0 1).selActive = true ∧
    (abEditor 0 1).selStartX ≤ (abEditor 0 1).lineLen (abEditor 0 1).selStartY ∧ joinedLength (abEditor 0 1) < 77 ∧
    (edDeleteSelection (abEditor 0 1)).map documentText = some [97, 97, 97] ∧ ¬DeletesSelected (abEditor 0 1) := by
  have grown : (edDeleteSelection (abEditor 0 1)).map documentText = some [97, 97, 97] := by decide +kernel
  refine ⟨abEditor_editing (by decide) (by decide), rfl, by decide, by decide, grown, ?_⟩
  rintro ⟨ed', _, ran, _, text, _⟩
  rw [ran, Option.map_some, text] at grown
  exact absurd grown (by decide +kernel)

end LivlyOS.Apps
