import LivlyOS.Apps.EditorEdits

namespace LivlyOS.Apps

open LivlyOS.Lib

/-- Line lengths a row may have. -/
def LenOk (lineLen : Int → Int) (i : Int) : Prop := 0 ≤ lineLen i ∧ lineLen i ≤ 77

section
variable (lines : Lines) (lineLen : Int → Int)

theorem cutChars_safe (y x del : Int) (inside : 0 ≤ y ∧ y < 200) (start : 0 ≤ x ∧ 0 ≤ x + del)
    (rest : 0 ≤ lineLen y - del ∧ lineLen y - del ≤ 77) (len : lineLen y ≤ 77) :
    ∃ lines' lineLen', cutChars y x del (lines, lineLen) = some (lines', lineLen') ∧
      lineLen' y = lineLen y - del ∧ (∀ i, i ≠ y → lineLen' i = lineLen i) := by
  obtain ⟨lines1, copied, _⟩ := copyChars_spec y x y (x + del) (lineLen y - del - x) lines inside inside (by omega)
    (by omega)
  obtain ⟨lineLen', set, here, others⟩ := writeCell_spec lineLen inside (lineLen y - del)
  obtain ⟨lines2, ended, _⟩ := setChar_spec lines1 inside
    (show 0 ≤ lineLen y - del ∧ lineLen y - del < 78 by omega) 0
  refine ⟨lines2, lineLen', ?_, here, others⟩
  simp only [cutChars, readCell_eq lineLen inside, copied, set, ended, bind, Option.bind]

theorem carryChars_safe (dstY dstX srcY srcX count : Int) (dst : 0 ≤ dstY ∧ dstY < 200)
    (src : 0 ≤ srcY ∧ srcY < 200) (dstRoom : 0 ≤ dstX ∧ dstX + count ≤ 77)
    (srcRoom : 0 ≤ srcX ∧ srcX + count ≤ 77) (counted : 0 ≤ count) :
    ∃ lines' lineLen', carryChars dstY dstX srcY srcX count (lines, lineLen) = some (lines', lineLen') ∧
      lineLen' dstY = dstX + count ∧ (∀ i, i ≠ dstY → lineLen' i = lineLen i) := by
  obtain ⟨lines1, copied, _⟩ := copyChars_spec dstY dstX srcY srcX count lines dst src (by omega) (by omega)
  obtain ⟨lines2, ended, _⟩ := setChar_spec lines1 dst (show 0 ≤ dstX + count ∧ dstX + count < 78 by omega) 0
  obtain ⟨lineLen', set, here, others⟩ := writeCell_spec lineLen dst (dstX + count)
  refine ⟨lines2, lineLen', ?_, here, others⟩
  simp only [carryChars, copied, ended, set, bind, Option.bind]

theorem endRow_safe (y x : Int) (inside : 0 ≤ y ∧ y < 200) (room : 0 ≤ x ∧ x ≤ 77) :
    ∃ lines' lineLen', endRow y x (lines, lineLen) = some (lines', lineLen') ∧
      lineLen' y = x ∧ (∀ i, i ≠ y → lineLen' i = lineLen i) := by
  obtain ⟨lines1, ended, _⟩ := setChar_spec lines inside (show 0 ≤ x ∧ x < 78 by omega) 0
  obtain ⟨lineLen', set, here, others⟩ := writeCell_spec lineLen inside x
  refine ⟨lines1, lineLen', ?_, here, others⟩
  simp only [endRow, ended, set, bind, Option.bind]

theorem joinRest_safe (sy sx ey ex tailLen : Int) (dst : 0 ≤ sy ∧ sy < 200) (src : 0 ≤ ey ∧ ey < 200)
    (column : 0 ≤ sx ∧ sx ≤ 77) (room : 0 ≤ ex ∧ ex + tailLen ≤ 77) (counted : 0 ≤ tailLen) :
    ∃ lines' lineLen', joinRest sy sx ey ex tailLen (lines, lineLen) = some (lines', lineLen') ∧
      (sx ≤ lineLen' sy ∧ lineLen' sy ≤ 77) ∧ (∀ i, i ≠ sy → lineLen' i = lineLen i) := by
  unfold joinRest
  split
  · obtain ⟨lines', lineLen', ran, len, others⟩ := carryChars_safe lines lineLen sy sx ey ex tailLen dst src (by omega)
      room counted
    exact ⟨lines', lineLen', ran, by omega, others⟩
  · obtain ⟨lines', lineLen', ran, len, others⟩ := endRow_safe lines lineLen sy sx dst column
    exact ⟨lines', lineLen', ran, by omega, others⟩

/-- Rows may be filled from rows in either direction: all lengths stay in their range. -/
theorem copyRowsUp_safe (lo hi distance rows : Int) (dst : 0 ≤ lo ∧ hi ≤ 200)
    (src : 0 ≤ lo + distance ∧ hi + distance ≤ rows) (total : rows ≤ 200)
    (lens : ∀ i, 0 ≤ i → i < rows → LenOk lineLen i) (ordered : lo ≤ hi) :
    ∃ lines' lineLen', copyRowsUp lo hi distance (lines, lineLen) = some (lines', lineLen') ∧
      (∀ i, 0 ≤ i → i < rows ∨ (lo ≤ i ∧ i < hi) → LenOk lineLen' i) ∧ (∀ i, i < lo → lineLen' i = lineLen i) := by
  obtain ⟨⟨lines', lineLen'⟩, ran, kept, frame⟩ := forUp_invariant lo hi (fun i => copyRow i (i + distance))
    (lines, lineLen) (fun i text => (∀ j, 0 ≤ j → j < rows ∨ (lo ≤ j ∧ j < i) → LenOk text.2 j) ∧
      (∀ j, j < lo → text.2 j = lineLen j))
    (fun i ⟨lines, lineLen'⟩ low high ⟨kept, frame⟩ => by
      have len : 0 ≤ lineLen' (i + distance) ∧ lineLen' (i + distance) ≤ 77 := kept _ (by omega) (.inl (by omega))
      have srcOk : 0 ≤ i + distance ∧ i + distance < 200 := by omega
      have dstOk : 0 ≤ i ∧ i < 200 := by omega
      obtain ⟨lines1, copied, _⟩ := copyChars_spec i 0 (i + distance) 0 (lineLen' (i + distance) + 1) lines dstOk srcOk
        (by omega) (by omega)
      obtain ⟨lineLen1, set, here, others⟩ := writeCell_spec lineLen' dstOk (lineLen' (i + distance))
      refine ⟨(lines1, lineLen1), ?_, fun j low' place => ?_, fun j before => ?_⟩
      · simp only [copyRow, readCell_eq lineLen' srcOk, copied, set, bind, Option.bind]
      · change 0 ≤ lineLen1 j ∧ lineLen1 j ≤ 77
        by_cases same : j = i
        · rw [same, here]
          exact len
        · rw [others j same]
          exact kept j low' (by omega)
      · exact (others j (by omega)).trans (frame j before))
    ordered ⟨fun j low place => lens j low (by omega), fun _ _ => rfl⟩
  exact ⟨lines', lineLen', ran, kept, frame⟩

end

/-- When the endpoints let `ed_delete_selection` keep the structure: the start is on its line,
and the line, or the number of lines, has room for what a start before the cursor adds. -/
def DeleteFits (ed : EditorState) : Prop :=
  ed.selStartX ≤ ed.lineLen ed.selStartY ∧
    (ed.selStartY = ed.cursorY → ed.lineLen ed.cursorY + (ed.cursorX - ed.selStartX) ≤ 77) ∧
    (ed.selStartY < ed.cursorY → ed.lineCount + (ed.cursorY - ed.selStartY) < 200)

instance (ed : EditorState) : Decidable (DeleteFits ed) := inferInstanceAs (Decidable (_ ∧ _ ∧ _))

theorem deleteInLine_safe (state : Structural ed) (start : 0 ≤ ex) (onLine : ex ≤ ed.lineLen ed.cursorY)
    (short : ed.lineLen ed.cursorY + (ed.cursorX - ex) ≤ 77) :
    ∃ lines lineLen lineDirty, deleteInLine ed ed.cursorY ed.cursorX ex = some { ed with lines, lineLen, lineDirty } ∧
      Structural { ed with lines, lineLen, lineDirty } := by
  have row := state.cursorRow
  have len := state.cursorLen
  have column := state.column
  obtain ⟨lines, lineLen, cut, here, others⟩ := cutChars_safe ed.lines ed.lineLen ed.cursorY ed.cursorX
    (ex - ed.cursorX) row ⟨column.1, by omega⟩ (by omega) len.2
  obtain ⟨lineDirty, marked, _⟩ := writeCell_spec ed.lineDirty row 1
  refine ⟨lines, lineLen, lineDirty, ?_, state.count, state.row, ⟨column.1, ?_⟩, fun i low high => ?_⟩
  · simp only [deleteInLine, cut, marked, bind, Option.bind]
  · change ed.cursorX ≤ lineLen ed.cursorY
    omega
  · change 0 ≤ lineLen i ∧ lineLen i ≤ 77
    by_cases same : i = ed.cursorY
    · rw [same]
      omega
    · rw [others i same]
      exact state.lens i low high

theorem deleteAcross_safe (state : Structural ed) (startY : 0 ≤ ey ∧ ey < ed.lineCount) (startX : 0 ≤ ex)
    (onLine : ex ≤ ed.lineLen ey) (apart : ed.cursorY ≠ ey)
    (few : ey < ed.cursorY → ed.lineCount + (ed.cursorY - ey) < 200) :
    ∃ lines lineLen lineCount lineDirty, deleteAcross ed ed.cursorY ed.cursorX ey ex =
        some { ed with lines, lineLen, lineCount, lineDirty } ∧
      Structural { ed with lines, lineLen, lineCount, lineDirty } := by
  have row := state.cursorRow
  have here := state.row
  have count := state.count
  have column := state.column
  have cursorLen := state.cursorLen
  have startLen := state.lens ey startY.1 startY.2
  have src : 0 ≤ ey ∧ ey < 200 := by omega
  obtain ⟨lines1, lineLen1, joined, len, others⟩ := joinRest_safe ed.lines ed.lineLen ed.cursorY ed.cursorX ey ex
    (ed.lineLen ey - ex) row src (by omega) (by omega) (by omega)
  obtain ⟨lines2, lineLen2, moved, lens, frame⟩ := copyRowsUp_safe lines1 lineLen1 (ed.cursorY + 1)
    (ed.lineCount - (ey - ed.cursorY)) (ey - ed.cursorY) ed.lineCount (by omega) (by omega) count.2
    (fun i low high => by
      unfold LenOk
      by_cases same : i = ed.cursorY
      · rw [same]
        omega
      · rw [others i same]
        exact state.lens i low high)
    (by omega)
  obtain ⟨lineDirty, marked⟩ := markLines_spec ed.cursorY (ed.lineCount - (ey - ed.cursorY) + 1) ed.lineDirty
    (by omega) (by omega)
  have kept := frame ed.cursorY (by omega)
  refine ⟨lines2, lineLen2, ed.lineCount - (ey - ed.cursorY), lineDirty, ?_, ?_, ?_, ⟨column.1, ?_⟩,
    fun i low high => lens i low ?_⟩
  · simp only [deleteAcross, readCell_eq ed.lineLen src, joined, moved, marked, bind, Option.bind]
  · simp only
    omega
  · simp only
    omega
  · change ed.cursorX ≤ lineLen2 ed.cursorY
    omega
  · simp only at high
    omega

/-- Deleting a selection that fits keeps the structure. -/
theorem edDeleteSelection_safe (state : Editing ed) (fits : ed.selActive = true → DeleteFits ed) :
    ∃ ed', edDeleteSelection ed = some ed' ∧ Editing ed' ∧ SameClip ed ed' ∧ ed'.selActive = false := by
  cases active : ed.selActive with
  | false => exact ⟨ed, by rw [edDeleteSelection, if_pos active], state, ⟨rfl, rfl⟩, active⟩
  | true =>
    obtain ⟨undo, saved, undoOk⟩ := edSaveUndo_spec state
    obtain ⟨onLine, short, few⟩ := fits active
    obtain ⟨startY, startX⟩ := state.selection active
    have on : ¬ed.selActive = false := by simp [active]
    have kept : Structural { ed with undo, redo := ed.redo.clear } :=
      ⟨state.count, state.row, state.column, state.lens⟩
    by_cases same : ed.cursorY = ed.selStartY
    · rw [← same] at onLine
      obtain ⟨lines, lineLen, lineDirty, cut, structural⟩ := deleteInLine_safe kept startX.1 onLine (short same.symm)
      refine ⟨{ ed with
        lines, lineLen, lineDirty, undo, redo := ed.redo.clear, selActive := false, dirty := 1, statusDirty := 1 },
        ?_, ⟨⟨structural.count, structural.row, structural.column, structural.lens⟩, state.view, undoOk,
          RingOk.clear _ _, nofun⟩, ⟨rfl, rfl⟩, rfl⟩
      simp only [edDeleteSelection, if_neg on, saved, if_pos same, cut, bind, Option.bind]
    · obtain ⟨lines, lineLen, lineCount, lineDirty, cut, structural⟩ :=
        deleteAcross_safe kept startY startX.1 onLine same few
      refine ⟨{ ed with
        lines, lineLen, lineCount, lineDirty, undo, redo := ed.redo.clear, selActive := false, dirty := 1
        statusDirty := 1 },
        ?_, ⟨⟨structural.count, structural.row, structural.column, structural.lens⟩, state.view, undoOk,
          RingOk.clear _ _, nofun⟩, ⟨rfl, rfl⟩, rfl⟩
      simp only [edDeleteSelection, if_neg on, saved, if_neg same, cut, bind, Option.bind]

/-- The end of what was copied leaves room for the terminator. -/
def ClipOk (clip : (Int → UInt8) × Int) : Prop := 0 ≤ clip.2 ∧ clip.2 ≤ 15599

theorem clipChar_safe (c : UInt8) {clip : (Int → UInt8) × Int} (ok : ClipOk clip) :
    ∃ clip', clipChar c clip = some clip' ∧ ClipOk clip' := by
  unfold ClipOk at ok
  by_cases room : clip.2 < 200 * 78 - 1
  · refine ⟨(Function.update clip.1 clip.2 c, clip.2 + 1), ?_, ?_⟩
    · rw [clipChar, if_pos room, writeCell_eq clip.1 (by omega)]
      rfl
    · simp only [ClipOk]
      omega
  · exact ⟨clip, if_neg room, ok⟩

theorem clipRow_safe (lines : Lines) (inside : 0 ≤ y ∧ y < 200) (low : 0 ≤ start) (high : stop ≤ 78)
    {clip : (Int → UInt8) × Int} (ok : ClipOk clip) :
    ∃ clip', clipRow lines y start stop clip = some clip' ∧ ClipOk clip' :=
  forUp_kept start stop (fun x (clip : (Int → UInt8) × Int) =>
    if clip.2 < 200 * 78 - 1 then do
      let c ← charAt 200 lines y x
      clipChar c clip
    else some clip) clip ClipOk
    (fun x clip above below ok => by
      by_cases room : clip.2 < 200 * 78 - 1
      · rw [if_pos room, charAt_eq lines inside (by omega)]
        exact clipChar_safe _ ok
      · exact ⟨clip, if_neg room, ok⟩)
    ok

theorem clipRows_safe (lines : Lines) {lineLen : Int → Int} (rows : 0 ≤ sy ∧ ey < 200)
    (columns : 0 ≤ sx ∧ ex ≤ 77) (lens : ∀ y, sy ≤ y → y < ey → lineLen y ≤ 77) {clip : (Int → UInt8) × Int}
    (ok : ClipOk clip) : ∃ clip', clipRows lines lineLen sy sx ey ex clip = some clip' ∧ ClipOk clip' := by
  refine forUp_kept sy (ey + 1) (clipTurn lines lineLen sy sx ey ex) clip ClipOk (fun y clip above below ok => ?_) ok
  by_cases room : clip.2 < 200 * 78 - 1
  · have inside : 0 ≤ y ∧ y < 200 := by omega
    obtain ⟨stop, found, short⟩ : ∃ stop, clipStop lineLen ey ex y = some stop ∧ stop ≤ 78 := by
      by_cases last : y = ey
      · exact ⟨ex, if_pos last, by omega⟩
      · have len := lens y above (by omega)
        exact ⟨lineLen y, by rw [clipStop, if_neg last, readCell_eq lineLen inside], by omega⟩
    obtain ⟨clip1, ran, ok1⟩ := clipRow_safe lines inside (show 0 ≤ if y = sy then sx else 0 by split <;> omega) short ok
    simp only [clipTurn, if_pos room, clipLine, found, ran, bind, Option.bind]
    split
    · exact clipChar_safe 10 ok1
    · exact ⟨clip1, rfl, ok1⟩
  · exact ⟨clip, if_neg room, ok⟩

/-- The ends of the selection are the two positions, the one that is read first in front. -/
theorem selectionEnds_cases (ed : EditorState) :
    selectionEnds ed = ((ed.cursorY, ed.cursorX), (ed.selStartY, ed.selStartX)) ∨
      selectionEnds ed = ((ed.selStartY, ed.selStartX), (ed.cursorY, ed.cursorX)) := by
  unfold selectionEnds
  split
  · exact .inl rfl
  · exact .inr rfl

theorem edCopySelection_safe (state : Editing ed) :
    ∃ ed', edCopySelection ed = some ed' ∧ Editing ed' := by
  cases active : ed.selActive with
  | false => exact ⟨ed, if_pos active, state⟩
  | true =>
    obtain ⟨startY, startX⟩ := state.selection active
    have row := state.cursorRow
    have count := state.count
    have column := state.column
    have len := state.cursorLen
    have short : ∀ y, 0 ≤ y → y < ed.lineCount → ed.lineLen y ≤ 77 := fun y low high => (state.lens y low high).2
    have on : ¬ed.selActive = false := by simp [active]
    have empty : ClipOk (ed.clipboard, 0) := by simp [ClipOk]
    have finish : ∀ sy sx ey ex, selectionEnds ed = ((sy, sx), (ey, ex)) →
        (∃ clip, clipRows ed.lines ed.lineLen sy sx ey ex (ed.clipboard, 0) = some clip ∧ ClipOk clip) →
          ∃ ed', edCopySelection ed = some ed' ∧ Editing ed' := by
      rintro sy sx ey ex ends ⟨⟨clipboard, p⟩, ran, ok⟩
      refine ⟨{ ed with clipboard := Function.update clipboard p 0, clipboardLen := p }, ?_,
        ⟨⟨state.count, state.row, state.column, state.lens⟩, state.view, state.undo, state.redo, state.selection⟩⟩
      have inside : 0 ≤ p ∧ p < 200 * 78 := ⟨ok.1, Int.lt_of_le_of_lt ok.2 (by decide)⟩
      simp only [edCopySelection, if_neg on, ends, ran, writeCell_eq clipboard inside 0, bind, Option.bind]
    rcases selectionEnds_cases ed with ends | ends
    · exact finish _ _ _ _ ends (clipRows_safe ed.lines (by omega) (by omega)
        (fun y above below => short y (by omega) (by omega)) empty)
    · exact finish _ _ _ _ ends (clipRows_safe ed.lines (by omega) (by omega)
        (fun y above below => short y (by omega) (Int.lt_trans below state.row.2)) empty)

end LivlyOS.Apps
