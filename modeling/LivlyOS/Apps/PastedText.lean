import LivlyOS.Apps.EditorFile
import LivlyOS.Apps.SelectedText
import LivlyOS.Lib.Typing

/-! Pasting is typing the clipboard: each character has to fit the document as it is then, and
the line in front of a newline still has the rest of the cursor's line behind it. -/

namespace LivlyOS.Apps

open LivlyOS.Lib

/-- The document with the clipboard inserted at the cursor. -/
def pastedText (ed : EditorState) : List UInt8 :=
  (textBuffer ed).before ++ clipboardText ed ++ (textBuffer ed).after

/-- Pasting inserts the clipboard, and the cursor stands behind it. -/
def PasteExact (ed : EditorState) : Prop :=
  ∃ ed', edPaste ed = some ed' ∧
    textBuffer ed' = ⟨(textBuffer ed).before ++ clipboardText ed, (textBuffer ed).after⟩

/-- The lines of the clipboard that are not empty fit in front of the rest of the cursor's line. -/
def ClipboardFits (ed : EditorState) : Prop :=
  LineDoc.LinesFit 77 (ed.lineLen ed.cursorY - ed.cursorX).toNat ed.cursorX.toNat ((clipboardText ed).splitOn 10)

instance (ed : EditorState) : Decidable (ClipboardFits ed) := LineDoc.LinesFit.decidable ..

theorem pasteChar_spec (state : Editing ed) {doc : LineDoc UInt8} (shown : Shown ed doc) (c : UInt8) :
    ∃ ed', (if c = 10 then edInsertNewline ed else edInsertChar ed c) = some ed' ∧ Editing ed' ∧ SameClip ed ed' ∧
      Shown ed' (doc.typeWithin 10 77 200 c) := by
  unfold LineDoc.typeWithin
  by_cases newline : c = 10
  · rw [if_pos newline, if_pos newline]
    obtain ⟨ed', ran, state', clip, _, shown'⟩ := edInsertNewline_spec state shown
    refine ⟨ed', ran, state', clip, ?_⟩
    split
    · rename_i few
      rw [if_pos few] at shown'
      exact shown'
    · rename_i full
      rw [if_neg full] at shown'
      exact shown'
  · rw [if_neg newline, if_neg newline]
    obtain ⟨ed', ran, state', clip, _, shown'⟩ := edInsertChar_spec state shown c
    refine ⟨ed', ran, state', clip, ?_⟩
    split
    · rename_i short
      rw [if_pos short] at shown'
      exact shown'
    · rename_i full
      rw [if_neg full] at shown'
      exact shown'

/-- The characters of the clipboard from one place on. -/
theorem pasteChars_spec (chars : List UInt8) (state : Editing ed) {doc : LineDoc UInt8} (shown : Shown ed doc)
    (spells : Spells ed.clipboard start chars) (inside : 0 ≤ start ∧ start + chars.length ≤ 200 * 78) :
    ∃ ed', forUp start (start + chars.length) (fun i ed => do
        let c ← readCell (200 * 78) ed.clipboard i
        if c = 10 then edInsertNewline ed else edInsertChar ed c) ed = some ed' ∧
      Shown ed' (chars.foldl (LineDoc.typeWithin 10 77 200) doc) := by
  induction chars generalizing ed doc start with
  | nil => exact ⟨ed, forUp_done (by simp) ed, shown⟩
  | cons c rest ih =>
    rw [List.length_cons] at inside ⊢
    obtain ⟨ed1, ran, state1, clip, shown1⟩ := pasteChar_spec state shown c
    have tail : Spells ed1.clipboard (start + 1) rest := by
      rw [clip.1]
      exact spells.2
    obtain ⟨ed', pasted, shown'⟩ := ih state1 shown1 tail (by omega)
    refine ⟨ed', ?_, shown'⟩
    rw [forUp_next (by omega), readCell_eq ed.clipboard (by omega), spells.1]
    simp only [bind, Option.bind_some]
    rw [ran, show start + ((rest.length + 1 : Nat) : Int) = start + 1 + rest.length by omega]
    exact pasted

theorem edPaste_spec (state : Editing ed) {doc : LineDoc UInt8} (shown : Shown ed doc)
    (short : (clipboardText ed).length ≤ 200 * 78) :
    ∃ ed', edPaste ed = some ed' ∧ Shown ed' ((clipboardText ed).foldl (LineDoc.typeWithin 10 77 200) doc) := by
  have length : (clipboardText ed).length = ed.clipboardLen.toNat := by
    rw [clipboardText, List.length_map, List.length_range]
  have spells : Spells ed.clipboard 0 (clipboardText ed) := by
    rw [clipboardText, List.range_eq_range']
    exact Spells.ofRange ed.clipboard 0 ed.clipboardLen.toNat
  obtain ⟨ed', ran, shown'⟩ := pasteChars_spec (clipboardText ed) state shown spells (by omega)
  refine ⟨ed', ?_, shown'⟩
  rw [Int.zero_add, length] at ran
  unfold edPaste
  by_cases positive : 0 < ed.clipboardLen
  · rw [if_neg (Int.ne_of_gt positive)]
    rw [Int.toNat_of_nonneg (Int.le_of_lt positive)] at ran
    exact ran
  · rw [forUp_done (by omega)] at ran
    split
    · exact ran
    · rw [forUp_done (by omega)]
      exact ran

/-- A paste whose outcome has at most 200 lines of at most 77 characters is exact if and only if every
line of the clipboard that is not empty fits in front of the rest of the cursor's line. -/
theorem pasteExact_iff (state : Editing ed) (plain : ∀ line ∈ documentLines ed, 10 ∉ line)
    (fits : FileFits (pastedText ed)) : PasteExact ed ↔ ClipboardFits ed := by
  obtain ⟨above, left, right, below, shows⟩ := state.toStructural.shows
  let doc : LineDoc UInt8 := ⟨above, left, right, below⟩
  have shown : Shown ed doc := shows
  have lines : doc.Plain 10 := fun line member => plain line (shows.documentLines ▸ member)
  have flat : textBuffer ed = doc.flat 10 := Shown.textBuffer shown
  have typed : ((clipboardText ed).foldl (LineDoc.type 10) doc).flat 10 =
      ⟨(textBuffer ed).before ++ clipboardText ed, (textBuffer ed).after⟩ := by
    rw [flat]
    exact LineDoc.flat_foldl_type (clipboardText ed) doc
  have outcome : (pastedText ed).splitOn 10 = ((clipboardText ed).foldl (LineDoc.type 10) doc).lines := by
    have text : pastedText ed = (((clipboardText ed).foldl (LineDoc.type 10) doc).flat 10).text := by
      rw [typed]
      rfl
    rw [text, LineDoc.flat_text]
    exact List.splitOn_intercalate 10 (LineDoc.plain_foldl_type (clipboardText ed) lines) (by simp [LineDoc.lines])
  have few : above.length + 1 + below.length + (clipboardText ed).count 10 ≤ 200 := by
    have total := fits.1
    rw [outcome, LineDoc.foldl_type_lines] at total
    simp only [doc, LineDoc.lines, List.length_append, List.length_cons] at total
    omega
  have short : (clipboardText ed).length ≤ 200 * 78 := by
    have whole := fits.length
    simp only [pastedText, List.length_append] at whole
    omega
  have column : ed.cursorX.toNat = left.length := by
    rw [shows.column, Int.toNat_natCast]
  have behind : (ed.lineLen ed.cursorY - ed.cursorX).toNat = right.length := by
    rw [shows.cursorLen, shows.column]
    omega
  obtain ⟨ed', ran, shown'⟩ := edPaste_spec state shown short
  have result := shown'.textBuffer
  unfold ClipboardFits
  rw [column, behind]
  constructor
  · rintro ⟨other, again, exact_⟩
    obtain rfl := Option.some.inj (ran.symm.trans again)
    by_contra long
    have lost := @LineDoc.foldl_typeWithin_lt _ _ 10 77 200 (clipboardText ed) doc long
    rw [← result, exact_, ← flat, List.length_append] at lost
    exact absurd lost (Nat.lt_irrefl _)
  · intro fit
    refine ⟨ed', ran, ?_⟩
    rw [result, LineDoc.foldl_typeWithin_eq (clipboardText ed) doc fit few, typed]

/-- A line of 77 characters with the cursor at its start. -/
def longLineEditor (clipboard : List UInt8) : EditorState :=
  { emptyEditor with
    lines := fun _ _ => 97
    lineLen := fun _ => 77
    clipboard := fun i => clipboard.getD i.toNat 0
    clipboardLen := clipboard.length }

theorem longLineEditor_editing (clipboard : List UInt8) : Editing (longLineEditor clipboard) where
  count := emptyEditor_editing.count
  row := emptyEditor_editing.row
  column := (by decide : (0 : Int) ≤ 0 ∧ (0 : Int) ≤ 77)
  lens := fun _ _ _ => (by decide : (0 : Int) ≤ 77 ∧ (77 : Int) ≤ 77)
  view := emptyEditor_editing.view
  undo := emptyEditor_editing.undo
  redo := emptyEditor_editing.redo
  selection := nofun

/-- An empty line in front of the long one. -/
theorem pasteExact_iff_newline : PasteExact (longLineEditor [10]) ↔ ClipboardFits (longLineEditor [10]) :=
  pasteExact_iff (longLineEditor_editing [10]) (by decide +kernel) (by decide +kernel)

/-- An `X` and a newline in front of a line of 77 characters: the `X` is lost, though the two
lines have room for it. -/
theorem paste_losesChar : Editing (longLineEditor [88, 10]) ∧
    (∀ line ∈ documentLines (longLineEditor [88, 10]), 10 ∉ line) ∧ FileFits (pastedText (longLineEditor [88, 10])) ∧
    pastedText (longLineEditor [88, 10]) = 88 :: 10 :: List.replicate 77 97 ∧
    (edPaste (longLineEditor [88, 10])).map documentText = some (10 :: List.replicate 77 97) ∧
    ¬PasteExact (longLineEditor [88, 10]) := by
  have pasted : (edPaste (longLineEditor [88, 10])).map documentText = some (10 :: List.replicate 77 97) := by
    decide +kernel
  have text : pastedText (longLineEditor [88, 10]) = 88 :: 10 :: List.replicate 77 97 := by decide +kernel
  refine ⟨longLineEditor_editing _, by decide +kernel, by decide +kernel, text, pasted, ?_⟩
  rintro ⟨ed', ran, exact_⟩
  have whole : documentText ed' = pastedText (longLineEditor [88, 10]) := by
    rw [← textBuffer_text, exact_]
    rfl
  rw [ran, Option.map_some, whole, text] at pasted
  exact absurd pasted (by decide +kernel)

end LivlyOS.Apps
