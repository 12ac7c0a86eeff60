import LivlyOS.Apps.EditorScreen
import Mathlib.Algebra.GroupWithZero.Nat

namespace LivlyOS.Apps

open LivlyOS.Lib

/-- The lines of the document. -/
def documentLines (ed : EditorState) : List (List UInt8) :=
  (List.range ed.lineCount.toNat).map fun y : Nat =>
    (List.range (ed.lineLen y).toNat).map fun x : Nat => ed.lines y x

/-- The lines joined by newlines. -/
def documentText (ed : EditorState) : List UInt8 := List.intercalate [10] (documentLines ed)

/-- Where a place stands in the text. -/
def textOffset (ed : EditorState) (y x : Int) : Nat :=
  (((documentLines ed).take y.toNat).map fun line => line.length + 1).sum + x.toNat

/-- The text around the cursor. -/
def textBuffer (ed : EditorState) : TextBuffer UInt8 :=
  ⟨(documentText ed).take (textOffset ed ed.cursorY ed.cursorX),
    (documentText ed).drop (textOffset ed ed.cursorY ed.cursorX)⟩

theorem Shows.documentLines (shows : Shows ed above left right below) :
    documentLines ed = above ++ (left ++ right) :: below := by
  have count := shows.count
  refine List.ext_getElem ?_ fun y _ there => ?_
  · simp only [Apps.documentLines, List.length_map, List.length_range, List.length_append, List.length_cons]
    omega
  · have row := shows.rows.row there
    rw [Int.zero_add] at row
    simp only [Apps.documentLines, List.getElem_map, List.getElem_range, row.length, Int.toNat_natCast]
    exact row.spells.map_range

theorem Shows.documentText (shows : Shows ed above left right below) :
    documentText ed = (LineDoc.flat 10 ⟨above, left, right, below⟩).text := by
  rw [Apps.documentText, shows.documentLines, LineDoc.flat_text]
  rfl

theorem textOffset_eq (whole : documentLines ed = above ++ rest) (column : Nat) :
    textOffset ed above.length column = (above.flatMap (· ++ [10])).length + column := by
  rw [textOffset, whole, Int.toNat_natCast, Int.toNat_natCast, List.take_left, List.length_flatMap]
  simp

theorem Shown.textBuffer {doc : LineDoc UInt8} (shown : Shown ed doc) : textBuffer ed = doc.flat 10 := by
  obtain ⟨above, left, right, below⟩ := doc
  have place : textOffset ed ed.cursorY ed.cursorX = (LineDoc.flat 10 ⟨above, left, right, below⟩).before.length := by
    rw [shown.row, shown.column, textOffset_eq shown.documentLines]
    simp [LineDoc.flat]
  rw [Apps.textBuffer, place, shown.documentText, TextBuffer.text, List.take_left, List.drop_left]

theorem textBuffer_text (ed : EditorState) : (textBuffer ed).text = documentText ed := List.take_append_drop ..

theorem putLine_spec {line : List UInt8} (out : List UInt8) (limit : Nat) (spells : Spells (lines y) x line) (row : 0 ≤ y ∧ y < 200)
    (column : 0 ≤ x ∧ x + line.length ≤ 78) (room : out.length + line.length ≤ limit) :
    forUp x (x + line.length) (fun x out =>
      if out.length < limit then do
        let c ← charAt 200 lines y x
        some (putByte limit c out)
      else some out) out = some (out ++ line) := by
  induction line generalizing x out with
  | nil => rw [forUp_done (by simp), List.append_nil]
  | cons c rest ih =>
    have length : ((c :: rest).length : Int) = rest.length + 1 := by
      simp only [List.length_cons]
      omega
    rw [List.length_cons] at room
    rw [forUp_next (by omega), if_pos (by omega), charAt_eq lines row (by omega), spells.1]
    have more : out.length < limit := by omega
    have tail := ih (out ++ [c]) spells.2 (by omega) (by simp; omega)
    rw [List.append_assoc, List.singleton_append, show x + 1 + (rest.length : Int) = x + (c :: rest).length by omega] at tail
    simp only [bind, Option.bind, putByte, if_pos more] at tail ⊢
    exact tail

theorem putRows_spec (ed : EditorState) (out : List UInt8) (limit : Nat) {rows : List (List UInt8)} (held : Rows ed.lines ed.lineLen y rows)
    (low : 0 ≤ y) (high : y + rows.length ≤ 200) (room : out.length + 78 * rows.length ≤ limit) :
    forUp y (y + rows.length) (fun y out =>
      if out.length < limit then do
        let len ← readCell 200 ed.lineLen y
        let out ← putLine ed.lines limit y len out
        some (putByte limit 10 out)
      else some out) out = some (out ++ rows.flatMap (· ++ [10])) := by
  induction rows generalizing y out with
  | nil => rw [forUp_done (by simp), List.flatMap_nil, List.append_nil]
  | cons line rest ih =>
    have length : ((line :: rest).length : Int) = rest.length + 1 := by
      simp only [List.length_cons]
      omega
    have fits := held.1.fits
    rw [List.length_cons] at room
    have inside : 0 ≤ y ∧ y < 200 := by omega
    have put : putLine ed.lines limit y line.length out = some (out ++ line) := by
      have ran := putLine_spec out limit held.1.spells inside (by omega) (by omega)
      rw [Int.zero_add] at ran
      exact ran
    have more : (out ++ line).length < limit := by
      rw [List.length_append]
      omega
    have tail := ih (out ++ line ++ [10]) held.2 (by omega) (by omega) (by simp; omega)
    rw [show y + 1 + (rest.length : Int) = y + (line :: rest).length by omega] at tail
    rw [forUp_next (by omega), if_pos (by omega), readCell_eq ed.lineLen inside, held.1.length]
    simp only [bind, Option.bind, put, putByte, if_pos more] at tail ⊢
    rw [tail]
    simp

/-- Ctrl+S hands over the whole text and one newline. -/
theorem edLinesToBuf_spec (shows : Shows ed above left right below) :
    edLinesToBuf ed (ed.lineCount * 78 + 16).toNat = some (documentText ed ++ [10]) := by
  have count := shows.count
  have length : ((above ++ (left ++ right) :: below).length : Int) = ed.lineCount := by
    simp only [List.length_append, List.length_cons]
    omega
  have fits := shows.fits
  have ran := putRows_spec ed [] (ed.lineCount * 78 + 16).toNat shows.rows (Int.le_refl 0) (by omega)
    (by simp only [List.length_nil]; omega)
  rw [Int.zero_add, length, List.nil_append] at ran
  rw [edLinesToBuf, ran, shows.documentText, ← LineDoc.lines_flatMap]
  rfl

theorem edSave_spec (shows : Shows ed above left right below) : edSave ed true =
    some { ed with written := (documentText ed ++ [10]) :: ed.written, dirty := 0, statusDirty := 1 } := by
  simp only [edSave, if_true, edLinesToBuf_spec shows, bind, Option.bind]

/-- The keys that edit and move without a selection. -/
def TextKey (key : UInt8) : Prop :=
  key = 10 ∨ key = 8 ∨ key = 0x80 ∨ key = 0x81 ∨ key = 0x82 ∨ key = 0x83 ∨ 0x20 ≤ key ∧ key < 0x80

instance (key : UInt8) : Decidable (TextKey key) := inferInstanceAs (Decidable (_ ∨ _))

/-- What a key does to a flat text: at most 200 lines of at most 77 characters, and two lines
are joined only below 77. -/
def textKey (key : UInt8) (buffer : TextBuffer UInt8) : TextBuffer UInt8 :=
  if key = 10 then if buffer.lineCount 10 < 200 then buffer.insert 10 else buffer
  else if key = 8 then buffer.eraseWithin 10 (· < 77)
  else if key = 0x80 then buffer.moveUp 10
  else if key = 0x81 then buffer.moveDown 10
  else if key = 0x82 then buffer.moveLeft
  else if key = 0x83 then buffer.moveRight
  else if buffer.lineLength 10 < 77 then buffer.insert key
  else buffer

/-- The same key on the lines. -/
def docKey (key : UInt8) (doc : LineDoc UInt8) : LineDoc UInt8 :=
  if key = 10 then if doc.above.length + 1 + doc.below.length < 200 then doc.split else doc
  else if key = 8 then doc.erase (· < 77)
  else if key = 0x80 then doc.moveUp
  else if key = 0x81 then doc.moveDown
  else if key = 0x82 then doc.moveLeft
  else if key = 0x83 then doc.moveRight
  else if doc.left.length + doc.right.length < 77 then doc.insert key
  else doc

theorem docKey_flat {doc : LineDoc UInt8} (plain : doc.Plain 10) (key : UInt8) :
    (docKey key doc).flat 10 = textKey key (doc.flat 10) := by
  simp only [docKey, textKey, LineDoc.flat_lineCount plain, LineDoc.flat_lineLength plain]
  split
  · split
    · exact LineDoc.flat_split 10 doc
    · rfl
  split
  · exact LineDoc.flat_erase plain _
  split
  · exact LineDoc.flat_moveUp plain
  split
  · exact LineDoc.flat_moveDown plain
  split
  · exact LineDoc.flat_moveLeft 10 doc
  split
  · exact LineDoc.flat_moveRight 10 doc
  split
  · exact LineDoc.flat_insert 10 doc key
  · rfl

theorem docKey_plain {doc : LineDoc UInt8} (plain : doc.Plain 10) (key : UInt8) : (docKey key doc).Plain 10 := by
  unfold docKey
  split
  · split
    · exact LineDoc.plain_split plain
    · exact plain
  split
  · exact LineDoc.plain_erase plain _
  split
  · exact LineDoc.plain_of_lines plain (LineDoc.moveUp_lines doc)
  split
  · exact LineDoc.plain_of_lines plain (LineDoc.moveDown_lines doc)
  split
  · exact LineDoc.plain_of_lines plain (LineDoc.moveLeft_lines doc)
  split
  · exact LineDoc.plain_of_lines plain (LineDoc.moveRight_lines doc)
  split
  · rename_i other _ _ _ _ _ _
    exact LineDoc.plain_insert plain (Ne.symm other)
  · exact plain

theorem edDeleteSelection_inactive {ed : EditorState} (inactive : ed.selActive = false) :
    edDeleteSelection ed = some ed := if_pos inactive

theorem edClearSelection_inactive {ed : EditorState} (inactive : ed.selActive = false) :
    edClearSelection ed = some ed := if_pos inactive

theorem printable_ne {key other : UInt8} (low : 0x20 ≤ key) (high : key < 0x80) (out : other < 0x20 ∨ 0x80 ≤ other) :
    ¬key = other := by
  rintro rfl
  rcases out with below | above
  · exact absurd (UInt8.lt_of_lt_of_le below low) (UInt8.lt_irrefl _)
  · exact absurd (UInt8.lt_of_lt_of_le high above) (UInt8.lt_irrefl _)

theorem edKey_printable {press : KeyPress} (low : 0x20 ≤ press.key) (high : press.key < 0x80) (ed : EditorState) :
    edKey press ed = deleteThen (edInsertChar · press.key) ed := by
  have other : ∀ key : UInt8, key < 0x20 ∨ 0x80 ≤ key → ¬press.key = key := fun _ => printable_ne low high
  simp only [edKey, other 0x89 (by decide), other 0x8A (by decide), other 0x8B (by decide), other 0x8C (by decide),
    other 0x80 (by decide), other 0x81 (by decide), other 0x82 (by decide), other 0x83 (by decide),
    other 0x88 (by decide), other 0x84 (by decide), other 0x85 (by decide), other 0x86 (by decide),
    other 0x87 (by decide), other 10 (by decide), other 8 (by decide), low, high, and_self, if_true, if_false]

theorem docKey_printable {key : UInt8} (low : 0x20 ≤ key) (high : key < 0x80) (doc : LineDoc UInt8) :
    docKey key doc = if doc.left.length + doc.right.length < 77 then doc.insert key else doc := by
  have other : ∀ other : UInt8, other < 0x20 ∨ 0x80 ≤ other → ¬key = other := fun _ => printable_ne low high
  simp only [docKey, other 10 (by decide), other 8 (by decide), other 0x80 (by decide), other 0x81 (by decide),
    other 0x82 (by decide), other 0x83 (by decide), if_false]

/-- An arrow alone moves the cursor as in the document. -/
theorem plainArrow_spec (state : Editing ed) (inactive : ed.selActive = false) {doc : LineDoc UInt8} (shown : Shown ed doc)
    (moves : MovesAs move onDoc) :
    ∃ ed', plainArrow move ed = some ed' ∧ Editing ed' ∧ ed'.selActive = false ∧ Shown ed' (onDoc doc) := by
  obtain ⟨x, y, flag, moved, shown'⟩ := moves ed doc shown
  refine ⟨_, ?_, ⟨shown'.structural, state.view, state.undo, state.redo, state.selection⟩, inactive, shown'⟩
  simp only [plainArrow, edClearSelection_inactive inactive, moved, bind, Option.bind]

theorem edKey_text (state : Editing ed) (inactive : ed.selActive = false) {doc : LineDoc UInt8} (shown : Shown ed doc)
    (press : KeyPress) (typed : TextKey press.key) :
    ∃ ed', edKey press ed = some ed' ∧ Editing ed' ∧ ed'.selActive = false ∧ Shown ed' (docKey press.key doc) := by
  obtain ⟨key, room⟩ := press
  simp only at typed
  rcases typed with rfl | rfl | rfl | rfl | rfl | rfl | ⟨low, high⟩
  · obtain ⟨ed', ran, state', _, sel, shown'⟩ := edInsertNewline_spec state shown
    refine ⟨ed', ?_, state', sel.trans inactive, ?_⟩
    · simp only [edKey, deleteThen, edDeleteSelection_inactive inactive, ran, bind, Option.bind]
      rfl
    · change Shown ed' (if doc.above.length + 1 + doc.below.length < 200 then doc.split else doc)
      by_cases few : doc.above.length + 1 + doc.below.length < 200
      · rw [if_pos few] at shown' ⊢
        exact shown'
      · rw [if_neg few] at shown' ⊢
        exact shown'
  · obtain ⟨ed', ran, state', _, sel, shown'⟩ := edBackspace_spec state inactive shown
    refine ⟨ed', ?_, state', sel, shown'⟩
    simp only [edKey, inactive, ran]
    rfl
  · exact plainArrow_spec state inactive shown moveUp_spec
  · exact plainArrow_spec state inactive shown moveDown_spec
  · exact plainArrow_spec state inactive shown moveLeft_spec
  · exact plainArrow_spec state inactive shown moveRight_spec
  · obtain ⟨ed', ran, state', _, sel, shown'⟩ := edInsertChar_spec state shown key
    refine ⟨ed', ?_, state', sel, ?_⟩
    · rw [edKey_printable low high]
      simp only [deleteThen, edDeleteSelection_inactive inactive, ran, bind, Option.bind]
    · rw [docKey_printable low high]
      by_cases short : doc.left.length + doc.right.length < 77
      · rw [if_pos short] at shown' ⊢
        exact shown'
      · rw [if_neg short] at shown' ⊢
        exact shown'

/-- One turn of the main loop without a selection. -/
theorem edTurn_text (display : Display) (state : Editing ed) (inactive : ed.selActive = false) {doc : LineDoc UInt8}
    (shown : Shown ed doc) (press : KeyPress) (typed : TextKey press.key) :
    ∃ ed', edTurn display press ed = some ed' ∧ Editing ed' ∧ ed'.selActive = false ∧
      Shown ed' (docKey press.key doc) := by
  obtain ⟨ed1, typedIn, state1, sel, shown1⟩ := edKey_text state inactive shown press typed
  obtain ⟨top, ed', updated, state', drawn⟩ := edUpdate_spec display state1
  have shown' : Shown ed' (docKey press.key doc) := drawn.shows (shown1.congr rfl rfl rfl rfl rfl)
  refine ⟨ed', by simp only [edTurn, typedIn, updated, bind, Option.bind], state', ?_, shown'⟩
  obtain ⟨_, _, _, _, _, _, rfl⟩ := drawn
  exact sel

theorem edLoop_text (display : Display) (keys : List KeyPress) (typed : ∀ press ∈ keys, TextKey press.key)
    (state : Editing ed) (inactive : ed.selActive = false) {doc : LineDoc UInt8} (shown : Shown ed doc)
    (plain : doc.Plain 10) :
    ∃ ed' doc', edLoop display keys ed = some ed' ∧ Shown ed' doc' ∧
      doc'.flat 10 = keys.foldl (fun buffer press => textKey press.key buffer) (doc.flat 10) := by
  induction keys generalizing ed doc with
  | nil => exact ⟨ed, doc, rfl, shown, rfl⟩
  | cons press rest ih =>
    have key := typed press List.mem_cons_self
    have stays : ¬press.key = 0x1B := by
      intro escape
      rw [escape] at key
      exact absurd key (by decide)
    obtain ⟨ed1, turned, state1, sel, shown1⟩ := edTurn_text display state inactive shown press key
    obtain ⟨ed', doc', ran, shown', flat⟩ := ih (fun press member => typed press (List.mem_cons_of_mem _ member)) state1
      sel shown1 (docKey_plain plain press.key)
    refine ⟨ed', doc', ?_, shown', ?_⟩
    · rw [edLoop, if_neg stays, turned]
      exact ran
    · rw [flat, docKey_flat plain, List.foldl_cons]

/-- Typing, erasing and moving without a selection edits the text around the cursor's offset,
and Ctrl+S then hands over that text and one newline. -/
theorem typing_refines_text (display : Display) (ed : EditorState) (state : Editing ed) (inactive : ed.selActive = false)
    (plain : ∀ line ∈ documentLines ed, 10 ∉ line) (keys : List KeyPress)
    (typed : ∀ press ∈ keys, TextKey press.key) :
    ∃ ed' saved, edLoop display keys ed = some ed' ∧
      textBuffer ed' = keys.foldl (fun buffer press => textKey press.key buffer) (textBuffer ed) ∧
      edKey { key := 0x88 } ed' = some saved ∧ saved.written = (documentText ed' ++ [10]) :: ed'.written := by
  obtain ⟨above, left, right, below, shows⟩ := state.toStructural.shows
  have lines : LineDoc.Plain 10 ⟨above, left, right, below⟩ := fun line member =>
    plain line (shows.documentLines ▸ member)
  obtain ⟨ed', doc', ran, shown, flat⟩ := edLoop_text display keys typed state inactive shows lines
  refine ⟨ed', _, ran, ?_, edSave_spec shown, rfl⟩
  have first : textBuffer ed = LineDoc.flat 10 ⟨above, left, right, below⟩ := Shown.textBuffer shows
  rw [shown.textBuffer, flat, first]

/-- Two lines typed into an empty document. -/
theorem typing_refines_text_two_lines : ∃ ed' saved,
    edLoop ⟨80, 25⟩ [{ key := 104 }, { key := 10 }, { key := 105 }] emptyEditor = some ed' ∧
      textBuffer ed' = [{ key := 104 }, { key := 10 }, ({ key := 105 } : KeyPress)].foldl
        (fun buffer press => textKey press.key buffer) (textBuffer emptyEditor) ∧
      edKey { key := 0x88 } ed' = some saved ∧ saved.written = (documentText ed' ++ [10]) :: ed'.written :=
  typing_refines_text ⟨80, 25⟩ emptyEditor emptyEditor_editing rfl (by decide)
    [{ key := 104 }, { key := 10 }, { key := 105 }] (by simp; decide)

end LivlyOS.Apps
