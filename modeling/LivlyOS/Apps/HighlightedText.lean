import LivlyOS.Apps.SelectedText

/-! Copying against highlighting: `ed_copy_selection` and `ed_is_selected` put the ends of the
selection in order each for itself. -/

namespace LivlyOS.Apps

open LivlyOS.Lib

/-- The characters of a row that are drawn as selected. -/
def highlightedRow (ed : EditorState) (y : Int) : List UInt8 :=
  ((List.range (ed.lineLen y).toNat).filter fun x : Nat => edIsSelected ed x y).map fun x : Nat => ed.lines y x

/-- Some column of the row is selected. Columns are of type `int`: the last row has some also when the selection
ends in front of its first character. -/
def SelectedRow (ed : EditorState) (y : Int) : Prop := ∃ x, edIsSelected ed x y = true

/-- These are the rows from one end of the selection to the other, if it is not empty. -/
theorem selectedRow_iff {ed : EditorState} : SelectedRow ed y ↔ ed.selActive = true ∧
    (selectionEnds ed).1.1 ≤ y ∧ y ≤ (selectionEnds ed).2.1 ∧
    ((selectionEnds ed).1.1 = (selectionEnds ed).2.1 → (selectionEnds ed).1.2 < (selectionEnds ed).2.2) := by
  unfold SelectedRow edIsSelected
  generalize selectionEnds ed = ends
  obtain ⟨⟨sy, sx⟩, ey, ex⟩ := ends
  dsimp only
  simp only [Bool.and_eq_true, exists_and_left]
  refine and_congr_right fun _ => ?_
  by_cases outside : y < sy ∨ y > ey
  · simp only [if_pos outside, Bool.false_eq_true, exists_false, false_iff]
    omega
  simp only [if_neg outside]
  by_cases top : y = sy
  · by_cases bottom : y = ey
    · simp only [if_pos (And.intro top bottom), decide_eq_true_eq]
      constructor
      · rintro ⟨x, low, high⟩
        omega
      · intro inside
        exact ⟨sx, Int.le_refl sx, inside.2.2 (by omega)⟩
    · simp only [if_neg fun both : _ ∧ _ => bottom both.2, if_pos top]
      exact iff_of_true ⟨sx, decide_eq_true (Int.le_refl sx)⟩ (by omega)
  · simp only [if_neg fun both : _ ∧ _ => top both.1, if_neg top]
    by_cases bottom : y = ey
    · simp only [if_pos bottom]
      exact iff_of_true ⟨ex - 1, decide_eq_true (by omega)⟩ (by omega)
    · simp only [if_neg bottom]
      exact iff_of_true ⟨0, trivial⟩ (by omega)

instance (ed : EditorState) (y : Int) : Decidable (SelectedRow ed y) := decidable_of_iff _ selectedRow_iff.symm

/-- What is drawn as selected of a row, with a newline if the row behind it is selected as well. -/
def rowText (ed : EditorState) (y : Int) : List UInt8 :=
  highlightedRow ed y ++ if SelectedRow ed y ∧ SelectedRow ed (y + 1) then [10] else []

/-- What is drawn as selected in the whole document, in reading order. -/
def highlightedText (ed : EditorState) : List UInt8 :=
  (List.range ed.lineCount.toNat).flatMap fun y : Nat => rowText ed y

/-- The numbers in front of an interval, in it, and behind it. -/
theorem range_split (ordered : a ≤ b) (below : b ≤ n) :
    List.range n = List.range' 0 a ++ (List.range' a (b - a) ++ List.range' b (n - b)) := by
  have inner := @List.range'_append_1 a (b - a) (n - b)
  rw [show a + (b - a) = b by omega, show b - a + (n - b) = n - a by omega] at inner
  have outer := @List.range'_append_1 0 a (n - a)
  rw [Nat.zero_add, show a + (n - a) = n by omega] at outer
  rw [inner, outer, List.range_eq_range']

/-- The numbers below `n` that lie in an interval. -/
theorem filter_range {keep : Nat → Bool} (ordered : a ≤ b) (below : b ≤ n)
    (kept : ∀ x < n, keep x = true ↔ a ≤ x ∧ x < b) : (List.range n).filter keep = List.range' a (b - a) := by
  have before : (List.range' 0 a).filter keep = [] := by
    rw [List.filter_eq_nil_iff]
    intro x member
    have inside := List.mem_range'_1.mp member
    rw [kept x (by omega)]
    omega
  have behind : (List.range' b (n - b)).filter keep = [] := by
    rw [List.filter_eq_nil_iff]
    intro x member
    have inside := List.mem_range'_1.mp member
    rw [kept x (by omega)]
    omega
  have middle : (List.range' a (b - a)).filter keep = List.range' a (b - a) := by
    rw [List.filter_eq_self]
    intro x member
    have inside := List.mem_range'_1.mp member
    rw [kept x (by omega)]
    omega
  rw [range_split ordered below, List.filter_append, List.filter_append, before, behind, middle, List.nil_append, List.append_nil]

/-- Two places of the document in reading order. -/
structure Span (ed : EditorState) (sy sx ey ex : Int) : Prop where
  rows : 0 ≤ sy ∧ sy ≤ ey ∧ ey < ed.lineCount
  first : 0 ≤ sx ∧ sx ≤ ed.lineLen sy
  last : 0 ≤ ex ∧ ex ≤ ed.lineLen ey
  sameRow : sy = ey → sx ≤ ex

theorem selectionEnds_span (structural : Structural ed) (startRow : 0 ≤ ed.selStartY ∧ ed.selStartY < ed.lineCount)
    (startColumn : 0 ≤ ed.selStartX ∧ ed.selStartX ≤ ed.lineLen ed.selStartY) :
    ∃ sx ex, selectionEnds ed = ((min ed.selStartY ed.cursorY, sx), (max ed.selStartY ed.cursorY, ex)) ∧
      Span ed (min ed.selStartY ed.cursorY) sx (max ed.selStartY ed.cursorY) ex := by
  have row := structural.row
  have column := structural.column
  unfold selectionEnds
  by_cases swapped : ed.selStartY > ed.cursorY ∨ (ed.selStartY = ed.cursorY ∧ ed.selStartX > ed.cursorX)
  · have low : min ed.selStartY ed.cursorY = ed.cursorY := by omega
    have high : max ed.selStartY ed.cursorY = ed.selStartY := by omega
    rw [if_pos swapped, low, high]
    exact ⟨_, _, rfl, by omega, column, startColumn, by omega⟩
  · have low : min ed.selStartY ed.cursorY = ed.selStartY := by omega
    have high : max ed.selStartY ed.cursorY = ed.cursorY := by omega
    rw [if_neg swapped, low, high]
    exact ⟨_, _, rfl, by omega, startColumn, column, by omega⟩

section Rows

variable {ed : EditorState} {sy sx ey ex : Int}

/-- What is selected of a row, from where the copy starts in it to where it stops. -/
theorem edIsSelected_iff (active : ed.selActive = true) (ends : selectionEnds ed = ((sy, sx), (ey, ex)))
    (inside : sy ≤ y ∧ y ≤ ey) (column : 0 ≤ x ∧ x < ed.lineLen y) :
    edIsSelected ed x y = true ↔
      (if y = sy then sx else 0) ≤ x ∧ x < (if y = ey then ex else ed.lineLen y) := by
  have between : ¬(y < sy ∨ y > ey) := by omega
  rw [edIsSelected, active, ends, Bool.true_and]
  dsimp only
  rw [if_neg between]
  by_cases top : y = sy
  · by_cases bottom : y = ey
    · rw [if_pos ⟨top, bottom⟩, if_pos top, if_pos bottom, decide_eq_true_eq]
    · rw [if_neg fun both => bottom both.2, if_pos top, if_pos top, if_neg bottom, decide_eq_true_eq]
      exact ⟨fun from_ => ⟨from_, column.2⟩, And.left⟩
  · by_cases bottom : y = ey
    · rw [if_neg fun both => top both.1, if_neg top, if_pos bottom, if_neg top, if_pos bottom, decide_eq_true_eq]
      exact ⟨fun until_ => ⟨column.1, until_⟩, And.right⟩
    · rw [if_neg fun both => top both.1, if_neg top, if_neg bottom, if_neg top, if_neg bottom]
      exact ⟨fun _ => column, fun _ => rfl⟩

theorem highlightedRow_spells (structural : Structural ed) (active : ed.selActive = true)
    (ends : selectionEnds ed = ((sy, sx), (ey, ex))) (span : Span ed sy sx ey ex) (inside : sy ≤ y ∧ y ≤ ey) :
    Spells (ed.lines y) (if y = sy then sx else 0) (highlightedRow ed y) ∧
      (if y = sy then sx else 0) + ((highlightedRow ed y).length : Int) = (if y = ey then ex else ed.lineLen y) ∧
      (0 ≤ (if y = sy then sx else 0)) ∧ (if y = ey then ex else ed.lineLen y) ≤ 77 := by
  have rows := span.rows
  have len := structural.lens y (by omega) (by omega)
  have marked := fun x : Int => edIsSelected_iff (x := x) active ends inside
  have start : 0 ≤ (if y = sy then sx else 0) ∧
      (if y = sy then sx else 0) ≤ (if y = ey then ex else ed.lineLen y) ∧
      (if y = ey then ex else ed.lineLen y) ≤ ed.lineLen y := by
    have first := span.first
    have last := span.last
    have sameRow := span.sameRow
    split
    · rename_i top
      rw [top]
      split
      · rename_i bottom
        rw [← bottom] at last
        exact ⟨first.1, sameRow bottom, last.2⟩
      · exact ⟨first.1, first.2, Int.le_refl _⟩
    · split
      · rename_i bottom
        rw [bottom]
        exact ⟨Int.le_refl 0, last⟩
      · exact ⟨Int.le_refl 0, len.1, Int.le_refl _⟩
  generalize (if y = sy then sx else 0) = from_ at marked start ⊢
  generalize (if y = ey then ex else ed.lineLen y) = until_ at marked start ⊢
  obtain ⟨a, rfl⟩ := Int.eq_ofNat_of_zero_le start.1
  obtain ⟨b, rfl⟩ := Int.eq_ofNat_of_zero_le (Int.le_trans start.1 start.2.1)
  have row : highlightedRow ed y = (List.range' a (b - a)).map fun x : Nat => ed.lines y x := by
    have kept : ∀ x < (ed.lineLen y).toNat, edIsSelected ed x y = true ↔ a ≤ x ∧ x < b := by
      intro x below
      rw [marked x (by omega)]
      omega
    rw [highlightedRow, filter_range (by omega) (by omega) kept]
  rw [row]
  refine ⟨Spells.ofRange (ed.lines y) a (b - a), ?_, start.1, by omega⟩
  rw [List.length_map, List.length_range']
  omega

theorem rowText_before (active : ed.selActive = true) (ends : selectionEnds ed = ((sy, sx), (ey, ex)))
    (inside : sy ≤ y) (before : y < ey) : rowText ed y = highlightedRow ed y ++ [10] := by
  rw [rowText, if_pos]
  rw [selectedRow_iff, selectedRow_iff, ends, and_iff_right active, and_iff_right active]
  dsimp only
  omega

theorem rowText_last (ends : selectionEnds ed = ((sy, sx), (ey, ex))) : rowText ed ey = highlightedRow ed ey := by
  rw [rowText, if_neg, List.append_nil]
  rw [selectedRow_iff (y := ey + 1), ends]
  dsimp only
  omega

/-- Rows in front of the selection and behind it add nothing. -/
theorem rowText_outside (ends : selectionEnds ed = ((sy, sx), (ey, ex))) (outside : y < sy ∨ ey < y) :
    rowText ed y = [] := by
  have unselected : ¬SelectedRow ed y := by
    rw [selectedRow_iff, ends]
    dsimp only
    omega
  have none : highlightedRow ed y = [] := by
    rw [highlightedRow, List.map_eq_nil_iff, List.filter_eq_nil_iff]
    exact fun x _ marked => unselected ⟨x, marked⟩
  rw [rowText, none, if_neg fun both => unselected both.1, List.append_nil]

/-- The rows from `y` to the last one, copied one after the other. -/
theorem clipRows_highlighted (structural : Structural ed) (active : ed.selActive = true)
    (ends : selectionEnds ed = ((sy, sx), (ey, ex))) (span : Span ed sy sx ey ex) {clip : (Int → UInt8) × Int}
    (held : Clip clip text) (count : Nat) (inside : sy ≤ y) (last : ey = y + count) (room : text.length + 78 * count + 77 ≤ 15599) :
    ∃ clip' picked, forUp y (ey + 1) (clipTurn ed.lines ed.lineLen sy sx ey ex) clip = some clip' ∧
      Clip clip' (text ++ picked) ∧ picked.length ≤ 78 * count + 77 ∧
      picked = (List.range (count + 1)).flatMap fun i : Nat => rowText ed (y + i) := by
  have rows := span.rows
  have total := structural.count
  have here := highlightedRow_spells (y := y) structural active ends span (by omega)
  induction count generalizing y clip text with
  | zero =>
    obtain rfl : ey = y := by simpa using last
    obtain ⟨spells, stop, low, high⟩ := here
    rw [if_pos rfl] at stop high
    obtain ⟨clip', ran, held'⟩ := clipTurn_last held rfl spells stop.symm (by omega) (by omega) (by omega)
    refine ⟨clip', highlightedRow ed ey, ?_, held', by omega, ?_⟩
    · rw [forUp_next (by omega), ran]
      exact forUp_done (Int.le_refl _) clip'
    · rw [List.range_one, List.flatMap_singleton, Int.natCast_zero, Int.add_zero, rowText_last ends]
  | succ count ih =>
    obtain ⟨spells, stop, low, high⟩ := here
    have before : y < ey := by omega
    rw [if_neg (Int.ne_of_lt before)] at stop high
    obtain ⟨clip1, ran, held1⟩ := clipTurn_before ex held rfl spells stop.symm before (by omega) (by omega) (by omega)
    have length : (text ++ (highlightedRow ed y ++ [10])).length = text.length + (highlightedRow ed y).length + 1 := by
      simp only [List.length_append, List.length_singleton]
      omega
    obtain ⟨clip', picked, rest, held', short, same⟩ := ih held1 (by omega) (by omega) (by omega)
      (highlightedRow_spells (y := y + 1) structural active ends span (by omega))
    refine ⟨clip', highlightedRow ed y ++ [10] ++ picked, ?_, ?_, ?_, ?_⟩
    · rw [forUp_next (by omega), ran]
      exact rest
    · rw [← List.append_assoc]
      exact held'
    · simp only [List.length_append, List.length_singleton]
      omega
    · have shift : (fun i : Nat => rowText ed (y + ((i + 1 : Nat) : Int))) = fun i : Nat => rowText ed (y + 1 + i) := by
        funext i
        congr 1
        omega
      rw [List.range_succ_eq_map, List.flatMap_cons, List.flatMap_map, shift, Int.natCast_zero, Int.add_zero,
        rowText_before active ends inside before, same]

theorem highlightedText_span (ends : selectionEnds ed = ((sy, sx), (ey, ex))) (span : Span ed sy sx ey ex)
    (count : Nat) (last : ey = sy + count) :
    highlightedText ed = (List.range (count + 1)).flatMap fun i : Nat => rowText ed (sy + i) := by
  have rows := span.rows
  obtain ⟨top, rfl⟩ := Int.eq_ofNat_of_zero_le rows.1
  have before : (List.range' 0 top).flatMap (fun y : Nat => rowText ed y) = [] := by
    refine List.flatMap_eq_nil_iff.mpr fun y member => rowText_outside ends ?_
    have inside := List.mem_range'_1.mp member
    omega
  have behind : (List.range' (top + (count + 1)) (ed.lineCount.toNat - (top + (count + 1)))).flatMap
      (fun y : Nat => rowText ed y) = [] := by
    refine List.flatMap_eq_nil_iff.mpr fun y member => rowText_outside ends ?_
    have inside := List.mem_range'_1.mp member
    omega
  rw [highlightedText, range_split (Nat.le_add_right top (count + 1)) (by omega), List.flatMap_append,
    List.flatMap_append, before, behind, List.nil_append, List.append_nil, Nat.add_sub_cancel_left,
    List.range'_eq_map_range, List.flatMap_map]
  simp only [Int.natCast_add]

end Rows

/-- Copying puts exactly what is drawn as selected on the clipboard, in reading order, and the
clipboard has room for all of it and the terminator. -/
theorem edCopySelection_highlighted (structural : Structural ed) (active : ed.selActive = true)
    (startRow : 0 ≤ ed.selStartY ∧ ed.selStartY < ed.lineCount)
    (startColumn : 0 ≤ ed.selStartX ∧ ed.selStartX ≤ ed.lineLen ed.selStartY) :
    ∃ copied, edCopySelection ed = some copied ∧ clipboardText copied = highlightedText ed ∧
      (highlightedText ed).length + 1 ≤ 200 * 78 ∧ copied.clipboardLen = (highlightedText ed).length ∧
      copied.clipboard copied.clipboardLen = 0 ∧
      copied = { ed with clipboard := copied.clipboard, clipboardLen := copied.clipboardLen } := by
  obtain ⟨sx, ex, ends, span⟩ := selectionEnds_span structural startRow startColumn
  have rows := span.rows
  have total := structural.count
  have empty : Clip (ed.clipboard, 0) [] := ⟨trivial, rfl⟩
  obtain ⟨clip, picked, ran, held, short, same⟩ := clipRows_highlighted structural active ends span empty
    (max ed.selStartY ed.cursorY - min ed.selStartY ed.cursorY).toNat (Int.le_refl _) (by omega)
    (by simp only [List.length_nil]; omega)
  have text : picked = highlightedText ed :=
    same.trans (highlightedText_span ends span _ (by omega)).symm
  rw [List.nil_append, text] at held
  rw [text] at short
  obtain ⟨copied, done, clipped, rest⟩ := edCopySelection_clip active ends ran held (by omega)
  exact ⟨copied, done, clipped, by omega, rest⟩

/-- The rows `ab`, an empty one and `ab`, selected from the end of the last to the `b` of the first. -/
def threeRows : EditorState :=
  { emptyEditor with
    lines := fun _ x => if x = 0 then 97 else 98
    lineLen := fun y => if y = 1 then 0 else 2
    lineCount := 4
    cursorX := 1
    selStartX := 2
    selStartY := 2
    selActive := true }

theorem edCopySelection_highlighted_rows : highlightedText threeRows = [98, 10, 10, 97, 98] ∧
    ∃ copied, edCopySelection threeRows = some copied ∧ clipboardText copied = highlightedText threeRows ∧
      (highlightedText threeRows).length + 1 ≤ 200 * 78 ∧ copied.clipboardLen = (highlightedText threeRows).length ∧
      copied.clipboard copied.clipboardLen = 0 ∧
      copied = { threeRows with clipboard := copied.clipboard, clipboardLen := copied.clipboardLen } := by
  have structural : Structural threeRows := by
    refine ⟨by decide, by decide, by decide, fun y _ _ => ?_⟩
    change 0 ≤ (if y = 1 then 0 else 2 : Int) ∧ (if y = 1 then 0 else 2 : Int) ≤ 77
    split <;> decide
  exact ⟨by decide, edCopySelection_highlighted structural rfl (by decide) (by decide)⟩

end LivlyOS.Apps
