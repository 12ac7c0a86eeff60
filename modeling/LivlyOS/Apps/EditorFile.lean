import LivlyOS.Apps.EditorText

namespace LivlyOS.Apps

open LivlyOS.Lib

/-- The characters read so far become the next row. -/
theorem endLine_row {ed : EditorState} (room : 0 ≤ ed.lineCount ∧ ed.lineCount < 200)
    (spells : Spells (ed.lines ed.lineCount) 0 line) (fits : line.length ≤ 77) :
    ∃ lines lineLen, endLine ed line.length = some { ed with lines, lineLen, lineCount := ed.lineCount + 1 } ∧
      RowIs lines lineLen ed.lineCount line ∧ OtherRows ed.lineCount ed.lines lines ed.lineLen lineLen := by
  obtain ⟨lines, ended, _, cells, others⟩ := setChar_spec ed.lines room
    (show 0 ≤ (line.length : Int) ∧ (line.length : Int) < 78 by omega) 0
  obtain ⟨lineLen, set, here, otherLens⟩ := writeCell_spec ed.lineLen room (line.length : Int)
  refine ⟨lines, lineLen, ?_, ⟨here, fits, spells.congr fun k _ high => cells k (by omega)⟩,
    fun i other => ⟨others i other, otherLens i other⟩⟩
  simp only [endLine, ended, set, bind, Option.bind]

/-- `ed_buf_to_lines` makes a row of every piece between newlines. -/
theorem bufToLines_rows {ed : EditorState} {above : List (List UInt8)} (left : List UInt8) {rest : List UInt8}
    (split : rest.splitOn 10 = first :: more) (held : Rows ed.lines ed.lineLen 0 above)
    (count : ed.lineCount = above.length) (spells : Spells (ed.lines ed.lineCount) 0 left)
    (fits : left.length + first.length ≤ 77) (short : ∀ line ∈ more, line.length ≤ 77)
    (few : above.length + 1 + more.length ≤ 200) :
    ∃ lines lineLen lineCount, bufToLines ed left.length rest = some { ed with lines, lineLen, lineCount } ∧
      lineCount = above.length + 1 + more.length ∧ Rows lines lineLen 0 (above ++ (left ++ first) :: more) := by
  have room : 0 ≤ ed.lineCount ∧ ed.lineCount < 200 := by omega
  induction rest generalizing ed above left first more with
  | nil =>
    rw [List.splitOn_nil] at split
    obtain ⟨rfl, rfl⟩ := List.cons.inj split
    obtain ⟨lines, lineLen, ended, row, frame⟩ := endLine_row room spells (by omega)
    refine ⟨lines, lineLen, ed.lineCount + 1, ended, by simp only [List.length_nil]; omega,
      Rows.append_iff.mpr ⟨held.congr fun i _ high => frame i (by omega), ?_, trivial⟩⟩
    rw [List.append_nil, Int.zero_add, ← count]
    exact row
  | cons byte rest ih =>
    obtain ⟨first', more', split'⟩ := List.exists_cons_of_ne_nil (List.splitOn_ne_nil 10 rest)
    by_cases newline : byte = 10
    · obtain ⟨rfl, rfl⟩ : [] = first ∧ first' :: more' = more := by
        rw [newline, List.splitOn_cons_eq_if_modifyHead, if_pos (by decide), split'] at split
        exact List.cons.inj split
      obtain ⟨lines1, lineLen1, ended, row, frame⟩ := endLine_row room spells (by omega)
      have notFull : ¬200 ≤ ed.lineCount + 1 := by
        rw [List.length_cons] at few
        omega
      have length : (above ++ [left]).length = above.length + 1 := by simp
      have held1 : Rows lines1 lineLen1 0 (above ++ [left]) := by
        refine Rows.append_iff.mpr ⟨held.congr fun i _ high => frame i (by omega), ?_, trivial⟩
        rw [Int.zero_add, ← count]
        exact row
      obtain ⟨lines, lineLen, lineCount, ran, total, rows⟩ :=
        @ih first' more' { ed with lines := lines1, lineLen := lineLen1, lineCount := ed.lineCount + 1 } (above ++ [left])
          [] split' held1 (by rw [length, count]; rfl) trivial
          (by rw [List.length_nil, Nat.zero_add]; exact short first' List.mem_cons_self)
          (fun line member => short line (List.mem_cons_of_mem _ member))
          (by rw [List.length_cons] at few; omega) (by change 0 ≤ ed.lineCount + 1 ∧ ed.lineCount + 1 < 200; omega)
      refine ⟨lines, lineLen, lineCount, ?_, by rw [total, length, List.length_cons]; omega, ?_⟩
      · simp only [bufToLines, if_pos newline, ended, if_neg notFull, bind, Option.bind]
        exact ran
      · rw [List.append_nil]
        rw [List.append_assoc] at rows
        exact rows
    · obtain ⟨rfl, rfl⟩ : byte :: first' = first ∧ more' = more := by
        rw [List.splitOn_cons_eq_if_modifyHead, if_neg (by simpa using newline), split'] at split
        exact List.cons.inj split
      rw [List.length_cons] at fits
      obtain ⟨lines1, put, there, cells, others⟩ := setChar_spec ed.lines room
        (show 0 ≤ (left.length : Int) ∧ (left.length : Int) < 78 by omega) byte
      have spells1 : Spells (lines1 ed.lineCount) 0 (left ++ [byte]) := by
        refine Spells.append_iff.mpr ⟨spells.congr fun k _ high => cells k (by omega), ?_, trivial⟩
        rw [Int.zero_add]
        exact there
      obtain ⟨lines, lineLen, lineCount, ran, total, rows⟩ :=
        @ih first' more' { ed with lines := lines1 } above (left ++ [byte]) split'
          (held.congr fun i _ high => ⟨others i (by omega), rfl⟩) count spells1
          (by rw [List.length_append, List.length_singleton]; omega) short few room
      refine ⟨lines, lineLen, lineCount, ?_, total, ?_⟩
      · rw [List.length_append, List.length_singleton] at ran
        simp only [bufToLines, if_neg newline, if_pos (show (left.length : Int) < 78 - 1 by omega), put, bind, Option.bind]
        exact ran
      · rw [List.append_assoc] at rows
        exact rows

/-- What Ctrl+S hands over for a file that was only opened. -/
def SavedAs (ed : EditorState) (file saved : List UInt8) : Prop :=
  ∃ ed', edBufToLines ed file = some ed' ∧ edLinesToBuf ed' (ed'.lineCount * 78 + 16).toNat = some saved

/-- At most 200 lines of at most 77 bytes. -/
def FileFits (file : List UInt8) : Prop :=
  (file.splitOn 10).length ≤ 200 ∧ ∀ line ∈ file.splitOn 10, line.length ≤ 77

instance (file : List UInt8) : Decidable (FileFits file) := inferInstanceAs (Decidable (_ ∧ _))

/-- The lines of a file, each with a newline behind it. -/
theorem splitOn_flatMap (file : List UInt8) : (file.splitOn 10).flatMap (· ++ [10]) = file ++ [10] := by
  obtain ⟨first, more, split⟩ := List.exists_cons_of_ne_nil (List.splitOn_ne_nil 10 file)
  have joined := LineDoc.lines_flatMap 10 ⟨[], [], first, more⟩
  have back : [10].intercalate (List.splitOn 10 file) = file := List.intercalate_splitOn 10
  have lines : LineDoc.lines ⟨[], [], first, more⟩ = file.splitOn 10 := split.symm
  rw [LineDoc.flat_text, lines, back] at joined
  exact joined

theorem FileFits.length (fits : FileFits file) : file.length ≤ 15599 := by
  have bound : ∀ lines : List (List UInt8), (∀ line ∈ lines, line.length ≤ 77) →
      (lines.flatMap (· ++ [10])).length ≤ 78 * lines.length := by
    intro lines
    induction lines with
    | nil => exact fun _ => Nat.le_refl 0
    | cons line rest ih =>
      intro short
      have tail := ih fun other member => short other (List.mem_cons_of_mem line member)
      have head := short line List.mem_cons_self
      simp only [List.flatMap_cons, List.length_append, List.length_cons, List.length_nil]
      omega
  obtain ⟨few, short⟩ := fits
  have whole := congrArg List.length (splitOn_flatMap file)
  rw [List.length_append, List.length_singleton] at whole
  have total := bound _ short
  omega

/-- The newline is a separator when a file is read and a terminator when it is written: every
file comes back with one more newline. -/
theorem savedAs_longer (ed : EditorState) (file : List UInt8) (fits : FileFits file) :
    SavedAs ed file (file ++ [10]) ∧ ¬SavedAs ed file file := by
  obtain ⟨few, short⟩ := fits
  obtain ⟨first, more, split⟩ := List.exists_cons_of_ne_nil (List.splitOn_ne_nil 10 file)
  have text : (first :: more).flatMap (· ++ [10]) = file ++ [10] := by
    rw [← split]
    exact splitOn_flatMap file
  rw [split] at few short
  rw [List.length_cons] at few
  obtain ⟨lines, lineLen, lineCount, read, total, rows⟩ :=
    @bufToLines_rows first more { ed with lineCount := 0 } [] [] file split trivial rfl trivial
      (by simpa using short first List.mem_cons_self)
      (fun line member => short line (List.mem_cons_of_mem _ member)) (by simp only [List.length_nil]; omega)
  simp only [List.length_nil] at total
  have saved : SavedAs ed file (file ++ [10]) := by
    have notEmpty : ¬lineCount = 0 := by omega
    refine ⟨{ ed with lines, lineLen, lineCount }, ?_, ?_⟩
    · have opened : bufToLines { ed with lineCount := 0 } 0 file = some { ed with lines, lineLen, lineCount } := read
      simp only [edBufToLines, opened, if_neg notEmpty, bind, Option.bind]
    · have rows : Rows lines lineLen 0 (first :: more) := rows
      have length : ((first :: more).length : Int) = lineCount := by
        rw [List.length_cons]
        omega
      have ran := putRows_spec { ed with lines, lineLen, lineCount } [] (lineCount * 78 + 16).toNat rows (Int.le_refl 0)
        (by omega) (by simp only [List.length_nil]; omega)
      rw [Int.zero_add, length, text, List.nil_append] at ran
      exact ran
  refine ⟨saved, fun unchanged => ?_⟩
  obtain ⟨ed1, read1, written1⟩ := saved
  obtain ⟨ed2, read2, written2⟩ := unchanged
  obtain rfl := Option.some.inj (read1.symm.trans read2)
  have same := congrArg List.length (Option.some.inj (written1.symm.trans written2))
  simp at same

theorem savedAs_longer_hi : SavedAs emptyEditor [104, 105] ([104, 105] ++ [10]) ∧ ¬SavedAs emptyEditor [104, 105] [104, 105] :=
  savedAs_longer emptyEditor [104, 105] (by decide)

/-- An empty file is saved as a newline. -/
theorem savedAs_emptyFile : FileFits [] ∧ SavedAs emptyEditor [] [10] ∧ ¬SavedAs emptyEditor [] [] := by
  have trace : (edBufToLines emptyEditor []).bind (fun ed => edLinesToBuf ed (ed.lineCount * 78 + 16).toNat) =
      some [10] := by decide +kernel
  obtain ⟨opened, read, written⟩ := Option.bind_eq_some_iff.mp trace
  refine ⟨by decide, ⟨opened, read, written⟩, ?_⟩
  rintro ⟨other, read', written'⟩
  obtain rfl := Option.some.inj (read.symm.trans read')
  cases written.symm.trans written'

end LivlyOS.Apps
