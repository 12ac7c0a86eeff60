import Mathlib.Data.List.Induction
import LivlyOS.Apps.Editor

namespace LivlyOS.Apps

open LivlyOS.Lib

theorem charAt_eq (lines : Lines) (row : 0 ≤ y ∧ y < rows) (column : 0 ≤ x ∧ x < 78) :
    charAt rows lines y x = some (lines y x) := if_pos ⟨row, column⟩

theorem setChar_eq (lines : Lines) (row : 0 ≤ y ∧ y < rows) (column : 0 ≤ x ∧ x < 78) (c : UInt8) :
    setChar rows lines y x c = some (Function.update lines y (Function.update (lines y) x c)) := if_pos ⟨row, column⟩

theorem setChar_spec (lines : Lines) (row : 0 ≤ y ∧ y < rows) (column : 0 ≤ x ∧ x < 78) (c : UInt8) :
    ∃ lines', setChar rows lines y x c = some lines' ∧ lines' y x = c ∧
      (∀ k, k ≠ x → lines' y k = lines y k) ∧ (∀ i, i ≠ y → lines' i = lines i) := by
  refine ⟨_, setChar_eq lines row column c, ?_, fun k other => ?_, fun i other => Function.update_of_ne other ..⟩
  · rw [Function.update_self, Function.update_self]
  · rw [Function.update_self, Function.update_of_ne other]

theorem writeCell_spec (cells : Int → α) (inside : 0 ≤ i ∧ i < size) (value : α) :
    ∃ cells', writeCell size cells i value = some cells' ∧ cells' i = value ∧ (∀ j, j ≠ i → cells' j = cells j) :=
  ⟨_, writeCell_eq cells inside value, Function.update_self .., fun _ other => Function.update_of_ne other ..⟩

/-- `lines'` are the lines after a copy of `count` characters. -/
structure Copied (dstY dstX srcY srcX count : Int) (lines lines' : Lines) : Prop where
  rows : ∀ y, y ≠ dstY → lines' y = lines y
  outside : ∀ x, x < dstX ∨ dstX + count ≤ x → lines' dstY x = lines dstY x
  inside : dstY ≠ srcY ∨ dstX ≤ srcX → ∀ k, 0 ≤ k → k < count → lines' dstY (dstX + k) = lines srcY (srcX + k)

theorem Copied.step {lines mid : Lines} (copied : Copied dstY dstX srcY srcX i lines mid) (started : 0 ≤ i) :
    Copied dstY dstX srcY srcX (i + 1) lines
      (Function.update mid dstY (Function.update (mid dstY) (dstX + i) (mid srcY (srcX + i)))) where
  rows := fun y other => by rw [Function.update_of_ne other, copied.rows y other]
  outside := fun x away => by
    rw [Function.update_self, Function.update_of_ne (by omega), copied.outside x (by omega)]
  inside := fun apart k low high => by
    rw [Function.update_self]
    by_cases last : k = i
    · rw [last, Function.update_self]
      by_cases same : srcY = dstY
      · rw [same, copied.outside _ (by omega)]
      · rw [copied.rows srcY same]
    · rw [Function.update_of_ne (by omega), copied.inside apart k low (by omega)]

theorem copyChars_spec (dstY dstX srcY srcX count : Int) (lines : Lines) (dst : 0 ≤ dstY ∧ dstY < 200)
    (src : 0 ≤ srcY ∧ srcY < 200) (dstRoom : 0 ≤ dstX ∧ dstX + count ≤ 78)
    (srcRoom : 0 ≤ srcX ∧ srcX + count ≤ 78) :
    ∃ lines', copyChars dstY dstX srcY srcX count lines = some lines' ∧
      Copied dstY dstX srcY srcX count lines lines' := by
  by_cases none : count ≤ 0
  · exact ⟨lines, forUp_done none lines, fun y _ => rfl, fun x _ => rfl, fun _ k low high => by omega⟩
  · obtain ⟨lines', ran, _, copied⟩ := forUp_invariant 0 count
      (fun i lines => do setChar 200 lines dstY (dstX + i) (← charAt 200 lines srcY (srcX + i))) lines
      (fun i lines' => 0 ≤ i ∧ Copied dstY dstX srcY srcX i lines lines')
      (fun i lines' low high ⟨started, copied⟩ => by
        refine ⟨_, ?_, by omega, copied.step started⟩
        rw [charAt_eq _ src (by omega)]
        exact setChar_eq _ dst (by omega) _)
      (by omega)
      ⟨by omega, fun y _ => rfl, fun x _ => rfl, fun _ k low high => by omega⟩
    exact ⟨lines', ran, copied⟩

/-- A copy between two arrays stays inside both and changes one row. -/
theorem transferChars_spec (src : Lines) (srcOk : 0 ≤ srcY ∧ srcY < srcRows) (dst : Lines)
    (dstOk : 0 ≤ dstY ∧ dstY < dstRows) (short : count ≤ 78) :
    ∃ dst', transferChars srcRows src srcY dstRows dstY count dst = some dst' ∧
      (∀ y, y ≠ dstY → dst' y = dst y) ∧ ∀ x, 0 ≤ x → x < count → dst' dstY x = src srcY x := by
  by_cases none : count ≤ 0
  · exact ⟨dst, forUp_done none dst, fun y _ => rfl, fun x low high => by omega⟩
  · exact forUp_invariant 0 count (fun i dst => do
        let c ← charAt srcRows src srcY i
        setChar dstRows dst dstY i c) dst
      (fun i dst' => (∀ y, y ≠ dstY → dst' y = dst y) ∧ ∀ x, 0 ≤ x → x < i → dst' dstY x = src srcY x)
      (fun i dst' low high ⟨rows, copied⟩ => by
        refine ⟨Function.update dst' dstY (Function.update (dst' dstY) i (src srcY i)), ?_, fun y other => ?_,
          fun x above below => ?_⟩
        · rw [charAt_eq src srcOk (by omega)]
          exact setChar_eq dst' dstOk (by omega) _
        · rw [Function.update_of_ne other, rows y other]
        · rw [Function.update_self]
          by_cases last : x = i
          · rw [last, Function.update_self]
          · rw [Function.update_of_ne last, copied x above (by omega)])
      (by omega) ⟨fun y _ => rfl, fun x low high => by omega⟩

/-- The characters behind a column move one to the right. -/
theorem shiftRight_spec (y x len : Int) (lines : Lines) (row : 0 ≤ y ∧ y < 200) (low : 0 ≤ x) (ordered : x ≤ len)
    (high : len < 78) :
    ∃ lines', shiftRight y x len lines = some lines' ∧ (∀ i, i ≠ y → lines' i = lines i) ∧
      (∀ k, k ≤ x → lines' y k = lines y k) ∧ (∀ k, x < k → k ≤ len → lines' y k = lines y (k - 1)) :=
  forDown_invariant len x (fun i lines => do setChar 200 lines y i (← charAt 200 lines y (i - 1))) lines
    (fun i lines' => (∀ i, i ≠ y → lines' i = lines i) ∧
      (∀ k, k ≤ i → lines' y k = lines y k) ∧ (∀ k, i < k → k ≤ len → lines' y k = lines y (k - 1)))
    (fun i lines' above below ⟨rows, before, behind⟩ => by
      refine ⟨Function.update lines' y (Function.update (lines' y) i (lines' y (i - 1))), ?_,
        fun j other => ?_, fun k left => ?_, fun k right short => ?_⟩
      · rw [charAt_eq _ row (by omega)]
        exact setChar_eq _ row (by omega) _
      · rw [Function.update_of_ne other, rows j other]
      · rw [Function.update_self, Function.update_of_ne (by omega), before k (by omega)]
      · rw [Function.update_self]
        by_cases here : k = i
        · rw [here, Function.update_self, before _ (by omega)]
        · rw [Function.update_of_ne here, behind k (by omega) short])
    ordered ⟨fun _ _ => rfl, fun _ _ => rfl, fun k above below => by omega⟩

/-- Row `y` of the line array holds a line of at most 77 characters. -/
structure RowIs (lines : Lines) (lineLen : Int → Int) (y : Int) (line : List UInt8) : Prop where
  length : lineLen y = line.length
  fits : line.length ≤ 77
  spells : Spells (lines y) 0 line

/-- The rows from `y` on hold the given lines. -/
def Rows (lines : Lines) (lineLen : Int → Int) : (y : Int) → List (List UInt8) → Prop
  | _, [] => True
  | y, line :: rest => RowIs lines lineLen y line ∧ Rows lines lineLen (y + 1) rest

section
variable {lines lines' : Lines} {lineLen lineLen' : Int → Int}

theorem RowIs.congr (row : RowIs lines lineLen y line) (same : lines' y = lines y ∧ lineLen' y = lineLen y) :
    RowIs lines' lineLen' y line :=
  ⟨same.2.trans row.length, row.fits, by rw [same.1]; exact row.spells⟩

namespace Rows

theorem append_iff {first second : List (List UInt8)} :
    Rows lines lineLen y (first ++ second) ↔
      Rows lines lineLen y first ∧ Rows lines lineLen (y + first.length) second := by
  induction first generalizing y with
  | nil => simp [Rows]
  | cons line rest ih =>
    have shift : y + 1 + (rest.length : Int) = y + (line :: rest).length := by
      simp only [List.length_cons]
      omega
    rw [List.cons_append, Rows, Rows, ih, shift, and_assoc]

theorem congr {rows : List (List UInt8)} (held : Rows lines lineLen y rows)
    (same : ∀ i, y ≤ i → i < y + rows.length → lines' i = lines i ∧ lineLen' i = lineLen i) :
    Rows lines' lineLen' y rows := by
  induction rows generalizing y with
  | nil => trivial
  | cons line rest ih =>
    have length : ((line :: rest).length : Int) = rest.length + 1 := by
      simp only [List.length_cons]
      omega
    exact ⟨held.1.congr (same y (by omega) (by omega)),
      ih held.2 fun i low high => same i (by omega) (by omega)⟩

theorem row {rows : List (List UInt8)} (held : Rows lines lineLen y rows) {i : Nat} (there : i < rows.length) :
    RowIs lines lineLen (y + i) rows[i] := by
  induction rows generalizing y i with
  | nil => simp at there
  | cons line rest ih =>
    cases i with
    | zero =>
      rw [Int.natCast_zero, Int.add_zero]
      exact held.1
    | succ i =>
      have tail := ih held.2 (Nat.lt_of_succ_lt_succ there)
      rw [show y + 1 + (i : Int) = y + ((i + 1 : Nat) : Int) by omega] at tail
      exact tail

/-- Rows of any admissible lengths hold some lines. -/
theorem total (lines : Lines) (lineLen : Int → Int) (y : Int) (count : Nat)
    (lens : ∀ i, y ≤ i → i < y + count → 0 ≤ lineLen i ∧ lineLen i ≤ 77) :
    ∃ rows, rows.length = count ∧ Rows lines lineLen y rows := by
  induction count generalizing y with
  | zero => exact ⟨[], rfl, trivial⟩
  | succ count ih =>
    have here := lens y (by omega) (by omega)
    obtain ⟨line, length, spells⟩ := Spells.total (lines y) 0 (lineLen y).toNat
    obtain ⟨rest, size, held⟩ := ih (y + 1) fun i low high => lens i (by omega) (by omega)
    exact ⟨line :: rest, by rw [List.length_cons, size], ⟨by omega, by omega, spells⟩, held⟩

end Rows

/-- The rows of two texts agree except in row `y`. -/
def OtherRows (y : Int) (lines lines' : Lines) (lineLen lineLen' : Int → Int) : Prop :=
  ∀ i, i ≠ y → lines' i = lines i ∧ lineLen' i = lineLen i

theorem placeChar_spec {x : Int} (row : RowIs lines lineLen y (left ++ right)) (inside : 0 ≤ y ∧ y < 200)
    (column : x = left.length) (room : left.length + right.length < 77) (c : UInt8) :
    ∃ lines' lineLen', placeChar y x c (lines, lineLen) = some (lines', lineLen') ∧
      RowIs lines' lineLen' y ((left ++ [c]) ++ right) ∧ OtherRows y lines lines' lineLen lineLen' := by
  have len := row.length
  rw [List.length_append] at len
  obtain ⟨lines1, shifted, others, before, behind⟩ := shiftRight_spec y x (lineLen y) lines inside (by omega) (by omega)
    (by omega)
  obtain ⟨lines2, put, there, cells, others'⟩ := setChar_spec lines1 inside (show 0 ≤ x ∧ x < 78 by omega) c
  obtain ⟨lines3, ended, _, cells', others''⟩ := setChar_spec lines2 inside
    (show 0 ≤ lineLen y + 1 ∧ lineLen y + 1 < 78 by omega) 0
  obtain ⟨lineLen', set, here, otherLens⟩ := writeCell_spec lineLen inside (lineLen y + 1)
  obtain ⟨leftSpells, rightSpells⟩ := Spells.append_iff.mp row.spells
  refine ⟨lines3, lineLen', ?_, ⟨?_, ?_, Spells.append_iff.mpr ⟨Spells.append_iff.mpr ⟨?_, ?_, trivial⟩, ?_⟩⟩,
    fun i other => ⟨(others'' i other).trans ((others' i other).trans (others i other)), otherLens i other⟩⟩
  · simp only [placeChar, readCell_eq lineLen inside, shifted, put, ended, set, bind, Option.bind]
  · simp only [List.length_append, List.length_singleton]
    omega
  · simp only [List.length_append, List.length_singleton]
    omega
  · refine leftSpells.congr fun k low high => ?_
    rw [cells' k (by omega), cells k (by omega), before k (by omega)]
  · rw [cells' _ (by omega), show 0 + (left.length : Int) = x by omega, there]
  · refine rightSpells.move fun k low high => ?_
    rw [List.length_append, List.length_singleton, cells' _ (by omega), cells _ (by omega),
      behind _ (by omega) (by omega)]
    exact congrArg (lines y) (by omega)

theorem cutChars_spec {x del : Int} (row : RowIs lines lineLen y (left ++ (cut ++ right))) (inside : 0 ≤ y ∧ y < 200)
    (column : x = left.length) (size : del = cut.length) :
    ∃ lines' lineLen', cutChars y x del (lines, lineLen) = some (lines', lineLen') ∧
      RowIs lines' lineLen' y (left ++ right) ∧ OtherRows y lines lines' lineLen lineLen' := by
  have len := row.length
  have fits := row.fits
  rw [List.length_append, List.length_append] at len fits
  obtain ⟨lines1, copied, spec⟩ := copyChars_spec y x y (x + del) (lineLen y - del - x) lines inside inside (by omega)
    (by omega)
  obtain ⟨lineLen', set, here, otherLens⟩ := writeCell_spec lineLen inside (lineLen y - del)
  obtain ⟨lines2, ended, _, cells, others⟩ := setChar_spec lines1 inside
    (show 0 ≤ lineLen y - del ∧ lineLen y - del < 78 by omega) 0
  obtain ⟨leftSpells, restSpells⟩ := Spells.append_iff.mp row.spells
  refine ⟨lines2, lineLen', ?_, ⟨?_, ?_, Spells.append_iff.mpr ⟨leftSpells.congr fun k low high => ?_,
    (Spells.append_iff.mp restSpells).2.move fun k low high => ?_⟩⟩,
    fun i other => ⟨(others i other).trans (spec.rows i other), otherLens i other⟩⟩
  · simp only [cutChars, readCell_eq lineLen inside, copied, set, ended, bind, Option.bind]
  · rw [List.length_append]
    omega
  · rw [List.length_append]
    omega
  · rw [cells k (by omega), spec.outside k (by omega)]
  · rw [cells _ (by omega), show 0 + (left.length : Int) + k = x + k by omega, spec.inside (by omega) k low (by omega)]
    exact congrArg (lines y) (by omega)

theorem carryChars_spec {dstX count : Int} (lineLen : Int → Int) (dst : 0 ≤ dstY ∧ dstY < 200) (src : 0 ≤ srcY ∧ srcY < 200) (apart : dstY ≠ srcY)
    (front : Spells (lines dstY) 0 left) (rest : Spells (lines srcY) srcX right) (column : dstX = left.length)
    (size : count = right.length) (room : left.length + right.length ≤ 77) (srcRoom : 0 ≤ srcX ∧ srcX + count ≤ 77) :
    ∃ lines' lineLen', carryChars dstY dstX srcY srcX count (lines, lineLen) = some (lines', lineLen') ∧
      RowIs lines' lineLen' dstY (left ++ right) ∧ OtherRows dstY lines lines' lineLen lineLen' := by
  obtain ⟨lines1, copied, spec⟩ := copyChars_spec dstY dstX srcY srcX count lines dst src (by omega) (by omega)
  obtain ⟨lines2, ended, _, cells, others⟩ := setChar_spec lines1 dst
    (show 0 ≤ dstX + count ∧ dstX + count < 78 by omega) 0
  obtain ⟨lineLen', set, here, otherLens⟩ := writeCell_spec lineLen dst (dstX + count)
  refine ⟨lines2, lineLen', ?_, ⟨?_, ?_, Spells.append_iff.mpr ⟨front.congr fun k low high => ?_,
    rest.move fun k low high => ?_⟩⟩,
    fun i other => ⟨(others i other).trans (spec.rows i other), otherLens i other⟩⟩
  · simp only [carryChars, copied, set, ended, bind, Option.bind]
  · rw [List.length_append]
    omega
  · rw [List.length_append]
    omega
  · rw [cells k (by omega), spec.outside k (by omega)]
  · rw [cells _ (by omega), show 0 + (left.length : Int) + k = dstX + k by omega,
      spec.inside (.inl apart) k low (by omega)]

theorem endRow_spec {x : Int} (row : RowIs lines lineLen y (left ++ right)) (inside : 0 ≤ y ∧ y < 200) (column : x = left.length) :
    ∃ lines' lineLen', endRow y x (lines, lineLen) = some (lines', lineLen') ∧
      RowIs lines' lineLen' y left ∧ OtherRows y lines lines' lineLen lineLen' := by
  have fits := row.fits
  rw [List.length_append] at fits
  obtain ⟨lines1, ended, _, cells, others⟩ := setChar_spec lines inside (show 0 ≤ x ∧ x < 78 by omega) 0
  obtain ⟨lineLen', set, here, otherLens⟩ := writeCell_spec lineLen inside x
  refine ⟨lines1, lineLen', ?_, ⟨here.trans column, by omega,
    (Spells.append_iff.mp row.spells).1.congr fun k low high => cells k (by omega)⟩,
    fun i other => ⟨others i other, otherLens i other⟩⟩
  simp only [endRow, ended, set, bind, Option.bind]

/-- A row copied to another place, with everything else where it was. -/
theorem copyRow_spec (dst src : Int) (dstOk : 0 ≤ dst ∧ dst < 200) (srcOk : 0 ≤ src ∧ src < 200)
    (apart : dst ≠ src) (row : RowIs lines lineLen src line) :
    ∃ lines' lineLen', copyRow dst src (lines, lineLen) = some (lines', lineLen') ∧
      RowIs lines' lineLen' dst line ∧ OtherRows dst lines lines' lineLen lineLen' := by
  have length := row.length
  have fits := row.fits
  obtain ⟨lines', ran, copied⟩ := copyChars_spec dst 0 src 0 (lineLen src + 1) lines dstOk srcOk (by omega) (by omega)
  obtain ⟨lineLen', set, here, others⟩ := writeCell_spec lineLen dstOk (lineLen src)
  refine ⟨lines', lineLen', ?_, ⟨here.trans length, fits, ?_⟩, fun y other => ⟨copied.rows y other, others y other⟩⟩
  · simp only [copyRow, readCell_eq lineLen srcOk, ran, set, bind, Option.bind]
  · refine row.spells.move fun k low high => ?_
    exact copied.inside (.inl apart) k low (by omega)

theorem copyRowsUp_spec (distance : Int) (up : 0 < distance) {rows : List (List UInt8)}
    (held : Rows lines lineLen (y + distance) rows) (low : 0 ≤ y) (high : y + distance + rows.length ≤ 200) :
    ∃ lines' lineLen', copyRowsUp y (y + rows.length) distance (lines, lineLen) = some (lines', lineLen') ∧
      Rows lines' lineLen' y rows ∧ (∀ i, i < y → lines' i = lines i ∧ lineLen' i = lineLen i) := by
  induction rows generalizing y lines lineLen with
  | nil => exact ⟨lines, lineLen, forUp_done (by simp) _, trivial, fun i _ => ⟨rfl, rfl⟩⟩
  | cons line rest ih =>
    have length : ((line :: rest).length : Int) = rest.length + 1 := by
      simp only [List.length_cons]
      omega
    obtain ⟨mid, midLen, copied, row, frame⟩ :=
      copyRow_spec y (y + distance) (by omega) (by omega) (by omega) held.1
    have later : Rows mid midLen (y + 1 + distance) rest := by
      rw [show y + 1 + distance = y + distance + 1 by omega]
      exact held.2.congr fun i above _ => frame i (by omega)
    obtain ⟨lines', lineLen', ran, moved, kept⟩ := ih later (by omega) (by omega)
    refine ⟨lines', lineLen', ?_, ⟨row.congr (kept y (by omega)), moved⟩, fun i below => ?_⟩
    · rw [copyRowsUp, forUp_next (by omega), copied, length,
        show y + (rest.length + 1 : Int) = y + 1 + rest.length by omega]
      exact ran
    · exact ⟨(kept i (by omega)).1.trans (frame i (by omega)).1, (kept i (by omega)).2.trans (frame i (by omega)).2⟩

/-- Rows that move down by one, the last one first. -/
theorem copyRowsDown_spec {rows : List (List UInt8)} (held : Rows lines lineLen y rows) (low : 0 ≤ y)
    (high : y + rows.length < 200) :
    ∃ lines' lineLen', copyRowsDown (y + rows.length) y (lines, lineLen) = some (lines', lineLen') ∧
      Rows lines' lineLen' (y + 1) rows ∧ (∀ i, i ≤ y → lines' i = lines i ∧ lineLen' i = lineLen i) ∧
      (∀ i, y + rows.length < i → lines' i = lines i ∧ lineLen' i = lineLen i) := by
  induction rows using List.reverseRecOn generalizing lines lineLen with
  | nil => exact ⟨lines, lineLen, forDown_done (by simp) _, trivial, fun i _ => ⟨rfl, rfl⟩, fun i _ => ⟨rfl, rfl⟩⟩
  | append_singleton rest line ih =>
    have length : ((rest ++ [line]).length : Int) = rest.length + 1 := by
      simp only [List.length_append, List.length_singleton]
      omega
    obtain ⟨front, last⟩ := Rows.append_iff.mp held
    obtain ⟨mid, midLen, copied, row, frame⟩ :=
      copyRow_spec (y + rest.length + 1) (y + rest.length) (by omega) (by omega) (by omega) last.1
    have earlier : Rows mid midLen y rest := front.congr fun i _ below => frame i (by omega)
    obtain ⟨lines', lineLen', ran, moved, first, behind⟩ := ih earlier (by omega)
    refine ⟨lines', lineLen', ?_, Rows.append_iff.mpr ⟨moved, ?_, trivial⟩, fun i away => ?_, fun i away => ?_⟩
    · rw [copyRowsDown, length, forDown_next (by omega),
        show y + (rest.length + 1 : Int) = y + rest.length + 1 by omega,
        show y + (rest.length : Int) + 1 - 1 = y + rest.length by omega, copied]
      exact ran
    · rw [show y + 1 + (rest.length : Int) = y + rest.length + 1 by omega]
      exact row.congr (behind _ (by omega))
    · exact ⟨(first i away).1.trans (frame i (by omega)).1, (first i away).2.trans (frame i (by omega)).2⟩
    · exact ⟨(behind i (by omega)).1.trans (frame i (by omega)).1, (behind i (by omega)).2.trans (frame i (by omega)).2⟩

end

theorem markLines_spec (lo hi : Int) (lineDirty : Int → UInt8) (low : 0 ≤ lo) (high : hi ≤ 200) :
    ∃ lineDirty', markLines lo hi lineDirty = some lineDirty' := by
  obtain ⟨lineDirty', ran, _⟩ := forUp_kept lo hi (fun i lineDirty => writeCell 200 lineDirty i 1) lineDirty
    (fun _ => True) (fun i lineDirty above below _ => ⟨_, writeCell_eq lineDirty (by omega) 1, trivial⟩) trivial
  exact ⟨lineDirty', ran⟩

end LivlyOS.Apps
