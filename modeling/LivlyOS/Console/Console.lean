import LivlyOS.Console.Vga

/-! The console in text mode, `use_fb` = 0: each call goes to the VGA and the cursor
follows. -/

namespace LivlyOS.Console

open LivlyOS.Lib

def consolePutchar (c : UInt8) (vga : VgaState) : Option VgaState :=
  (vgaPutchar c vga).bind fun vga => vgaSetCursor vga.col vga.row vga

def consoleSetPos (col row : Int) (vga : VgaState) : Option VgaState :=
  (vgaSetPos col row vga).bind (vgaSetCursor col row)

theorem consoleSetPos_eq (low : 0 ≤ row) (high : row ≤ 25) (left : 0 ≤ col) (right : col < 2 ^ 30) (vga : VgaState) :
    consoleSetPos col row vga = some { vga with col, row, cursor := UInt16.ofInt (row * 80 + col) } := by
  rw [consoleSetPos, vgaSetPos, vgaSetCursor_eq low high left right, Option.bind_some,
    vgaSetCursor_eq low high left right]

namespace VgaState

variable {vga : VgaState}

theorem OnScreen.setCursor (onScreen : vga.OnScreen) :
    vgaSetCursor vga.col vga.row vga = some { vga with cursor := UInt16.ofInt vga.index } :=
  vgaSetCursor_eq onScreen.row.1 (Int.le_of_lt onScreen.row.2) onScreen.col.1
    (Int.lt_trans onScreen.col.2 (by decide)) vga

/-- The end of `vga_putchar`, from a position on the screen or in the row below it. -/
theorem settle (turned : VgaState) (first : (if c = 10 then vgaNewline vga else vgaStore c vga) = some turned)
    (row : 0 ≤ turned.row ∧ turned.row ≤ 25) (col : 0 ≤ turned.col ∧ turned.col < 80) :
    ∃ vga', consolePutchar c vga = some vga' ∧ vga'.OnScreen := by
  have settled : ∃ settled, (if turned.row ≥ 25 then vgaScroll turned else some turned) = some settled ∧
      settled.OnScreen := by
    split
    · obtain ⟨scrolled, ran, last, cols, _⟩ := vgaScroll_spec turned
      exact ⟨scrolled, ran, by rw [last]; decide, by rw [cols]; exact col⟩
    · exact ⟨turned, rfl, ⟨row.1, by omega⟩, col⟩
  obtain ⟨settled, second, onScreen⟩ := settled
  have cursor : VgaState.OnScreen { settled with cursor := UInt16.ofInt settled.index } := ⟨onScreen.row, onScreen.col⟩
  refine ⟨_, ?_, cursor.row, cursor.col⟩
  rw [consolePutchar, vgaPutchar, first, Option.bind_some, second, Option.bind_some, onScreen.setCursor, Option.bind_some]
  exact cursor.setCursor

theorem newline_onScreen (vga : VgaState) (row : 0 ≤ vga.row ∧ vga.row < 25) :
    ∃ vga', consolePutchar 10 vga = some vga' ∧ vga'.OnScreen := by
  apply settle { vga with
    lineLength := Function.update vga.lineLength vga.row vga.col, col := 0, row := vga.row + 1 }
  · rw [if_pos rfl, vgaNewline, writeCell_eq _ row]
    rfl
  · constructor <;> dsimp only <;> omega
  · constructor <;> dsimp only <;> omega

/-- In a row of the screen a character is stored if its cell is on the screen, however far to the
right the column is. -/
theorem putchar_inside (vga : VgaState) (row : 0 ≤ vga.row ∧ vga.row < 25) (col : 0 ≤ vga.col ∧ vga.col < 2 ^ 30)
    (inside : vga.index < 2000) (c : UInt8) : ∃ vga', consolePutchar c vga = some vga' ∧ vga'.OnScreen := by
  by_cases feeds : c = 10
  · rw [feeds]
    exact newline_onScreen vga row
  change vga.row * 80 + vga.col < 2000 at inside
  have stored : ∃ puffer, vgaStore c vga = some (if vga.col + 1 ≥ 80 then { vga with puffer, col := 0, row := vga.row + 1 }
      else { vga with puffer, col := vga.col + 1 }) := by
    refine ⟨Function.update vga.puffer (vga.row * 80 + vga.col) (cellOf c vga.farbe), ?_⟩
    unfold vgaStore
    rw [cellIndex_screen row.1 (Int.le_of_lt row.2) col.1 col.2, checkInt_eq ⟨by omega, by omega⟩]
    change (writeCell 2000 vga.puffer _ _).bind _ = _
    rw [writeCell_eq _ (by omega)]
    rfl
  obtain ⟨puffer, stored⟩ := stored
  apply settle _ ((if_neg feeds).trans stored)
  · split <;> constructor <;> dsimp only <;> omega
  · split <;> constructor <;> dsimp only <;> omega

/-- On the screen the console stays on the screen. -/
theorem OnScreen.putchar (onScreen : vga.OnScreen) (c : UInt8) :
    ∃ vga', consolePutchar c vga = some vga' ∧ vga'.OnScreen := by
  obtain ⟨row, left, right⟩ := onScreen
  apply putchar_inside vga row ⟨left, by omega⟩
  change vga.row * 80 + vga.col < 2000
  omega

/-- A character beyond the last cell is stored outside of the screen memory. -/
theorem putchar_outside (vga : VgaState) (row : 0 ≤ vga.row ∧ vga.row < 25) (col : 0 ≤ vga.col ∧ vga.col < 2 ^ 30)
    (outside : 2000 ≤ vga.index) (plain : c ≠ 10) : consolePutchar c vga = none := by
  change 2000 ≤ vga.row * 80 + vga.col at outside
  have stored : vgaStore c vga = none := by
    unfold vgaStore
    rw [cellIndex_screen row.1 (Int.le_of_lt row.2) col.1 col.2]
    change (writeCell 2000 vga.puffer _ _).bind _ = _
    rw [writeCell, if_neg (by omega)]
    rfl
  rw [consolePutchar, vgaPutchar, if_neg plain, stored]
  rfl

end VgaState

end LivlyOS.Console
