import LivlyOS.Lib.Cells
import LivlyOS.Lib.MachineInt

/-! The text screen of the VGA, 80 columns by 25 rows. A write outside of the screen
memory and arithmetic that leaves the range of an `int` end the run with nothing. -/

namespace LivlyOS.Console

open LivlyOS.Lib

/-- The screen memory, the static variables of vga.c and the cursor in the registers of the
controller. -/
structure VgaState where
  puffer : Int → UInt16
  row : Int
  col : Int
  farbe : UInt8
  lineLength : Int → Int
  cursor : UInt16

/-- The static variables before the first character; the screen memory is the machine's. -/
def vgaStart (puffer : Int → UInt16) : VgaState := ⟨puffer, 0, 0, 0x07, fun _ => 0, 0⟩

/-- `c | (farbe << 8)`; a `char` from 0x80 on is negative, which fills the upper byte. -/
def cellOf (c farbe : UInt8) : UInt16 :=
  (if c < 0x80 then c.toUInt16 else c.toUInt16 ||| 0xFF00) ||| farbe.toUInt16 <<< 8

/-- `row * VGA_BREITE + col` -/
def cellIndex (row col : Int) : Option Int := (checkInt (row * 80)).bind fun line => checkInt (line + col)

def vgaSetCursor (col row : Int) (vga : VgaState) : Option VgaState :=
  (cellIndex row col).map fun pos => { vga with cursor := UInt16.ofInt pos }

/-- The newline of `vga_putchar`. -/
def vgaNewline (vga : VgaState) : Option VgaState :=
  (writeCell 25 vga.lineLength vga.row vga.col).map fun lineLength =>
    { vga with lineLength, col := 0, row := vga.row + 1 }

/-- Any other character of `vga_putchar`. -/
def vgaStore (c : UInt8) (vga : VgaState) : Option VgaState := do
  let index ← cellIndex vga.row vga.col
  let puffer ← writeCell 2000 vga.puffer index (cellOf c vga.farbe)
  let col ← checkInt (vga.col + 1)
  some (if col ≥ 80 then { vga with puffer, col := 0, row := vga.row + 1 } else { vga with puffer, col })

/-- Copy row `z + 1` to row `z`. -/
def copyRow (z : Int) (puffer : Int → UInt16) : Option (Int → UInt16) :=
  forUp 0 80 (fun s puffer => do
    let value ← readCell 2000 puffer ((z + 1) * 80 + s)
    writeCell 2000 puffer (z * 80 + s) value) puffer

/-- Move row `z + 1` up, with its length. -/
def moveRow (z : Int) (vga : VgaState) : Option VgaState := do
  let puffer ← copyRow z vga.puffer
  let length ← readCell 25 vga.lineLength (z + 1)
  let lineLength ← writeCell 25 vga.lineLength z length
  some { vga with puffer, lineLength }

/-- Fill a row with blanks. -/
def blankRow (z : Int) (farbe : UInt8) (puffer : Int → UInt16) : Option (Int → UInt16) :=
  forUp 0 80 (fun s puffer => writeCell 2000 puffer (z * 80 + s) (cellOf 32 farbe)) puffer

/-- The scrolling of `vga_putchar`: rows 1 to 24 move up, the last one is cleared. -/
def vgaScroll (vga : VgaState) : Option VgaState :=
  (forUp 0 24 moveRow vga).bind fun vga =>
    (blankRow 24 vga.farbe vga.puffer).map fun puffer => { vga with puffer, row := 24 }

def vgaPutchar (c : UInt8) (vga : VgaState) : Option VgaState :=
  (if c = 10 then vgaNewline vga else vgaStore c vga).bind fun vga =>
    (if vga.row ≥ 25 then vgaScroll vga else some vga).bind fun vga => vgaSetCursor vga.col vga.row vga

/-- The characters of a text, one after the other. -/
def vgaPrint : List UInt8 → VgaState → Option VgaState
  | [], vga => some vga
  | c :: rest, vga => (vgaPutchar c vga).bind (vgaPrint rest)

def vgaClear (vga : VgaState) : Option VgaState :=
  (forUp 0 2000 (fun i puffer => writeCell 2000 puffer i (cellOf 32 vga.farbe)) vga.puffer).map fun puffer =>
    { vga with puffer, row := 0, col := 0 }

def vgaWriteAt (x y : Int) (c : UInt8) (vga : VgaState) : Option VgaState :=
  if x < 0 ∨ x ≥ 80 then some vga
  else if y < 0 ∨ y ≥ 25 then some vga
  else (writeCell 2000 vga.puffer (y * 80 + x) (cellOf c vga.farbe)).map fun puffer => { vga with puffer }

def vgaClearLine (y : Int) (vga : VgaState) : Option VgaState := forUp 0 80 (fun x => vgaWriteAt x y 32) vga

def vgaSetPos (x y : Int) (vga : VgaState) : Option VgaState := vgaSetCursor x y { vga with col := x, row := y }

/-- The index of the cell at the cursor. -/
def VgaState.index (vga : VgaState) : Int := vga.row * 80 + vga.col

/-- The cursor is on the screen. -/
structure VgaState.OnScreen (vga : VgaState) : Prop where
  row : 0 ≤ vga.row ∧ vga.row < 25
  col : 0 ≤ vga.col ∧ vga.col < 80

theorem cellIndex_eq (lines : FitsInt (row * 80)) (fits : FitsInt (row * 80 + col)) :
    cellIndex row col = some (row * 80 + col) := by
  rw [cellIndex, checkInt_eq lines]
  exact checkInt_eq fits

theorem cellIndex_screen (low : 0 ≤ row) (high : row ≤ 25) (left : 0 ≤ col) (right : col < 2 ^ 30) :
    cellIndex row col = some (row * 80 + col) := by
  apply cellIndex_eq <;> constructor <;> omega

theorem vgaSetCursor_eq (low : 0 ≤ row) (high : row ≤ 25) (left : 0 ≤ col) (right : col < 2 ^ 30) (vga : VgaState) :
    vgaSetCursor col row vga = some { vga with cursor := UInt16.ofInt (row * 80 + col) } := by
  rw [vgaSetCursor, cellIndex_screen low high left right]
  rfl

theorem copyRow_spec (low : 0 ≤ z) (high : z < 24) (puffer : Int → UInt16) :
    ∃ puffer', copyRow z puffer = some puffer' ∧
      (∀ s, 0 ≤ s → s < 80 → puffer' (z * 80 + s) = puffer ((z + 1) * 80 + s)) ∧
      ∀ i, i < z * 80 ∨ (z + 1) * 80 ≤ i → puffer' i = puffer i := by
  unfold copyRow
  obtain ⟨puffer', ran, copied, kept⟩ := forUp_invariant 0 80
    (fun s puffer => (readCell 2000 puffer ((z + 1) * 80 + s)).bind (writeCell 2000 puffer (z * 80 + s))) puffer
    (fun s puffer' => (∀ k, 0 ≤ k → k < s → puffer' (z * 80 + k) = puffer ((z + 1) * 80 + k)) ∧
      ∀ i, i < z * 80 ∨ z * 80 + s ≤ i → puffer' i = puffer i)
    (by
      rintro s puffer' above below ⟨copied, kept⟩
      refine ⟨Function.update puffer' (z * 80 + s) (puffer' ((z + 1) * 80 + s)), ?_, ?_, ?_⟩
      · rw [readCell_eq puffer' (by omega)]
        exact writeCell_eq puffer' (by omega) _
      · intro k first last
        by_cases here : k = s
        · rw [here, Function.update_self, kept _ (by omega)]
        · rw [Function.update_of_ne (by omega), copied k first (by omega)]
      · intro i outside
        rw [Function.update_of_ne (by omega), kept i (by omega)])
    (by omega) ⟨fun k first last => absurd first (by omega), fun _ _ => rfl⟩
  exact ⟨puffer', ran, copied, fun i outside => kept i (by omega)⟩

theorem moveRows_spec (vga : VgaState) :
    ∃ moved, forUp 0 24 moveRow vga = some moved ∧ moved.col = vga.col ∧ moved.farbe = vga.farbe ∧
      ∀ i, 0 ≤ i → i < 1920 → moved.puffer i = vga.puffer (i + 80) := by
  obtain ⟨moved, ran, cols, same, shifted, _⟩ := forUp_invariant 0 24 moveRow vga
    (fun z moved => moved.col = vga.col ∧ moved.farbe = vga.farbe ∧
      (∀ i, 0 ≤ i → i < z * 80 → moved.puffer i = vga.puffer (i + 80)) ∧
      ∀ i, z * 80 ≤ i → moved.puffer i = vga.puffer i)
    (by
      rintro z moved above below ⟨cols, same, shifted, kept⟩
      obtain ⟨puffer, copies, copied, others⟩ := copyRow_spec above below moved.puffer
      refine ⟨{ moved with puffer, lineLength := Function.update moved.lineLength z (moved.lineLength (z + 1)) },
        ?_, cols, same, ?_, ?_⟩
      · change (copyRow z moved.puffer).bind _ = _
        rw [copies, Option.bind_some, readCell_eq _ (by omega)]
        change (writeCell 25 moved.lineLength z _).bind _ = _
        rw [writeCell_eq _ (by omega)]
        rfl
      · intro i low high
        by_cases early : i < z * 80
        · exact (others i (.inl early)).trans (shifted i low early)
        · have cell := copied (i - z * 80) (by omega) (by omega)
          rw [show z * 80 + (i - z * 80) = i by omega, show (z + 1) * 80 + (i - z * 80) = i + 80 by omega] at cell
          exact cell.trans (kept _ (by omega))
      · intro i late
        exact (others i (.inr late)).trans (kept i (by omega)))
    (by omega) ⟨rfl, rfl, fun i low high => absurd low (by omega), fun _ _ => rfl⟩
  exact ⟨moved, ran, cols, same, fun i low high => shifted i low (by omega)⟩

theorem blankRow_spec (low : 0 ≤ z) (high : z < 25) (farbe : UInt8) (puffer : Int → UInt16) :
    ∃ puffer', blankRow z farbe puffer = some puffer' ∧
      (∀ i, z * 80 ≤ i → i < (z + 1) * 80 → puffer' i = cellOf 32 farbe) ∧
      ∀ i, i < z * 80 ∨ (z + 1) * 80 ≤ i → puffer' i = puffer i := by
  obtain ⟨puffer', cleared, blank, kept⟩ := forUp_invariant 0 80
    (fun s puffer => writeCell 2000 puffer (z * 80 + s) (cellOf 32 farbe)) puffer
    (fun s puffer' => (∀ i, z * 80 ≤ i → i < z * 80 + s → puffer' i = cellOf 32 farbe) ∧
      ∀ i, i < z * 80 ∨ z * 80 + s ≤ i → puffer' i = puffer i)
    (by
      rintro s puffer' above below ⟨blank, kept⟩
      refine ⟨_, writeCell_eq puffer' (by omega) _, ?_, ?_⟩
      · intro i first last
        by_cases here : i = z * 80 + s
        · rw [here, Function.update_self]
        · rw [Function.update_of_ne here, blank i first (by omega)]
      · intro i outside
        rw [Function.update_of_ne (by omega), kept i (by omega)])
    (by omega) ⟨fun i first last => absurd first (by omega), fun _ _ => rfl⟩
  exact ⟨puffer', cleared, fun i first last => blank i first (by omega), fun i outside => kept i (by omega)⟩

/-- Scrolling moves every row up by one and leaves the cursor in the last one. -/
theorem vgaScroll_spec (vga : VgaState) :
    ∃ scrolled, vgaScroll vga = some scrolled ∧ scrolled.row = 24 ∧ scrolled.col = vga.col ∧
      scrolled.farbe = vga.farbe ∧ (∀ i, 0 ≤ i → i < 1920 → scrolled.puffer i = vga.puffer (i + 80)) ∧
      ∀ i, 1920 ≤ i → i < 2000 → scrolled.puffer i = cellOf 32 vga.farbe := by
  obtain ⟨moved, ran, cols, same, shifted⟩ := moveRows_spec vga
  obtain ⟨puffer, cleared, blank, kept⟩ := @blankRow_spec 24 (by omega) (by omega) moved.farbe moved.puffer
  refine ⟨{ moved with puffer, row := 24 }, ?_, rfl, cols, same, ?_, ?_⟩
  · rw [vgaScroll, ran, Option.bind_some, cleared]
    rfl
  · intro i low high
    exact (kept i (by omega)).trans (shifted i low high)
  · intro i low high
    rw [← same]
    exact blank i low high

end LivlyOS.Console
