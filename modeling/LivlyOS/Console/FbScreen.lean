import LivlyOS.Console.FbConsole

/-! The framebuffer console as a screen of characters. A cell has a character in two colours, and
its last two pixel rows are painted over where a cursor has been. -/

namespace LivlyOS.Console

open LivlyOS.Lib

theorem paint_spec (fb : Framebuffer) (left top w h : Int) (color : Int → Int → UInt32) (mem : Bytes) (size : 0 ≤ w ∧ 0 ≤ h)
    (columns : FitsInt left ∧ FitsInt (left + w)) (lines : FitsInt top ∧ FitsInt (top + h)) :
    ∃ mem', forUp 0 h (fun dy => forUp 0 w (fun dx mem => do
        let px ← checkInt (left + dx)
        let py ← checkInt (top + dy)
        some (fbDrawPixel fb px py (color dy dx) mem))) mem = some mem' ∧ ∀ x y : Nat, x < fb.width → y < fb.height →
      pixel fb mem' x y = if (left ≤ x ∧ x < left + w) ∧ top ≤ y ∧ y < top + h
        then (color (y - top) (x - left)).toNat else pixel fb mem x y := by
  obtain ⟨⟨farLeft, _⟩, _, farRight⟩ := columns
  obtain ⟨⟨upper, _⟩, _, bottom⟩ := lines
  refine forUp_invariant 0 h _ mem (fun dy mem' => ∀ x y : Nat, x < fb.width → y < fb.height →
    pixel fb mem' x y = if (left ≤ x ∧ x < left + w) ∧ top ≤ y ∧ y < top + dy
      then (color (y - top) (x - left)).toNat else pixel fb mem x y)
    ?_ size.2 fun x y _ _ => (if_neg (by omega)).symm
  intro dy rows above below painted
  obtain ⟨next, ran, painted'⟩ := forUp_invariant 0 w
    (fun dx mem => (checkInt (left + dx)).bind fun px => (checkInt (top + dy)).bind fun py =>
      some (fbDrawPixel fb px py (color dy dx) mem)) rows
    (fun dx mem' => ∀ x y : Nat, x < fb.width → y < fb.height →
      pixel fb mem' x y = if (left ≤ x ∧ x < left + dx) ∧ (y : Int) = top + dy
        then (color (y - top) (x - left)).toNat else pixel fb rows x y)
    (by
      intro dx cells first last painted
      refine ⟨fbDrawPixel fb (left + dx) (top + dy) (color dy dx) cells, ?_, fun x y wide high => ?_⟩
      · rw [checkInt_eq ⟨by omega, by omega⟩, Option.bind_some, checkInt_eq ⟨by omega, by omega⟩, Option.bind_some]
      · rw [pixel_draw wide high, painted x y wide high]
        by_cases here : left + dx = x ∧ top + dy = y
        · rw [if_pos here, if_pos (by omega), show (y : Int) - top = dy by omega, show (x : Int) - left = dx by omega]
        · rw [if_neg here]
          congr 1
          apply propext
          omega)
    size.1 fun x y _ _ => (if_neg (by omega)).symm
  refine ⟨next, ran, fun x y wide high => ?_⟩
  rw [painted' x y wide high, painted x y wide high]
  by_cases here : (left ≤ x ∧ x < left + w) ∧ (y : Int) = top + dy
  · rw [if_pos here, if_pos (by omega)]
  · rw [if_neg here]
    congr 1
    apply propext
    omega

theorem fbClear_spec (fb : Framebuffer) (color : UInt32) (mem : Bytes) :
    ∃ mem', fbClear fb color mem = some mem' ∧ ∀ x y, x < fb.width → y < fb.height → pixel fb mem' x y = color.toNat := by
  have width := fb.width_lt
  have height := fb.height_lt
  have same : fbClear fb color mem = fbDrawRect fb 0 0 fb.width fb.height color mem := by
    refine forUp_congr (fun y mem low high => forUp_congr (fun x mem left right => ?_) mem) mem
    have inside : fbInBounds fb x y := ⟨left, low, by omega, by omega⟩
    have drawn : fbDrawPixel fb x y color mem = putWord mem (pixelAddress fb x.toNat y.toNat) 4 color.toNat := if_pos inside
    rw [Int.zero_add, Int.zero_add, checkInt_eq ⟨by omega, by omega⟩, checkInt_eq ⟨by omega, by omega⟩, ← drawn]
    rfl
  obtain ⟨mem', ran, painted⟩ := fbDrawRect_spec fb 0 0 fb.width fb.height color mem ⟨by omega, by omega⟩ ⟨by omega, by omega⟩
    ⟨⟨by omega, by omega⟩, by omega, by omega⟩
  refine ⟨mem', same.trans ran, fun x y wide high => ?_⟩
  rw [painted x y wide high, if_pos (by omega)]

structure Cell where
  char : UInt8
  fg : UInt32
  bg : UInt32
  mark : Option UInt32

namespace Cell

/-- The colour of a pixel of the character. -/
def glyph (cell : Cell) (dx dy : Nat) : UInt32 := if glyphBit cell.char dy dx then cell.fg else cell.bg

def pixel (cell : Cell) (dx dy : Nat) : UInt32 := if 14 ≤ dy then cell.mark.getD (cell.glyph dx dy) else cell.glyph dx dy

end Cell

theorem Cell.pixel_blank (fg bg : UInt32) (inside : dx < 8) (below : dy < 16) : (⟨0x20, fg, bg, none⟩ : Cell).pixel dx dy = bg := by
  have clear : ∀ dy < 16, ∀ dx < 8, glyphBit 0x20 dy dx = false := by decide
  simp [Cell.pixel, Cell.glyph, clear dy below dx inside]

/-- The text screen that the console draws: `cols` by `rows` whole cells, the position of the next
character, the colours, the last drawn cursor and the cells by row and column. -/
structure TextScreen where
  cols : Nat
  rows : Nat
  col : Nat
  row : Nat
  fg : UInt32
  bg : UInt32
  last : Int × Int
  cell : Nat → Nat → Cell

/-- The pixels are those of the cells. -/
def Renders (fb : Framebuffer) (mem : Bytes) (cell : Nat → Nat → Cell) : Prop :=
  ∀ x y, x < fb.width → y < fb.height → pixel fb mem x y = ((cell (y / 16) (x / 8)).pixel (x % 8) (y % 16)).toNat

namespace TextScreen

/-- Change the cell at a position; no cell is left of or above the screen. -/
def change (screen : TextScreen) (col row : Int) (next : Cell → Cell) : TextScreen :=
  { screen with cell := fun r c => if (c : Int) = col ∧ (r : Int) = row then next (screen.cell r c) else screen.cell r c }

theorem change_cell (screen : TextScreen) (col row : Int) (next : Cell → Cell) (r c : Nat) : (screen.change col row next).cell r c =
    if (c : Int) = col ∧ (r : Int) = row then next (screen.cell r c) else screen.cell r c := rfl

def draw (screen : TextScreen) (col row : Int) (char : UInt8) (fg bg : UInt32) : TextScreen :=
  screen.change col row fun _ => ⟨char, fg, bg, none⟩

def mark (screen : TextScreen) (col row : Int) (color : UInt32) : TextScreen :=
  screen.change col row fun cell => { cell with mark := some color }

/-- The old mark takes the background colour, the new one the colour of the text. -/
def setCursor (screen : TextScreen) (col row : Int) : TextScreen :=
  { (screen.mark screen.last.1 screen.last.2 screen.bg).mark col row screen.fg with last := (col, row) }

def newline (screen : TextScreen) : TextScreen := { screen with col := 0, row := min (screen.row + 1) (screen.rows - 1) }

def blank (screen : TextScreen) : Cell := ⟨0x20, screen.fg, screen.bg, none⟩

def putchar (screen : TextScreen) (c : UInt8) : TextScreen :=
  if c = 10 then screen.newline
  else
    let drawn := screen.draw screen.col screen.row c screen.fg screen.bg
    if screen.col + 1 < screen.cols then { drawn with col := screen.col + 1 } else drawn.newline

def backspace (screen : TextScreen) : TextScreen :=
  if 0 < screen.col then erase { screen with col := screen.col - 1 }
  else if 0 < screen.row then erase { screen with row := screen.row - 1, col := screen.cols - 1 }
  else screen
where
  erase (screen : TextScreen) : TextScreen := screen.draw screen.col screen.row 0x20 screen.fg screen.bg

def writeStr (screen : TextScreen) (x y : Int) : List UInt8 → TextScreen
  | [] => screen
  | c :: rest => (screen.draw x y c screen.fg screen.bg).writeStr (x + 1) y rest

/-- What a call does to the screen. -/
def after (screen : TextScreen) : ConsoleCall → TextScreen
  | .putchar c => let screen := screen.putchar c; screen.setCursor screen.col screen.row
  | .clear => { screen with cell := fun _ _ => screen.blank, col := 0, row := 0 }
  | .setColor fg bg => { screen with bg := if bg ≠ 0 then bg else colorBlack, fg := if fg ≠ 0 then fg else colorWhite }
  | .setPos col row => { screen with
      col := if 0 ≤ col ∧ col < screen.cols then col.toNat else screen.col
      row := if 0 ≤ row ∧ row < screen.rows then row.toNat else screen.row }.setCursor col row
  | .backspace => screen.backspace
  | .setCursor col row => screen.setCursor col row
  | .writeAt x y c => screen.draw x y c screen.fg screen.bg
  | .writeStrAt x y s => screen.writeStr x y s
  | .clearLine y => { screen with cell := fun r c => if y ≤ r then screen.blank else screen.cell r c }
  | .writeAtColor x y c color =>
      screen.draw x y c (vgaPalette.getD (color &&& 0x0F).toNat 0) (vgaPalette.getD ((color >>> 4) &&& 0x0F).toNat 0)

end TextScreen

/-- Coordinates whose pixels an `int` can count. -/
def Near (value : Int) : Prop := -2 ^ 26 < value ∧ value < 2 ^ 26

instance (value : Int) : Decidable (Near value) := inferInstanceAs (Decidable (_ ∧ _))

/-- The calls keep to such coordinates, and clear no line above the screen. -/
def ConsoleCall.InRange : ConsoleCall → Prop
  | .setPos col row => Near col ∧ Near row
  | .setCursor col row => Near col ∧ Near row
  | .writeAt x y _ => Near x ∧ Near y
  | .writeStrAt x y s => (Near x ∧ Near (x + s.length)) ∧ Near y
  | .clearLine y => 0 ≤ y ∧ Near y
  | .writeAtColor x y _ _ => Near x ∧ Near y
  | _ => True

/-- The console is at the position of the screen, and the pixels are those of its cells. -/
structure ShowsScreen (fb : Framebuffer) (console : FbConsole) (screen : TextScreen) : Prop where
  device : console.fb = fb
  cols : console.maxCols = screen.cols
  rows : console.maxRows = screen.rows
  col : console.cursorCol = screen.col
  row : console.cursorRow = screen.row
  fg : console.fgColor = screen.fg
  bg : console.bgColor = screen.bg
  last : (console.lastCursorCol, console.lastCursorRow) = screen.last
  wide : screen.col < screen.cols ∧ screen.cols ≤ 2 ^ 13
  high : screen.row < screen.rows ∧ screen.rows ≤ 2 ^ 12
  near : Near screen.last.1 ∧ Near screen.last.2
  pixels : Renders fb console.mem screen.cell

section Cells

variable {console : FbConsole} {screen : TextScreen}

theorem renders_change {fb : Framebuffer} {mem mem' : Bytes} (renders : Renders fb mem screen.cell) {x y : Int}
    {next : Cell → Cell} (skip : Int) (skips : 0 ≤ skip) (color : Int → Int → UInt32)
    (painted : ∀ px py : Nat, px < fb.width → py < fb.height → pixel fb mem' px py =
      if (x * 8 ≤ px ∧ px < x * 8 + 8) ∧ y * 16 + skip ≤ py ∧ py < y * 16 + 16
      then (color (py - (y * 16 + skip)) (px - x * 8)).toNat else pixel fb mem px py)
    (inside : ∀ cell dx dy, dx < 8 → dy < 16 →
      (next cell).pixel dx dy = if skip ≤ dy then color (dy - skip) dx else cell.pixel dx dy) :
    Renders fb mem' (screen.change x y next).cell := by
  intro px py wide high
  rw [painted px py wide high, TextScreen.change_cell]
  by_cases here : ((px / 8 : Nat) : Int) = x ∧ ((py / 16 : Nat) : Int) = y
  · rw [if_pos here, inside _ _ _ (Nat.mod_lt _ (by decide)) (Nat.mod_lt _ (by decide))]
    by_cases below : skip ≤ (py % 16 : Nat)
    · rw [if_pos below, if_pos (by omega)]
      congr 2
      · omega
      · omega
    · rw [if_neg below, if_neg (by omega), renders px py wide high]
  · rw [if_neg here, if_neg (by omega), renders px py wide high]

theorem drawCharAt_spec (renders : Renders console.fb console.mem screen.cell) (near : Near x ∧ Near y) (c : UInt8) (fg bg : UInt32) :
    ∃ mem, drawCharAt x y c fg bg console = some { console with mem } ∧ Renders console.fb mem (screen.draw x y c fg bg).cell := by
  obtain ⟨⟨left, right⟩, top, bottom⟩ := near
  obtain ⟨mem, drawn, painted⟩ := paint_spec console.fb (x * 8) (y * 16) 8 16
    (fun row col => if glyphBit c row.toNat col.toNat then fg else bg) console.mem (by decide)
    ⟨⟨by omega, by omega⟩, by omega, by omega⟩ ⟨⟨by omega, by omega⟩, by omega, by omega⟩
  refine ⟨mem, ?_, ?_⟩
  · change (checkInt (x * 8)).bind _ = _
    rw [checkInt_eq ⟨by omega, by omega⟩, Option.bind_some]
    change (checkInt (y * 16)).bind _ = _
    rw [checkInt_eq ⟨by omega, by omega⟩, Option.bind_some]
    change (fbDrawChar console.fb (x * 8) (y * 16) c fg bg console.mem).bind _ = _
    rw [fbDrawChar, drawn]
    rfl
  · refine renders_change renders 0 (Int.le_refl 0) (fun row col => if glyphBit c row.toNat col.toNat then fg else bg)
      (fun px py wide high => ?_) fun cell dx dy _ _ => ?_
    · rw [painted px py wide high, Int.add_zero]
    · simp [Cell.pixel, Cell.glyph]

theorem drawMark_spec (renders : Renders console.fb console.mem screen.cell) (near : Near x ∧ Near y) (color : UInt32) :
    ∃ mem, drawMark x y color console = some { console with mem } ∧ Renders console.fb mem (screen.mark x y color).cell := by
  obtain ⟨⟨left, right⟩, top, bottom⟩ := near
  obtain ⟨mem, drawn, painted⟩ := paint_spec console.fb (x * 8) (y * 16 + 14) 8 2 (fun _ _ => color) console.mem (by decide)
    ⟨⟨by omega, by omega⟩, by omega, by omega⟩ ⟨⟨by omega, by omega⟩, by omega, by omega⟩
  refine ⟨mem, ?_, ?_⟩
  · change (checkInt (x * 8)).bind _ = _
    rw [checkInt_eq ⟨by omega, by omega⟩, Option.bind_some]
    change (checkInt (y * 16)).bind _ = _
    rw [checkInt_eq ⟨by omega, by omega⟩, Option.bind_some]
    change (checkInt (y * 16 + 14)).bind _ = _
    rw [checkInt_eq ⟨by omega, by omega⟩, Option.bind_some]
    change (fbDrawRect console.fb (x * 8) (y * 16 + 14) 8 2 color console.mem).bind _ = _
    rw [show fbDrawRect console.fb (x * 8) (y * 16 + 14) 8 2 color console.mem = some mem from drawn]
    rfl
  · refine renders_change renders 14 (by decide) (fun _ _ => color) (fun px py wide high => ?_) fun cell dx dy _ _ => ?_
    · rw [painted px py wide high, show y * 16 + 14 + 2 = y * 16 + 16 by omega]
    · simp only [Cell.pixel, Option.getD_some]
      split <;> split <;> first | rfl | omega

end Cells

namespace ShowsScreen

variable {fb : Framebuffer} {console : FbConsole} {screen : TextScreen} (shows : ShowsScreen fb console screen)
include shows

theorem nearCursor : Near console.cursorCol ∧ Near console.cursorRow := by
  have wide := shows.wide
  have high := shows.high
  rw [shows.col, shows.row]
  constructor <;> constructor <;> omega

theorem drawAt (near : Near x ∧ Near y) (c : UInt8) (fg bg : UInt32) :
    ∃ console', drawCharAt x y c fg bg console = some console' ∧ ShowsScreen fb console' (screen.draw x y c fg bg) := by
  obtain rfl := shows.device
  obtain ⟨mem, drawn, renders⟩ := drawCharAt_spec shows.pixels near c fg bg
  exact ⟨_, drawn, { shows with pixels := renders }⟩

theorem markAt (near : Near x ∧ Near y) (color : UInt32) :
    ∃ console', drawMark x y color console = some console' ∧ ShowsScreen fb console' (screen.mark x y color) := by
  obtain rfl := shows.device
  obtain ⟨mem, drawn, renders⟩ := drawMark_spec shows.pixels near color
  exact ⟨_, drawn, { shows with pixels := renders }⟩

theorem unmark : ∃ console', eraseMark console = some console' ∧
    ShowsScreen fb console' (screen.mark screen.last.1 screen.last.2 screen.bg) := by
  rw [eraseMark, ← shows.last, ← shows.bg]
  have near := shows.near
  rw [← shows.last] at near
  split
  · exact shows.markAt near _
  · refine ⟨console, rfl, { shows with pixels := ?_ }⟩
    have outside : (screen.mark console.lastCursorCol console.lastCursorRow console.bgColor).cell = screen.cell := by
      funext r c
      rw [TextScreen.mark, TextScreen.change_cell, if_neg (by omega)]
    rw [outside]
    exact shows.pixels

theorem setCursor (near : Near x ∧ Near y) :
    ∃ console', fbConsoleSetCursor x y console = some console' ∧ ShowsScreen fb console' (screen.setCursor x y) := by
  obtain ⟨mid, erased, shows'⟩ := shows.unmark
  obtain ⟨last, drawn, shows''⟩ := shows'.markAt near mid.fgColor
  refine ⟨{ last with lastCursorCol := x, lastCursorRow := y }, ?_, ?_⟩
  · rw [fbConsoleSetCursor, erased]
    change (drawMark x y mid.fgColor mid).bind _ = _
    rw [drawn]
    rfl
  · rw [shows'.fg] at shows''
    exact { shows'' with last := rfl, near }

theorem newline (x : Int) : ∃ console', fbNewline { console with cursorCol := x } = some console' ∧
    ShowsScreen fb console' screen.newline := by
  obtain ⟨top, high⟩ := shows.high
  have wide := shows.wide
  refine ⟨{ console with cursorCol := 0, cursorRow := (min (screen.row + 1) (screen.rows - 1) : Nat) }, ?_,
    { shows with col := rfl, row := rfl, wide := ⟨by change 0 < screen.cols; omega, wide.2⟩, high := ⟨?_, high⟩ }⟩
  · simp only [fbNewline, shows.row, shows.rows]
    rw [checkInt_eq ⟨by omega, by omega⟩, Option.bind_some]
    split
    · change (checkInt ((screen.rows : Int) - 1)).map _ = _
      rw [checkInt_eq ⟨by omega, by omega⟩, Option.map_some, show (screen.rows : Int) - 1 = (min (screen.row + 1) (screen.rows - 1) : Nat) by omega]
    · rw [show (screen.row : Int) + 1 = (min (screen.row + 1) (screen.rows - 1) : Nat) by omega]
  · change min (screen.row + 1) (screen.rows - 1) < screen.rows
    omega

theorem putchar (c : UInt8) :
    ∃ console', fbConsolePutchar c console = some console' ∧ ShowsScreen fb console' (screen.putchar c) := by
  rw [fbConsolePutchar, TextScreen.putchar]
  split
  · exact shows.newline console.cursorCol
  · obtain ⟨wide, small⟩ := shows.wide
    obtain ⟨drawn, ran, shows'⟩ := shows.drawAt shows.nearCursor c console.fgColor console.bgColor
    rw [shows.fg, shows.bg, shows.col, shows.row] at shows' ran
    have col : drawn.cursorCol = screen.col := shows'.col
    have cols : drawn.maxCols = screen.cols := shows'.cols
    rw [shows.fg, shows.bg, shows.col, shows.row, ran]
    change ∃ console', ((checkInt (drawn.cursorCol + 1)).bind fun cursorCol => _) = _ ∧ _
    rw [col, checkInt_eq ⟨by omega, by omega⟩, Option.bind_some]
    by_cases more : screen.col + 1 < screen.cols
    · rw [if_neg (by rw [cols]; omega), if_pos more]
      exact ⟨_, rfl, { shows' with col := rfl, wide := ⟨more, small⟩ }⟩
    · rw [if_pos (by rw [cols]; omega), if_neg more]
      exact shows'.newline _

theorem backspace : ∃ console', fbConsoleBackspace console = some console' ∧ ShowsScreen fb console' screen.backspace := by
  obtain ⟨wide, small⟩ := shows.wide
  obtain ⟨high, few⟩ := shows.high
  have erase : ∀ (x y : Int) (col row : Nat), x = col → y = row → col < screen.cols → row < screen.rows → ∃ console',
      fbConsoleBackspace.erase { console with cursorCol := x, cursorRow := y } = some console' ∧
        ShowsScreen fb console' (TextScreen.backspace.erase { screen with col, row }) := by
    rintro _ _ col row rfl rfl left top
    have moved : ShowsScreen fb { console with cursorCol := col, cursorRow := row } { screen with col, row } :=
      { shows with col := rfl, row := rfl, wide := ⟨left, small⟩, high := ⟨top, few⟩ }
    have drawn := moved.drawAt moved.nearCursor 0x20 console.fgColor console.bgColor
    rw [shows.fg, shows.bg] at drawn
    rw [fbConsoleBackspace.erase]
    simp only [shows.fg, shows.bg]
    exact drawn
  have col := shows.col
  have row := shows.row
  rw [fbConsoleBackspace, TextScreen.backspace]
  by_cases inLine : 0 < screen.col
  · rw [if_pos (by omega), if_pos inLine]
    exact erase (console.cursorCol - 1) console.cursorRow (screen.col - 1) screen.row (by omega) row (by omega) high
  · rw [if_neg (by omega), if_neg inLine]
    by_cases below : 0 < screen.row
    · have cols := shows.cols
      rw [if_pos (by omega), if_pos below, checkInt_eq ⟨by omega, by omega⟩, Option.bind_some]
      exact erase (console.maxCols - 1) (console.cursorRow - 1) (screen.cols - 1) (screen.row - 1) (by omega) (by omega)
        (by omega) (by omega)
    · rw [if_neg (by omega), if_neg below]
      exact ⟨console, rfl, shows⟩

theorem writeStr (s : List UInt8) (near : Near x ∧ Near (x + s.length)) (line : Near y) :
    ∃ console', fbConsoleWriteStrAt x y s console = some console' ∧ ShowsScreen fb console' (screen.writeStr x y s) := by
  induction s generalizing x console screen with
  | nil => exact ⟨console, rfl, shows⟩
  | cons c rest ih =>
    obtain ⟨⟨left, right⟩, left', right'⟩ := near
    rw [List.length_cons] at left' right'
    obtain ⟨drawn, ran, shows'⟩ := shows.drawAt ⟨⟨left, right⟩, line⟩ c console.fgColor console.bgColor
    obtain ⟨final, later, shows''⟩ := ih (x := x + 1) shows' ⟨⟨by omega, by omega⟩, by omega, by omega⟩
    refine ⟨final, ?_, ?_⟩
    · change (drawCharAt x y c console.fgColor console.bgColor console).bind _ = _
      rw [ran, Option.bind_some]
      change (checkInt (x + 1)).bind _ = _
      rw [checkInt_eq ⟨by omega, by omega⟩, Option.bind_some, later]
    · rw [shows.fg, shows.bg] at shows''
      exact shows''

theorem clear : ∃ console', fbConsoleClear console = some console' ∧ ShowsScreen fb console' (screen.after .clear) := by
  obtain rfl := shows.device
  obtain ⟨mem, ran, painted⟩ := fbClear_spec console.fb console.bgColor console.mem
  refine ⟨{ console with mem, cursorCol := 0, cursorRow := 0 }, by rw [fbConsoleClear, ran]; rfl, ?_⟩
  have wide := shows.wide
  have high := shows.high
  refine { shows with col := rfl, row := rfl, wide := ⟨by change 0 < screen.cols; omega, wide.2⟩, high := ⟨by change 0 < screen.rows; omega, high.2⟩, pixels := ?_ }
  intro x y inside below
  change _ = (screen.blank.pixel _ _).toNat
  rw [painted x y inside below, TextScreen.blank, Cell.pixel_blank _ _ (Nat.mod_lt _ (by decide)) (Nat.mod_lt _ (by decide)), shows.bg]

theorem setPos (near : Near x ∧ Near y) :
    ∃ console', fbConsoleSetCursor x y (fbConsoleSetPos x y console) = some console' ∧
      ShowsScreen fb console' (screen.after (.setPos x y)) := by
  refine ShowsScreen.setCursor ?_ near
  obtain ⟨wide, small⟩ := shows.wide
  obtain ⟨high, few⟩ := shows.high
  refine { shows with col := ?_, row := ?_, wide := ⟨?_, small⟩, high := ⟨?_, few⟩ }
  · simp only [fbConsoleSetPos, shows.cols, shows.col]
    split <;> split <;> omega
  · simp only [fbConsoleSetPos, shows.rows, shows.row]
    split <;> split <;> omega
  · dsimp only
    split <;> omega
  · dsimp only
    split <;> omega

theorem clearLine (low : 0 ≤ y) (near : Near y) :
    ∃ console', (fbConsoleClearLine console.fb console.bgColor y console.mem).map (fun mem => { console with mem }) = some console' ∧
      ShowsScreen fb console' (screen.after (.clearLine y)) := by
  obtain rfl := shows.device
  obtain ⟨_, right⟩ := near
  have width := console.fb.width_lt
  have height := console.fb.height_lt
  obtain ⟨mem, ran, painted⟩ := fbDrawRect_spec console.fb 0 (y * 16) console.fb.width console.fb.height console.bgColor console.mem
    ⟨by omega, by omega⟩ ⟨by omega, by omega⟩ ⟨⟨by omega, by omega⟩, by omega, by omega⟩
  refine ⟨{ console with mem }, ?_, { shows with pixels := fun px py wide high => ?_ }⟩
  · rw [fbConsoleClearLine, checkInt_eq ⟨by omega, by omega⟩, Option.bind_some, ran]
    rfl
  · rw [painted px py wide high]
    change _ = (Cell.pixel (if y ≤ (py / 16 : Nat) then screen.blank else screen.cell (py / 16) (px / 8)) _ _).toNat
    by_cases below : y ≤ (py / 16 : Nat)
    · rw [if_pos (by omega), if_pos below, TextScreen.blank,
        Cell.pixel_blank _ _ (Nat.mod_lt _ (by decide)) (Nat.mod_lt _ (by decide)), shows.bg]
    · rw [if_neg (by omega), if_neg below, shows.pixels px py wide high]

theorem call {call : ConsoleCall} (inRange : call.InRange) :
    ∃ console', call.run console = some console' ∧ ShowsScreen fb console' (screen.after call) := by
  cases call with
  | putchar c =>
    obtain ⟨mid, put, shows'⟩ := shows.putchar c
    obtain ⟨final, moved, shows''⟩ := shows'.setCursor shows'.nearCursor
    rw [shows'.col, shows'.row] at shows''
    exact ⟨final, by rw [ConsoleCall.run, put, Option.bind_some, moved], shows''⟩
  | clear => exact shows.clear
  | setColor fg bg => exact ⟨_, rfl, { shows with fg := rfl, bg := rfl }⟩
  | setPos col row => exact shows.setPos inRange
  | backspace => exact shows.backspace
  | setCursor col row => exact shows.setCursor inRange
  | writeAt x y c =>
    have drawn := shows.drawAt inRange c console.fgColor console.bgColor
    rw [shows.fg, shows.bg] at drawn
    rw [ConsoleCall.run, fbConsoleWriteAt, shows.fg, shows.bg]
    exact drawn
  | writeStrAt x y s => exact shows.writeStr s inRange.1 inRange.2
  | clearLine y => exact shows.clearLine inRange.1 inRange.2
  | writeAtColor x y c color => exact shows.drawAt inRange c _ _

theorem calls (calls : List ConsoleCall) (inRange : ∀ call ∈ calls, call.InRange) :
    ∃ console', runCalls calls console = some console' ∧ ShowsScreen fb console' (calls.foldl TextScreen.after screen) := by
  induction calls generalizing console screen with
  | nil => exact ⟨console, rfl, shows⟩
  | cons call rest ih =>
    obtain ⟨mid, ran, shows'⟩ := shows.call (inRange call List.mem_cons_self)
    obtain ⟨final, later, shows''⟩ := ih shows' fun other member => inRange other (List.mem_cons_of_mem _ member)
    exact ⟨final, by rw [runCalls, ran, Option.bind_some, later], shows''⟩

end ShowsScreen

/-- The screen after `fb_console_init`. -/
def TextScreen.start (cols rows : Nat) : TextScreen where
  cols
  rows
  col := 0
  row := 0
  fg := colorWhite
  bg := colorBlack
  last := (-1, -1)
  cell := fun _ _ => ⟨0x20, colorWhite, colorBlack, none⟩

theorem fbConsoleInit_shows {fb : Framebuffer} {console : FbConsole} (check : framebufferCheck fb bpp) (wide : 8 ≤ fb.width)
    (high : 16 ≤ fb.height) (fresh : console.lastCursorCol = -1 ∧ console.lastCursorRow = -1) :
    ∃ started, fbConsoleInit fb bpp console = some started ∧
      ShowsScreen fb started (TextScreen.start (fb.width / 8) (fb.height / 16)) := by
  obtain ⟨mem, ran, painted⟩ := fbClear_spec fb colorBlack console.mem
  have width := fb.width_lt
  have height := fb.height_lt
  rw [fbConsoleInit, if_pos check, ran, Option.map_some]
  refine ⟨_, rfl, rfl, rfl, rfl, rfl, rfl, rfl, rfl, Prod.ext fresh.1 fresh.2, ⟨?_, ?_⟩, ⟨?_, ?_⟩,
    (by decide : Near (-1) ∧ Near (-1)), fun x y inside below => ?_⟩
  · change 0 < fb.width / 8
    omega
  · change fb.width / 8 ≤ 2 ^ 13
    omega
  · change 0 < fb.height / 16
    omega
  · change fb.height / 16 ≤ 2 ^ 12
    omega
  · change pixel fb mem x y = (Cell.pixel ⟨0x20, colorWhite, colorBlack, none⟩ (x % 8) (y % 16)).toNat
    rw [painted x y inside below, Cell.pixel_blank _ _ (Nat.mod_lt _ (by decide)) (Nat.mod_lt _ (by decide))]

/-- From `fb_console_init` on the pixels are those of the text screen, whatever is called. -/
theorem fbConsole_run {fb : Framebuffer} {console : FbConsole} (check : framebufferCheck fb bpp) (wide : 8 ≤ fb.width)
    (high : 16 ≤ fb.height) (fresh : console.lastCursorCol = -1 ∧ console.lastCursorRow = -1) (calls : List ConsoleCall)
    (inRange : ∀ call ∈ calls, call.InRange) :
    ∃ started final, fbConsoleInit fb bpp console = some started ∧ runCalls calls started = some final ∧
      ShowsScreen fb final (calls.foldl TextScreen.after (TextScreen.start (fb.width / 8) (fb.height / 16))) := by
  obtain ⟨started, first, shows⟩ := fbConsoleInit_shows check wide high fresh
  obtain ⟨final, ran, shows'⟩ := shows.calls calls inRange
  exact ⟨started, final, first, ran, shows'⟩

/-- A framebuffer of two by two cells. -/
def smallFb : Framebuffer := ⟨0x1000, 16, 33, 68, by decide, by decide, by decide, by decide, by decide⟩

def freshConsole (fb : Framebuffer) : FbConsole := ⟨fb, 0, 0, 0, 0, 0, 0, -1, -1, fun _ => 0⟩

theorem fbConsole_run_small : ∃ started final, fbConsoleInit smallFb 32 (freshConsole smallFb) = some started ∧
    runCalls [.putchar 65, .setColor 0xFF 0, .writeStrAt (-1) 1 [66, 67], .clearLine 0] started = some final ∧
    Renders smallFb final.mem fun _ _ => ⟨0x20, 0xFF, 0, none⟩ := by
  obtain ⟨started, final, first, ran, shows⟩ := fbConsole_run (by decide : framebufferCheck smallFb 32) (by decide) (by decide)
    (by decide : (freshConsole smallFb).lastCursorCol = -1 ∧ _) [.putchar 65, .setColor 0xFF 0, .writeStrAt (-1) 1 [66, 67], .clearLine 0]
    (by simp [ConsoleCall.InRange, Near])
  refine ⟨started, final, first, ran, fun x y wide high => ?_⟩
  rw [shows.pixels x y wide high]
  rfl

end LivlyOS.Console
