import LivlyOS.Console.Font
import LivlyOS.Console.Framebuffer

/-! The text console on the framebuffer, and the console calls with `use_fb` = 1. Arithmetic
that leaves the range of an `int` ends the run with nothing. -/

namespace LivlyOS.Console

open LivlyOS.Lib

def fbDrawChar (fb : Framebuffer) (x y : Int) (c : UInt8) (fg bg : UInt32) (mem : Bytes) : Option Bytes :=
  forUp 0 16 (fun row => forUp 0 8 (fun col mem => do
    let px ← checkInt (x + col)
    let py ← checkInt (y + row)
    some (fbDrawPixel fb px py (if glyphBit c row.toNat col.toNat then fg else bg) mem))) mem

def fbClear (fb : Framebuffer) (color : UInt32) (mem : Bytes) : Option Bytes :=
  forUp 0 fb.height (fun y => forUp 0 fb.width (fun x mem =>
    some (putWord mem (pixelAddress fb x.toNat y.toNat) 4 color.toNat))) mem

/-- `g_console` with the framebuffer it points to, the static variables of the drawn cursor, and the
memory. -/
structure FbConsole where
  fb : Framebuffer
  cursorCol : Int
  cursorRow : Int
  maxCols : Int
  maxRows : Int
  fgColor : UInt32
  bgColor : UInt32
  lastCursorCol : Int
  lastCursorRow : Int
  mem : Bytes

def colorWhite : UInt32 := 0x00FFFFFF

def colorBlack : UInt32 := 0x00000000

def framebufferCheck (fb : Framebuffer) (bpp : UInt8) : Prop :=
  fb.address ≠ 0 ∧ bpp > 0 ∧ fb.height > 0 ∧ fb.pitch > 0 ∧ fb.width > 0

instance (fb : Framebuffer) (bpp : UInt8) : Decidable (framebufferCheck fb bpp) := inferInstanceAs (Decidable (_ ∧ _))

def fbConsoleInit (fb : Framebuffer) (bpp : UInt8) (console : FbConsole) : Option FbConsole :=
  if framebufferCheck fb bpp then
    (fbClear fb colorBlack console.mem).map fun mem => { console with
      fb, cursorCol := 0, cursorRow := 0, maxCols := (fb.width / 8 : Nat), maxRows := (fb.height / 16 : Nat),
      fgColor := colorWhite, bgColor := colorBlack, mem }
  else some { console with fb }

def vgaPalette : List UInt32 :=
  [0x000000, 0x0000AA, 0x00AA00, 0x00AAAA, 0xAA0000, 0xAA00AA, 0xAA5500, 0xAAAAAA,
    0x555555, 0x5555FF, 0x55FF55, 0x55FFFF, 0xFF5555, 0xFF55FF, 0xFFFF55, 0xFFFFFF]

/-- Black asks for the standard colour. -/
def fbConsoleSetColor (fg bg : UInt32) (console : FbConsole) : FbConsole :=
  { console with bgColor := if bg ≠ 0 then bg else colorBlack, fgColor := if fg ≠ 0 then fg else colorWhite }

def fbConsoleClear (console : FbConsole) : Option FbConsole :=
  (fbClear console.fb console.bgColor console.mem).map fun mem => { console with mem, cursorCol := 0, cursorRow := 0 }

/-- The stub that stands for scrolling. -/
def fbScroll (console : FbConsole) : Option FbConsole :=
  (checkInt (console.maxRows - 1)).map fun cursorRow => { console with cursorRow }

def fbNewline (console : FbConsole) : Option FbConsole :=
  (checkInt (console.cursorRow + 1)).bind fun cursorRow =>
    if cursorRow ≥ console.maxRows then fbScroll { console with cursorCol := 0, cursorRow }
    else some { console with cursorCol := 0, cursorRow }

/-- `fb_draw_char` at a position in characters. -/
def drawCharAt (x y : Int) (c : UInt8) (fg bg : UInt32) (console : FbConsole) : Option FbConsole := do
  let px ← checkInt (x * 8)
  let py ← checkInt (y * 16)
  let mem ← fbDrawChar console.fb px py c fg bg console.mem
  some { console with mem }

def fbConsolePutchar (c : UInt8) (console : FbConsole) : Option FbConsole :=
  if c = 10 then fbNewline console
  else do
    let console ← drawCharAt console.cursorCol console.cursorRow c console.fgColor console.bgColor console
    let cursorCol ← checkInt (console.cursorCol + 1)
    if cursorCol ≥ console.maxCols then fbNewline { console with cursorCol } else some { console with cursorCol }

/-- A coordinate that is not on the screen is left as it was. -/
def fbConsoleSetPos (col row : Int) (console : FbConsole) : FbConsole :=
  { console with
    cursorCol := if ¬ (col < 0 ∨ col ≥ console.maxCols) then col else console.cursorCol
    cursorRow := if ¬ (0 > row ∨ row ≥ console.maxRows) then row else console.cursorRow }

def fbConsoleBackspace (console : FbConsole) : Option FbConsole :=
  if console.cursorCol > 0 then
    erase { console with cursorCol := console.cursorCol - 1 }
  else if console.cursorRow > 0 then
    (checkInt (console.maxCols - 1)).bind fun cursorCol =>
      erase { console with cursorRow := console.cursorRow - 1, cursorCol }
  else some console
where
  erase (console : FbConsole) : Option FbConsole :=
    drawCharAt console.cursorCol console.cursorRow 0x20 console.fgColor console.bgColor console

/-- The last two pixel rows of a cell. -/
def drawMark (col row : Int) (color : UInt32) (console : FbConsole) : Option FbConsole := do
  let px ← checkInt (col * 8)
  let line ← checkInt (row * 16)
  let py ← checkInt (line + 14)
  let mem ← fbDrawRect console.fb px py 8 2 color console.mem
  some { console with mem }

/-- The first half of `fb_console_set_cursor`. -/
def eraseMark (console : FbConsole) : Option FbConsole :=
  if console.lastCursorCol ≥ 0 ∧ console.lastCursorRow ≥ 0
  then drawMark console.lastCursorCol console.lastCursorRow console.bgColor console
  else some console

def fbConsoleSetCursor (col row : Int) (console : FbConsole) : Option FbConsole := do
  let console ← eraseMark console
  let console ← drawMark col row console.fgColor console
  some { console with lastCursorCol := col, lastCursorRow := row }

def fbConsoleWriteAt (x y : Int) (c : UInt8) (console : FbConsole) : Option FbConsole :=
  drawCharAt x y c console.fgColor console.bgColor console

def fbConsoleWriteStrAt (x y : Int) : List UInt8 → FbConsole → Option FbConsole
  | [], console => some console
  | c :: rest, console => do
    let console ← fbConsoleWriteAt x y c console
    let x ← checkInt (x + 1)
    fbConsoleWriteStrAt x y rest console

def fbConsoleWriteAtColor (x y : Int) (c color : UInt8) (console : FbConsole) : Option FbConsole :=
  drawCharAt x y c (vgaPalette.getD (color &&& 0x0F).toNat 0) (vgaPalette.getD ((color >>> 4) &&& 0x0F).toNat 0) console

/-- What the rest of the kernel asks of the console. -/
inductive ConsoleCall where
  | putchar (c : UInt8)
  | clear
  | setColor (fg bg : UInt32)
  | setPos (col row : Int)
  | backspace
  | setCursor (col row : Int)
  | writeAt (x y : Int) (c : UInt8)
  | writeStrAt (x y : Int) (s : List UInt8)
  | clearLine (y : Int)
  | writeAtColor (x y : Int) (c color : UInt8)

/-- The calls with `use_fb` = 1; the colours are set with `fb_console_set_color` itself. The cursor
follows a character and a new position, not a backspace. -/
def ConsoleCall.run : ConsoleCall → FbConsole → Option FbConsole
  | .putchar c, console => (fbConsolePutchar c console).bind fun console =>
      fbConsoleSetCursor console.cursorCol console.cursorRow console
  | .clear, console => fbConsoleClear console
  | .setColor fg bg, console => some (fbConsoleSetColor fg bg console)
  | .setPos col row, console => fbConsoleSetCursor col row (fbConsoleSetPos col row console)
  | .backspace, console => fbConsoleBackspace console
  | .setCursor col row, console => fbConsoleSetCursor col row console
  | .writeAt x y c, console => fbConsoleWriteAt x y c console
  | .writeStrAt x y s, console => fbConsoleWriteStrAt x y s console
  | .clearLine y, console => (fbConsoleClearLine console.fb console.bgColor y console.mem).map fun mem => { console with mem }
  | .writeAtColor x y c color, console => fbConsoleWriteAtColor x y c color console

/-- One call after the other. -/
def runCalls : List ConsoleCall → FbConsole → Option FbConsole
  | [], console => some console
  | call :: rest, console => (call.run console).bind (runCalls rest)

end LivlyOS.Console
