import LivlyOS.Lib.Cells

/-! The text editor. EDITOR_MAX_LINES is 200, EDITOR_LINE_LEN is 78 and UNDO_SIZE
is 50; an array access outside its bounds ends the run with nothing. -/

namespace LivlyOS.Apps

open LivlyOS.Lib

/-- An array of rows of EDITOR_LINE_LEN characters. -/
abbrev Lines := Int → Int → UInt8

/-- The colour of a screen cell: the console's own, COLOR_NORMAL or COLOR_SELECTED. -/
inductive CellColor where
  | console
  | normal
  | selected
  deriving DecidableEq

abbrev Screen := Int → Int → UInt8 × CellColor

/-- One of the rings `undo_*` and `redo_*`. -/
structure LineRing where
  lines : Lines
  lens : Int → Int
  cx : Int → Int
  cy : Int → Int
  top : Int
  count : Int

/-- The fields of `EditorState`, then the screen and what the editor handed to
`fat_write_data`, latest first. -/
structure EditorState where
  lines : Lines
  lineLen : Int → Int
  lineCount : Int
  cursorX : Int
  cursorY : Int
  viewTop : Int
  dirty : UInt8
  lineDirty : Int → UInt8
  statusDirty : UInt8
  filename : List UInt8
  undo : LineRing
  redo : LineRing
  lastCursorX : Int
  lastCursorY : Int
  lastDirty : UInt8
  selStartX : Int
  selStartY : Int
  selActive : Bool
  clipboard : Int → UInt8
  clipboardLen : Int
  screen : Screen
  written : List (List UInt8)

/-- A character of an array of `rows` rows. -/
def charAt (rows : Int) (lines : Lines) (y x : Int) : Option UInt8 :=
  if (0 ≤ y ∧ y < rows) ∧ 0 ≤ x ∧ x < 78 then some (lines y x) else none

def setChar (rows : Int) (lines : Lines) (y x : Int) (c : UInt8) : Option Lines :=
  if (0 ≤ y ∧ y < rows) ∧ 0 ≤ x ∧ x < 78 then
    some (Function.update lines y (Function.update (lines y) x c))
  else none

/-- Copy `count` characters within the lines, the first one first. -/
def copyChars (dstY dstX srcY srcX count : Int) (lines : Lines) : Option Lines :=
  forUp 0 count (fun i lines => do
    let c ← charAt 200 lines srcY (srcX + i)
    setChar 200 lines dstY (dstX + i) c) lines

/-- Copy the first `count` characters of a row to a row of another array. -/
def transferChars (srcRows : Int) (src : Lines) (srcY dstRows dstY count : Int) (dst : Lines) : Option Lines :=
  forUp 0 count (fun i dst => do
    let c ← charAt srcRows src srcY i
    setChar dstRows dst dstY i c) dst

/-- Move the characters of row `y` from column `x` up to the end `len` one to the right, the
last one first. -/
def shiftRight (y x len : Int) (lines : Lines) : Option Lines :=
  forDown len x (fun i lines => do
    let c ← charAt 200 lines y (i - 1)
    setChar 200 lines y i c) lines

/-- The line array with the line lengths. -/
abbrev Text := Lines × (Int → Int)

/-- Put a character at column `x` of row `y`. -/
def placeChar (y x : Int) (c : UInt8) (text : Text) : Option Text := do
  let (lines, lineLen) := text
  let len ← readCell 200 lineLen y
  let lines ← shiftRight y x len lines
  let lines ← setChar 200 lines y x c
  let lines ← setChar 200 lines y (len + 1) 0
  let lineLen ← writeCell 200 lineLen y (len + 1)
  some (lines, lineLen)

/-- Take `del` characters out of row `y` at column `x`. -/
def cutChars (y x del : Int) (text : Text) : Option Text := do
  let (lines, lineLen) := text
  let len ← readCell 200 lineLen y
  let lines ← copyChars y x y (x + del) (len - del - x) lines
  let lineLen ← writeCell 200 lineLen y (len - del)
  let lines ← setChar 200 lines y (len - del) 0
  some (lines, lineLen)

/-- Let row `dstY` go on behind column `dstX` with `count` characters of another row, and
end there. -/
def carryChars (dstY dstX srcY srcX count : Int) (text : Text) : Option Text := do
  let (lines, lineLen) := text
  let lines ← copyChars dstY dstX srcY srcX count lines
  let lines ← setChar 200 lines dstY (dstX + count) 0
  let lineLen ← writeCell 200 lineLen dstY (dstX + count)
  some (lines, lineLen)

/-- Let row `y` end at column `x`. -/
def endRow (y x : Int) (text : Text) : Option Text := do
  let (lines, lineLen) := text
  let lines ← setChar 200 lines y x 0
  let lineLen ← writeCell 200 lineLen y x
  some (lines, lineLen)

/-- Copy a row with its terminator and its length. -/
def copyRow (dst src : Int) (text : Text) : Option Text := do
  let (lines, lineLen) := text
  let len ← readCell 200 lineLen src
  let lines ← copyChars dst 0 src 0 (len + 1) lines
  let lineLen ← writeCell 200 lineLen dst len
  some (lines, lineLen)

/-- Fill the rows from `lo` below `hi` from the rows `distance` further, in ascending order. -/
def copyRowsUp (lo hi distance : Int) : Text → Option Text :=
  forUp lo hi (fun i => copyRow i (i + distance))

/-- Move the rows from `lo` below `hi` down by one, the last one first. -/
def copyRowsDown (hi lo : Int) : Text → Option Text :=
  forDown hi lo (fun i => copyRow i (i - 1))

/-- Mark the rows from `lo` below `hi` for drawing. -/
def markLines (lo hi : Int) : (Int → UInt8) → Option (Int → UInt8) :=
  forUp lo hi (fun i lineDirty => writeCell 200 lineDirty i 1)

/-- Mark the rows between the selection's start and the cursor. -/
def markSelection (ed : EditorState) : Option (Int → UInt8) :=
  markLines (min ed.selStartY ed.cursorY) (max ed.selStartY ed.cursorY + 1) ed.lineDirty

namespace LineRing

/-- Save the cursor's line and the cursor in the top slot. -/
def save (ring : LineRing) (ed : EditorState) : Option LineRing := do
  let y := ed.cursorY
  let slot := ring.top
  let len ← readCell 200 ed.lineLen y
  let lines ← transferChars 200 ed.lines y 50 slot (len + 1) ring.lines
  let lens ← writeCell 50 ring.lens slot len
  let cx ← writeCell 50 ring.cx slot ed.cursorX
  let cy ← writeCell 50 ring.cy slot ed.cursorY
  some
    { lines, lens, cx, cy
      top := (ring.top + 1) % 50
      count := if ring.count < 50 then ring.count + 1 else ring.count }

/-- Step back to the slot that was saved last. -/
def back (ring : LineRing) : LineRing :=
  { ring with top := (ring.top + 50 - 1) % 50, count := ring.count - 1 }

/-- Forget what was saved. -/
def clear (ring : LineRing) : LineRing := { ring with top := 0, count := 0 }

/-- Put the line of the top slot back and the cursor where it was. -/
def restore (ring : LineRing) (ed : EditorState) : Option EditorState := do
  let slot := ring.top
  let uy ← readCell 50 ring.cy slot
  let len ← readCell 50 ring.lens slot
  let lines ← transferChars 50 ring.lines slot 200 uy (len + 1) ed.lines
  let lineLen ← writeCell 200 ed.lineLen uy len
  let cx ← readCell 50 ring.cx slot
  let lineDirty ← writeCell 200 ed.lineDirty uy 1
  some { ed with lines, lineLen, cursorX := cx, cursorY := uy, lineDirty, statusDirty := 1 }

end LineRing

def edSaveUndo (ed : EditorState) : Option EditorState := do
  let undo ← ed.undo.save ed
  some { ed with undo, redo := ed.redo.clear }

def edDoUndo (ed : EditorState) : Option EditorState :=
  if ed.undo.count = 0 then some ed
  else do
    let redo ← ed.redo.save ed
    ed.undo.back.restore { ed with redo, undo := ed.undo.back }

def edDoRedo (ed : EditorState) : Option EditorState :=
  if ed.redo.count = 0 then some ed else ed.redo.back.restore { ed with redo := ed.redo.back }

/-- `ed_delete_selection` with both ends on one line. -/
def deleteInLine (ed : EditorState) (sy sx ex : Int) : Option EditorState := do
  let del := ex - sx
  let (lines, lineLen) ← cutChars sy sx del (ed.lines, ed.lineLen)
  let lineDirty ← writeCell 200 ed.lineDirty sy 1
  some { ed with lines, lineLen, lineDirty }

/-- The rest of row `ey` goes behind column `sx` of row `sy`; a rest that does not fit is
dropped. -/
def joinRest (sy sx ey ex tailLen : Int) (text : Text) : Option Text :=
  if sx + tailLen < 78 - 1 then carryChars sy sx ey ex tailLen text else endRow sy sx text

/-- `ed_delete_selection` over several rows. -/
def deleteAcross (ed : EditorState) (sy sx ey ex : Int) : Option EditorState := do
  let tailLen := (← readCell 200 ed.lineLen ey) - ex
  let text ← joinRest sy sx ey ex tailLen (ed.lines, ed.lineLen)
  let remove := ey - sy
  let (lines, lineLen) ← copyRowsUp (sy + 1) (ed.lineCount - remove) remove text
  let lineCount := ed.lineCount - remove
  let lineDirty ← markLines sy (lineCount + 1) ed.lineDirty
  some { ed with lines, lineLen, lineCount, lineDirty }

def edDeleteSelection (ed : EditorState) : Option EditorState :=
  if ed.selActive = false then some ed
  else do
    -- the ends are exchanged whatever their order: the cursor becomes the start
    let (sx, sy, ex, ey) := (ed.cursorX, ed.cursorY, ed.selStartX, ed.selStartY)
    let ed ← edSaveUndo ed
    let ed := { ed with cursorX := sx, cursorY := sy }
    let ed ← if sy = ey then deleteInLine ed sy sx ex else deleteAcross ed sy sx ey ex
    some { ed with selActive := false, dirty := 1, statusDirty := 1 }

/-- The ends of the selection in reading order, as row and column. -/
def selectionEnds (ed : EditorState) : (Int × Int) × (Int × Int) :=
  if ed.selStartY > ed.cursorY ∨ (ed.selStartY = ed.cursorY ∧ ed.selStartX > ed.cursorX) then
    ((ed.cursorY, ed.cursorX), (ed.selStartY, ed.selStartX))
  else ((ed.selStartY, ed.selStartX), (ed.cursorY, ed.cursorX))

/-- `if (p < max) clipboard[p++] = c` on the clipboard and `p`. -/
def clipChar (c : UInt8) (clip : (Int → UInt8) × Int) : Option ((Int → UInt8) × Int) :=
  if clip.2 < 200 * 78 - 1 then do
    let clipboard ← writeCell (200 * 78) clip.1 clip.2 c
    some (clipboard, clip.2 + 1)
  else some clip

/-- Copy the characters `start` to `stop` of a row, as long as there is room. -/
def clipRow (lines : Lines) (y start stop : Int) : (Int → UInt8) × Int → Option ((Int → UInt8) × Int) :=
  forUp start stop (fun x clip =>
    if clip.2 < 200 * 78 - 1 then do
      let c ← charAt 200 lines y x
      clipChar c clip
    else some clip)

/-- Where the selection stops in row `y`. -/
def clipStop (lineLen : Int → Int) (ey ex y : Int) : Option Int :=
  if y = ey then some ex else readCell 200 lineLen y

/-- Copy what is selected of row `y`, and a newline unless it is the last row. -/
def clipLine (lines : Lines) (lineLen : Int → Int) (sy sx ey ex y : Int) (clip : (Int → UInt8) × Int) :
    Option ((Int → UInt8) × Int) := do
  let start := if y = sy then sx else 0
  let stop ← clipStop lineLen ey ex y
  let clip ← clipRow lines y start stop clip
  if y < ey then clipChar 10 clip else some clip

/-- One turn of the loop over the rows: a full clipboard takes nothing more. -/
def clipTurn (lines : Lines) (lineLen : Int → Int) (sy sx ey ex y : Int) (clip : (Int → UInt8) × Int) :
    Option ((Int → UInt8) × Int) :=
  if clip.2 < 200 * 78 - 1 then clipLine lines lineLen sy sx ey ex y clip else some clip

/-- Copy the rows between two positions. -/
def clipRows (lines : Lines) (lineLen : Int → Int) (sy sx ey ex : Int) :
    (Int → UInt8) × Int → Option ((Int → UInt8) × Int) :=
  forUp sy (ey + 1) (clipTurn lines lineLen sy sx ey ex)

def edCopySelection (ed : EditorState) : Option EditorState :=
  if ed.selActive = false then some ed
  else do
    let ((sy, sx), (ey, ex)) := selectionEnds ed
    let (clipboard, p) ← clipRows ed.lines ed.lineLen sy sx ey ex (ed.clipboard, 0)
    let clipboard ← writeCell (200 * 78) clipboard p 0
    some { ed with clipboard, clipboardLen := p }

def edClearSelection (ed : EditorState) : Option EditorState :=
  if ed.selActive = false then some ed
  else do
    let lineDirty ← markSelection ed
    some { ed with lineDirty, selActive := false }

def edIsSelected (ed : EditorState) (x y : Int) : Bool :=
  ed.selActive &&
    let ((sy, sx), (ey, ex)) := selectionEnds ed
    if y < sy ∨ y > ey then false
    else if y = sy ∧ y = ey then sx ≤ x ∧ x < ex
    else if y = sy then sx ≤ x
    else if y = ey then x < ex
    else true

def edInsertChar (ed : EditorState) (c : UInt8) : Option EditorState := do
  let ed ← edClearSelection ed
  let y := ed.cursorY
  let x := ed.cursorX
  let len ← readCell 200 ed.lineLen y
  if 78 - 1 ≤ len then some ed
  else do
    let ed ← edSaveUndo ed
    let (lines, lineLen) ← placeChar y x c (ed.lines, ed.lineLen)
    let lineDirty ← writeCell 200 ed.lineDirty y 1
    some { ed with lines, lineLen, cursorX := ed.cursorX + 1, dirty := 1, lineDirty, statusDirty := 1 }

def edInsertNewline (ed : EditorState) : Option EditorState := do
  let y := ed.cursorY
  let x := ed.cursorX
  let len ← readCell 200 ed.lineLen y
  if 200 ≤ ed.lineCount then some ed
  else do
    let ed ← edSaveUndo ed
    let text ← copyRowsDown ed.lineCount (y + 1) (ed.lines, ed.lineLen)
    let newLen := len - x
    let text ← carryChars (y + 1) 0 y x newLen text
    let (lines, lineLen) ← endRow y x text
    let lineCount := ed.lineCount + 1
    let lineDirty ← markLines y lineCount ed.lineDirty
    some { ed with
      lines, lineLen, lineCount, lineDirty
      cursorY := ed.cursorY + 1, cursorX := 0, dirty := 1, statusDirty := 1 }

/-- `ed_backspace` within a line. -/
def eraseChar (ed : EditorState) (y x : Int) : Option EditorState := do
  let (lines, lineLen) ← cutChars y (x - 1) 1 (ed.lines, ed.lineLen)
  let lineDirty ← writeCell 200 ed.lineDirty y 1
  some { ed with lines, lineLen, cursorX := ed.cursorX - 1, lineDirty }

/-- `ed_backspace` at the start of a line: join it to the previous one if it fits. -/
def joinLine (ed : EditorState) (y : Int) : Option EditorState := do
  let prevLen ← readCell 200 ed.lineLen (y - 1)
  let curLen ← readCell 200 ed.lineLen y
  if prevLen + curLen < 78 - 1 then do
    let text ← carryChars (y - 1) prevLen y 0 curLen (ed.lines, ed.lineLen)
    let (lines, lineLen) ← copyRowsUp y (ed.lineCount - 1) 1 text
    let lineCount := ed.lineCount - 1
    let cursorY := ed.cursorY - 1
    let lineDirty ← markLines cursorY (lineCount + 1) ed.lineDirty
    some { ed with lines, lineLen, lineCount, cursorY, cursorX := prevLen, lineDirty }
  else some ed

/-- Erase what is before the cursor. -/
def eraseBefore (ed : EditorState) : Option EditorState :=
  let y := ed.cursorY
  let x := ed.cursorX
  if x > 0 then eraseChar ed y x else if y > 0 then joinLine ed y else some ed

def edBackspace (ed : EditorState) : Option EditorState := do
  let ed ← edSaveUndo ed
  let ed ← eraseBefore ed
  some { ed with dirty := 1, statusDirty := 1 }

def edPaste (ed : EditorState) : Option EditorState :=
  if ed.clipboardLen = 0 then some ed
  else
    forUp 0 ed.clipboardLen (fun i ed => do
      let c ← readCell (200 * 78) ed.clipboard i
      if c = 10 then edInsertNewline ed else edInsertChar ed c) ed

/-- What `console_get_width` and `console_get_height` answer. -/
structure Display where
  width : Int
  height : Int

def Display.viewHeight (display : Display) : Int := display.height - 2

def Display.statusRow (display : Display) : Int := display.height - 2

/-- `console_write_at` and `console_write_at_color`. For bytes from 0x80 on the VGA cell is 0xFFxx in every
colour; here the byte and the colour stay apart. -/
def writeAt (x y : Int) (c : UInt8) (color : CellColor) (screen : Screen) : Screen :=
  Function.update screen y (Function.update (screen y) x (c, color))

def writeStrAt (x y : Int) : List UInt8 → Screen → Screen
  | [], screen => screen
  | c :: rest, screen => writeStrAt (x + 1) y rest (writeAt x y c .console screen)

/-- The character `'0' + (value / unit) % 10`. -/
def digit (value unit : Int) : UInt8 := UInt8.ofInt (48 + (value.tdiv unit).tmod 10)

def edDrawStatus (display : Display) (ed : EditorState) : EditorState :=
  if ed.cursorX ≠ ed.lastCursorX ∨ ed.cursorY ≠ ed.lastCursorY ∨ ed.dirty ≠ ed.lastDirty then
    let row := display.statusRow
    let z := ed.cursorY + 1
    let s2 := ed.cursorX + 1
    let screen := writeAt 20 row (if ed.dirty ≠ 0 then 42 else 32) .console ed.screen
    let screen := writeStrAt 24 row [digit z 100, digit z 10, digit z 1] screen
    let screen := writeStrAt 29 row [digit s2 100, digit s2 10, digit s2 1] screen
    { ed with lastCursorX := ed.cursorX, lastCursorY := ed.cursorY, lastDirty := ed.dirty, screen }
  else ed

/-- The characters of line `ty` go to row `sy` of the screen. -/
def drawLine (ed : EditorState) (ty sy len : Int) : Screen → Option Screen :=
  forUp 0 len (fun x screen => do
    let c ← charAt 200 ed.lines ty x
    some (writeAt x sy c (if edIsSelected ed x ty then .selected else .normal) screen))

def drawBlanks (sy lo hi : Int) : Screen → Option Screen :=
  forUp lo hi (fun x screen => some (writeAt x sy 32 .normal screen))

/-- Draw one row of the view if it is marked or selected; the marks and the screen change. -/
def renderRow (display : Display) (ed : EditorState) (sy : Int) (view : (Int → UInt8) × Screen) :
    Option ((Int → UInt8) × Screen) :=
  let (lineDirty, screen) := view
  let ty := ed.viewTop + sy
  if 200 ≤ ty then some view
  else do
    let flag ← readCell 200 lineDirty ty
    if flag ≠ 0 ∨ (ed.selActive = true ∧ min ed.selStartY ed.cursorY ≤ ty ∧ ty ≤ max ed.selStartY ed.cursorY) then do
      let len ← if ty < ed.lineCount then readCell 200 ed.lineLen ty else some 0
      let screen ← drawLine ed ty sy len screen
      let screen ← drawBlanks sy len display.width screen
      let lineDirty ← writeCell 200 lineDirty ty 0
      some (lineDirty, screen)
    else some view

def edRender (display : Display) (ed : EditorState) : Option EditorState := do
  let (lineDirty, screen) ← forUp 0 display.viewHeight (renderRow display ed) (ed.lineDirty, ed.screen)
  let ed := { ed with lineDirty, screen }
  if ed.statusDirty ≠ 0 then some { edDrawStatus display ed with statusDirty := 0 } else some ed

/-- The status line before the numbers: 21 cells of file name, then the fixed text. -/
def statusText (filename : List UInt8) : List UInt8 :=
  let name := filename.take 20
  (name ++ List.replicate (21 - name.length) 32 ++
    " | L:    C:    | Ctrl+S Z=Undo Y=Redo".toList.map fun c : Char => UInt8.ofNat c.toNat).take 79

def edDrawStatusFull (display : Display) (ed : EditorState) : EditorState :=
  let row := display.statusRow
  let screen := writeStrAt 0 row (List.replicate display.width.toNat 32) ed.screen
  let screen := writeStrAt 0 row (statusText ed.filename) screen
  edDrawStatus display { ed with screen, lastCursorX := -1, lastCursorY := -1, lastDirty := 2 }

def edRenderFull (display : Display) (ed : EditorState) : Option EditorState := do
  let lineDirty ← markLines 0 200 ed.lineDirty
  let screen := writeStrAt 0 display.viewHeight (List.replicate display.width.toNat 45) ed.screen
  edRender display (edDrawStatusFull display { ed with lineDirty, screen, statusDirty := 1 })

/-- The first row of the view that shows the cursor. -/
def scrolledTop (display : Display) (ed : EditorState) : Int :=
  let top := if ed.cursorY < ed.viewTop then ed.cursorY else ed.viewTop
  if top + display.viewHeight ≤ ed.cursorY then ed.cursorY - display.viewHeight + 1 else top

def edScrollToCursor (display : Display) (ed : EditorState) : Option EditorState :=
  let top := scrolledTop display ed
  let scrolled := { ed with viewTop := top }
  if top ≠ ed.viewTop then edRenderFull display scrolled else some scrolled

def endLine (ed : EditorState) (x : Int) : Option EditorState := do
  let lines ← setChar 200 ed.lines ed.lineCount x 0
  let lineLen ← writeCell 200 ed.lineLen ed.lineCount x
  some { ed with lines, lineLen, lineCount := ed.lineCount + 1 }

/-- The loop of `ed_buf_to_lines` at column `x` with the rest of the buffer. -/
def bufToLines (ed : EditorState) (x : Int) : List UInt8 → Option EditorState
  | [] => endLine ed x
  | byte :: rest =>
    if byte = 10 then do
      let ed ← endLine ed x
      if 200 ≤ ed.lineCount then some ed else bufToLines ed 0 rest
    else if x < 78 - 1 then do
      let lines ← setChar 200 ed.lines ed.lineCount x byte
      bufToLines { ed with lines } (x + 1) rest
    else bufToLines ed x rest

def edBufToLines (ed : EditorState) (buf : List UInt8) : Option EditorState := do
  let ed ← bufToLines { ed with lineCount := 0 } 0 buf
  if ed.lineCount = 0 then do
    let lineLen ← writeCell 200 ed.lineLen 0 0
    some { ed with lineCount := 1, lineLen }
  else some ed

/-- `if (offset < max) buf[offset++] = c` on what is written so far. -/
def putByte (limit : Nat) (c : UInt8) (out : List UInt8) : List UInt8 :=
  if out.length < limit then out ++ [c] else out

def putLine (lines : Lines) (limit : Nat) (y len : Int) : List UInt8 → Option (List UInt8) :=
  forUp 0 len (fun x out =>
    if out.length < limit then do
      let c ← charAt 200 lines y x
      some (putByte limit c out)
    else some out)

/-- The bytes `ed_lines_to_buf` stores in a buffer of `limit` bytes. -/
def edLinesToBuf (ed : EditorState) (limit : Nat) : Option (List UInt8) :=
  forUp 0 ed.lineCount (fun y out =>
    if out.length < limit then do
      let len ← readCell 200 ed.lineLen y
      let out ← putLine ed.lines limit y len out
      some (putByte limit 10 out)
    else some out) []

/-- A key from the keyboard, and whether `kmalloc` finds room for the text on Ctrl+S. -/
structure KeyPress where
  key : UInt8
  room : Bool := true

/-- Cut the cursor's column to the length of its line. -/
def clampColumn (ed : EditorState) : Option EditorState := do
  let len ← readCell 200 ed.lineLen ed.cursorY
  some (if ed.cursorX > len then { ed with cursorX := len } else ed)

def moveUp (ed : EditorState) : Option EditorState :=
  if ed.cursorY > 0 then clampColumn { ed with cursorY := ed.cursorY - 1, statusDirty := 1 } else some ed

def moveDown (ed : EditorState) : Option EditorState :=
  if ed.cursorY < ed.lineCount - 1 then clampColumn { ed with cursorY := ed.cursorY + 1, statusDirty := 1 }
  else some ed

def moveLeft (ed : EditorState) : Option EditorState :=
  if ed.cursorX > 0 then some { ed with cursorX := ed.cursorX - 1, statusDirty := 1 }
  else if ed.cursorY > 0 then do
    let len ← readCell 200 ed.lineLen (ed.cursorY - 1)
    some { ed with cursorY := ed.cursorY - 1, cursorX := len, statusDirty := 1 }
  else some ed

def moveRight (ed : EditorState) : Option EditorState := do
  let len ← readCell 200 ed.lineLen ed.cursorY
  if ed.cursorX < len then some { ed with cursorX := ed.cursorX + 1, statusDirty := 1 }
  else if ed.cursorY < ed.lineCount - 1 then
    some { ed with cursorY := ed.cursorY + 1, cursorX := 0, statusDirty := 1 }
  else some ed

/-- A selection starts at the cursor unless there is one. -/
def startSelection (ed : EditorState) : EditorState :=
  if ed.selActive then ed
  else { ed with selStartX := ed.cursorX, selStartY := ed.cursorY, selActive := true }

/-- Shift and an arrow. -/
def shiftArrow (move : EditorState → Option EditorState) (ed : EditorState) : Option EditorState := do
  let ed ← move (startSelection ed)
  let lineDirty ← markSelection ed
  some { ed with lineDirty, statusDirty := 1 }

/-- An arrow alone: drop the selection, then move. -/
def plainArrow (move : EditorState → Option EditorState) (ed : EditorState) : Option EditorState := do
  let ed ← edClearSelection ed
  move ed

/-- Ctrl+S. -/
def edSave (ed : EditorState) (room : Bool) : Option EditorState :=
  if room then do
    let text ← edLinesToBuf ed (ed.lineCount * 78 + 16).toNat
    some { ed with written := text :: ed.written, dirty := 0, statusDirty := 1 }
  else some ed

/-- A key that replaces the selection. -/
def deleteThen (edit : EditorState → Option EditorState) (ed : EditorState) : Option EditorState := do
  let ed ← edDeleteSelection ed
  edit ed

/-- What a key does before the screen is brought up to date. -/
def edKey (press : KeyPress) (ed : EditorState) : Option EditorState :=
  let c := press.key
  if c = 0x89 then shiftArrow moveUp ed
  else if c = 0x8A then shiftArrow moveDown ed
  else if c = 0x8B then shiftArrow moveLeft ed
  else if c = 0x8C then shiftArrow moveRight ed
  else if c = 0x80 then plainArrow moveUp ed
  else if c = 0x81 then plainArrow moveDown ed
  else if c = 0x82 then plainArrow moveLeft ed
  else if c = 0x83 then plainArrow moveRight ed
  else if c = 0x88 then edSave ed press.room
  else if c = 0x84 then edCopySelection ed
  else if c = 0x85 then edPaste ed
  else if c = 0x86 then edDoUndo ed
  else if c = 0x87 then edDoRedo ed
  else if c = 10 then deleteThen edInsertNewline ed
  else if c = 8 then if ed.selActive then edDeleteSelection ed else edBackspace ed
  else if 0x20 ≤ c ∧ c < 0x80 then deleteThen (edInsertChar · c) ed
  else some ed

/-- Bring the screen up to date. -/
def edUpdate (display : Display) (ed : EditorState) : Option EditorState := do
  let ed ← edScrollToCursor display ed
  edRender display ed

/-- One turn of the main loop. -/
def edTurn (display : Display) (press : KeyPress) (ed : EditorState) : Option EditorState := do
  let ed ← edKey press ed
  edUpdate display ed

/-- The main loop over the keys that are typed; Escape leaves it. -/
def edLoop (display : Display) : List KeyPress → EditorState → Option EditorState
  | [], ed => some ed
  | press :: rest, ed =>
    if press.key = 0x1B then some ed else (edTurn display press ed).bind (edLoop display rest)

/-- The fields `fat_edit_file` sets before it reads the file. -/
def edReset (name : List UInt8) (ed : EditorState) : EditorState :=
  { ed with
    cursorX := 0, cursorY := 0, viewTop := 0, dirty := 0
    undo := ed.undo.clear
    redo := ed.redo.clear
    lineCount := 0
    lineDirty := fun i => if 0 ≤ i ∧ i < 200 then 0 else ed.lineDirty i
    statusDirty := 0
    selActive := false, selStartX := 0, selStartY := 0
    filename := name.take 63 }

/-- `fat_edit_file` up to its main loop, on whatever the state held before; `file` is what
`fat_read_file` put in the buffer. -/
def fatEditFile (display : Display) (name file : List UInt8) (ed : EditorState) : Option EditorState := do
  let ed ← edBufToLines (edReset name ed) file
  edRenderFull display { ed with screen := fun _ _ => (32, .console) }

end LivlyOS.Apps
