import LivlyOS.Lib.CircularBuffer

/-! The keyboard driver: the handler of IRQ1, which turns scancodes into key codes, and
the buffer from which the shell and the editor read them. The set-up of the PS/2
controller is left out. -/

namespace LivlyOS.Drivers

open LivlyOS.Lib

/-- KB_BUFFER_SIZE -/
abbrev kbBufferSize : Nat := 1096

/-- `kb_buffer`, `kb_read_pos` and `kb_write_pos`. The driver's cells are bytes; it only moves
them, so their type stays open and a byte can be followed with a mark on it. -/
abbrev KeyboardBuffer (α : Type) := CircularBuffer kbBufferSize α

/-- The static variables before the first scancode. -/
def emptyBuffer : KeyboardBuffer UInt8 := ⟨fun _ => 0, ⟨0, by decide⟩, ⟨0, by decide⟩⟩

def keyboardPush (buffer : KeyboardBuffer α) (c : α) : KeyboardBuffer α := buffer.push c

/-- `keyboard_read` behind its waiting loop; nothing as long as it waits. -/
def keyboardRead (buffer : KeyboardBuffer α) : Option (α × KeyboardBuffer α) := buffer.pop

def deNormal : List Char :=
  ['\x00', '^', '1', '2', '3', '4', '5', '6', '7', '8', '9', '0', '-', '=', '\x00',
    '\x00', 'q', 'w', 'e', 'r', 't', 'z', 'u', 'i', 'o', 'p', '\x00', '+', '\n',
    '\x00', 'a', 's', 'd', 'f', 'g', 'h', 'j', 'k', 'l', '\x00', '\x00', '^',
    '\x00', '<', 'y', 'x', 'c', 'v', 'b', 'n', 'm', ',', '.', '-', '\x00',
    '\x00', '\x00', ' ']

def deShift : List Char :=
  ['\x00', '\x00', '!', '\x22', '\x00', '$', '%', '&', '/', '(', ')', '=', '?', '\x60', '\x00',
    '\x00', 'Q', 'W', 'E', 'R', 'T', 'Z', 'U', 'I', 'O', 'P', '\x00', '*', '\n',
    '\x00', 'A', 'S', 'D', 'F', 'G', 'H', 'J', 'K', 'L', '\x00', '\x00', '\x00',
    '\x00', '>', 'Y', 'X', 'C', 'V', 'B', 'N', 'M', ';', ':', '_', '\x00',
    '\x00', '\x00', ' ']

/-- The static variables of the driver. -/
structure KeyboardState where
  letztesZeichen : UInt8
  shiftGedrueckt : UInt8
  ctrlGedrueckt : UInt8
  extended : UInt8
  buffer : KeyboardBuffer UInt8

def keyboardStart : KeyboardState := ⟨0, 0, 0, 0, emptyBuffer⟩

namespace KeyboardState

def push (kb : KeyboardState) (c : UInt8) : KeyboardState := { kb with buffer := keyboardPush kb.buffer c }

/-- The second byte of an 0xE0 sequence. -/
def extendedKey (kb : KeyboardState) (scancode : UInt8) : KeyboardState :=
  if scancode ≥ 0x80 then kb
  else if scancode = 0x48 then kb.push (if kb.shiftGedrueckt ≠ 0 then 0x89 else 0x80)
  else if scancode = 0x50 then kb.push (if kb.shiftGedrueckt ≠ 0 then 0x8A else 0x81)
  else if scancode = 0x4B then kb.push (if kb.shiftGedrueckt ≠ 0 then 0x8B else 0x82)
  else if scancode = 0x4D then kb.push (if kb.shiftGedrueckt ≠ 0 then 0x8C else 0x83)
  else kb

/-- A key while Ctrl is down. -/
def ctrlKey (kb : KeyboardState) (scancode : UInt8) : KeyboardState :=
  if scancode = 0x1F then kb.push 0x88
  else if scancode = 0x2E then kb.push 0x84
  else if scancode = 0x2F then kb.push 0x85
  else if scancode = 0x2C then kb.push 0x87
  else if scancode = 0x15 then kb.push 0x86
  else kb

/-- A key of the tables. They end at the space bar; `behind` is what the memory behind each of
them holds, which keys such as F1 read. -/
def charKey (behind : List Char → Nat → UInt8) (kb : KeyboardState) (scancode : UInt8) : KeyboardState :=
  let table := if kb.shiftGedrueckt ≠ 0 then deShift else deNormal
  let c := (table[scancode.toNat]?.map fun c => UInt8.ofNat c.toNat).getD (behind table scancode.toNat)
  if c ≠ 0 then { kb with letztesZeichen := c }.push c else kb

end KeyboardState

/-- `keyboard_handler` with the byte that the port gave. -/
def keyboardHandler (behind : List Char → Nat → UInt8) (kb : KeyboardState) (scancode : UInt8) : KeyboardState :=
  if scancode = 0xE0 then { kb with extended := 1 }
  else if kb.extended ≠ 0 then { kb with extended := 0 }.extendedKey scancode
  else if scancode = 0x2A ∨ scancode = 0x36 then { kb with shiftGedrueckt := 1 }
  else if scancode = 0xAA ∨ scancode = 0xB6 then { kb with shiftGedrueckt := 0 }
  else if scancode = 0x1D then { kb with ctrlGedrueckt := 1 }
  else if scancode = 0x9D then { kb with ctrlGedrueckt := 0 }
  else if scancode ≥ 0x80 then kb
  else if scancode = 0x01 then kb.push 0x1B
  else if scancode = 0x0E then kb.push 8
  else if kb.ctrlGedrueckt ≠ 0 then kb.ctrlKey scancode
  else kb.charKey behind scancode

end LivlyOS.Drivers
