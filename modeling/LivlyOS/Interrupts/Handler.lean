import LivlyOS.Drivers.Keyboard
import LivlyOS.Interrupts.Pic
import LivlyOS.Interrupts.Stubs
import LivlyOS.Proc.Schedular

namespace LivlyOS.Interrupts

open LivlyOS.Lib LivlyOS.Proc LivlyOS.Drivers

/-- A character with its color; the pointer is given as an offset from 0xB8000. -/
def vgaCell (offset pos : Nat) (c color : UInt8) (vga : Bytes) : Bytes :=
  Function.update (Function.update vga (offset + pos * 2) c) (offset + pos * 2 + 1) color

/-- The loops over a text up to its end. -/
def vgaPrint (offset pos : Nat) (color : UInt8) : (text : List UInt8) → Bytes → Bytes
  | [], vga => vga
  | c :: text, vga => vgaPrint offset (pos + 1) color text (vgaCell offset pos c color vga)

def nibbleChar (nibble : UInt8) : UInt8 := if nibble < 10 then 48 + nibble else 65 + nibble - 10

/-- The loop over the digits with `left` of them to go. -/
def vgaPrintDigits (offset pos digits : Nat) (val : UInt64) (color : UInt8) : (left : Nat) → Bytes → Bytes
  | 0, vga => vga
  | d + 1, vga => vgaPrintDigits offset pos digits val color d
      (vgaCell offset (pos + 2 + (digits - 1 - d)) (nibbleChar ((val >>> UInt64.ofNat (d * 4)) &&& 0xF).toUInt8) color vga)

def vgaPrintHex (offset pos : Nat) (val : UInt64) (digits : Nat) (color : UInt8) (vga : Bytes) : Bytes :=
  vgaPrintDigits offset pos digits val color digits
    (vgaCell offset (pos + 1) 120 color (vgaCell offset pos 48 color vga))

def cText (text : String) : List UInt8 := text.toList.map fun c => UInt8.ofNat c.toNat

def exceptionNames : List String := [
  "Division by Zero", "Debug", "NMI", "Breakpoint", "Overflow", "Bound Range Exceeded", "Invalid Opcode",
  "Device Not Available", "Double Fault", "Coprocessor Seg Overrun", "Invalid TSS", "Segment Not Present",
  "Stack-Segment Fault", "General Protection", "Page Fault", "Reserved", "x87 FP Exception", "Alignment Check",
  "Machine Check", "SIMD FP Exception", "Virtualization", "Control Protection", "Reserved", "Reserved", "Reserved",
  "Reserved", "Reserved", "Reserved", "Hypervisor Injection", "VMM Communication", "Security Exception", "Reserved"]

/-- The line with the exception's number and name. -/
def exceptionLine (frame : InterruptFrame) (vga : Bytes) : Bytes :=
  vgaPrint 160 6 0x4F (cText (exceptionNames.getD frame.intNum.toNat "")) (vgaPrintHex 160 0 frame.intNum 2 0x4F vga)

/-- A line with a label and a number. -/
def labelLine (offset : Nat) (label : String) (val : UInt64) (digits : Nat) (vga : Bytes) : Bytes :=
  vgaPrintHex offset 4 val digits 0x4F (vgaPrint offset 0 0x4F (cText label) vga)

/-- The screen on which an exception stops the system. -/
def exceptionScreen (frame : InterruptFrame) (vga : Bytes) : Bytes :=
  let vga := vgaPrint 0 0 0x4F (cText "!!! EXCEPTION !!!") vga
  let vga := exceptionLine frame vga
  let vga := labelLine 320 "RIP:" frame.rip 16 vga
  labelLine 480 "ERR:" frame.errorCode 8 vga

/-- What the handler works on beside its frame. -/
structure Statics where
  scheduler : Kernel
  keyboard : KeyboardState
  systemTicks : UInt64
  vga : Bytes

/-- The handler stops the system, or returns with a frame and the writes to the ports of
the interrupt controllers. -/
inductive Outcome where
  | halted (vga : Bytes)
  | returned (frame : InterruptFrame) (st : Statics) (outs : List (UInt16 × UInt8))

/-- The part of a timer tick. -/
def timerPart (fuel : Nat) (frame : InterruptFrame) (st : Statics) : Option (InterruptFrame × Statics) :=
  if frame.intNum = 32 then
    (schedule fuel frame st.scheduler).map fun result =>
      (result.1.2, { st with scheduler := result.1.1, systemTicks := st.systemTicks + 1 })
  else some (frame, st)

/-- `exception_handler` with the byte that the keyboard has for it. Behind the timer part
the frame is already that of the next process. -/
def exceptionHandler (fuel : Nat) (behind : List Char → Nat → UInt8) (scancode : UInt8) (frame : InterruptFrame)
    (st : Statics) : Option Outcome :=
  if frame.intNum < 32 then some (.halted (exceptionScreen frame st.vga))
  else if frame.intNum < 48 then
    (timerPart fuel frame st).map fun (frame, st) =>
      let st := if frame.intNum = 33 then { st with keyboard := keyboardHandler behind st.keyboard scancode } else st
      .returned frame st (picEoi frame.intNum)
  else some (.returned frame st [])

end LivlyOS.Interrupts
