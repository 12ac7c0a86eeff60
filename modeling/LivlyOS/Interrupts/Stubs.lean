import LivlyOS.Lib.StackCode
import LivlyOS.Proc.Process

/-! The interrupt stubs: what the processor pushes at an interrupt in kernel mode, the
code of every `isr` up to `iretq`, and the frame that the C handler gets. -/

namespace LivlyOS.Interrupts

open LivlyOS.Lib LivlyOS.Proc

/-- The general registers beside the stack pointer. -/
inductive Reg where
  | rax | rbx | rcx | rdx | rsi | rdi | rbp
  | r8 | r9 | r10 | r11 | r12 | r13 | r14 | r15
deriving DecidableEq

/-- What a program sees of the processor. -/
structure Cpu where
  regs : Reg → UInt64
  rip : UInt64
  cs : UInt16
  rflags : UInt64
  rsp : UInt64
  ss : UInt16

/-- The vectors of the macro ISR_ERRCODE. -/
def errCodeVectors : List UInt8 := [8, 10, 11, 12, 13, 14, 17, 21, 29, 30]

/-- ISR_NOERRCODE, up to the jump -/
def isrNoErrCode (n : UInt8) : List (Instr Reg) := [.pushImm 0, .pushImm n.toUInt64]

/-- ISR_ERRCODE, up to the jump -/
def isrErrCode (n : UInt8) : List (Instr Reg) := [.pushImm n.toUInt64]

/-- `isr_common` up to the `iretq`. -/
def isrCommon : List (Instr Reg) := [
  .push .rax, .push .rbx, .push .rcx, .push .rdx, .push .rsi, .push .rdi, .push .rbp,
  .push .r8, .push .r9, .push .r10, .push .r11, .push .r12, .push .r13, .push .r14, .push .r15,
  .movRsp .rdi,
  .subRsp 8,
  .call,
  .addRsp 8,
  .pop .r15, .pop .r14, .pop .r13, .pop .r12, .pop .r11, .pop .r10, .pop .r9, .pop .r8,
  .pop .rbp, .pop .rdi, .pop .rsi, .pop .rdx, .pop .rcx, .pop .rbx, .pop .rax,
  .addRsp 16]

/-- The stub of a vector; the jump leads into the common part. -/
def isr (n : UInt8) : List (Instr Reg) :=
  (if n ∈ errCodeVectors then isrErrCode n else isrNoErrCode n) ++ isrCommon

/-- The exceptions with which the processor itself pushes an error code. -/
def pushesErrorCode (vector : UInt8) : Prop :=
  8 ≤ vector ∧ vector ≤ 14 ∧ vector ≠ 9 ∨ vector = 17 ∨ vector = 21 ∨ vector = 29 ∨ vector = 30

instance (vector : UInt8) : Decidable (pushesErrorCode vector) :=
  inferInstanceAs (Decidable (_ ∨ _))

/-- A stopped program, with the stack pointer aligned. -/
def stopped (cpu : Cpu) (memory : Bytes) : Machine Reg := ⟨cpu.regs, cpu.rsp &&& ~~~15, memory⟩

/-- An interrupt in kernel mode, through a gate without a stack of its own. -/
def deliver (vector : UInt8) (errorCode : UInt64) (cpu : Cpu) (memory : Bytes) : Machine Reg :=
  let m := (stopped cpu memory).pushAll [cpu.ss.toUInt64, cpu.rsp, cpu.rflags, cpu.cs.toUInt64, cpu.rip]
  if pushesErrorCode vector then m.pushWord errorCode else m

def iretq (m : Machine Reg) : Cpu where
  regs := m.regs
  rip := load64 m.memory m.rsp
  cs := (load64 m.memory (m.rsp + 8)).toUInt16
  rflags := load64 m.memory (m.rsp + 16)
  rsp := load64 m.memory (m.rsp + 24)
  ss := (load64 m.memory (m.rsp + 32)).toUInt16

/-- An interrupt from the program it stops to the program that goes on, and the memory
after it. -/
def interrupt (back : UInt64) (callee : Machine Reg → Machine Reg) (vector : UInt8) (errorCode : UInt64)
    (cpu : Cpu) (memory : Bytes) : Cpu × Bytes :=
  let m := execAll back callee (isr vector) (deliver vector errorCode cpu memory)
  (iretq m, m.memory)

end LivlyOS.Interrupts

namespace LivlyOS.Proc

open LivlyOS.Lib LivlyOS.Interrupts

namespace InterruptFrame

/-- The fields in the order of their addresses. -/
def words (frame : InterruptFrame) : List UInt64 := [
  frame.r15, frame.r14, frame.r13, frame.r12, frame.r11, frame.r10, frame.r9, frame.r8,
  frame.rbp, frame.rdi, frame.rsi, frame.rdx, frame.rcx, frame.rbx, frame.rax,
  frame.intNum, frame.errorCode, frame.rip, frame.cs, frame.rflags, frame.rsp, frame.ss]

/-- The structure that a pointer to it gives. -/
def read (memory : Bytes) (address : Nat) : InterruptFrame :=
  let field index := UInt64.ofNat (word memory (address + 8 * index) 8)
  { r15 := field 0, r14 := field 1, r13 := field 2, r12 := field 3, r11 := field 4, r10 := field 5
    r9 := field 6, r8 := field 7, rbp := field 8, rdi := field 9, rsi := field 10, rdx := field 11
    rcx := field 12, rbx := field 13, rax := field 14, intNum := field 15, errorCode := field 16
    rip := field 17, cs := field 18, rflags := field 19, rsp := field 20, ss := field 21 }

/-- The saved value of a register. -/
def reg (frame : InterruptFrame) : Reg → UInt64
  | .rax => frame.rax
  | .rbx => frame.rbx
  | .rcx => frame.rcx
  | .rdx => frame.rdx
  | .rsi => frame.rsi
  | .rdi => frame.rdi
  | .rbp => frame.rbp
  | .r8 => frame.r8
  | .r9 => frame.r9
  | .r10 => frame.r10
  | .r11 => frame.r11
  | .r12 => frame.r12
  | .r13 => frame.r13
  | .r14 => frame.r14
  | .r15 => frame.r15

/-- The processor that a frame describes. -/
def cpu (frame : InterruptFrame) : Cpu :=
  ⟨frame.reg, frame.rip, frame.cs.toUInt16, frame.rflags, frame.rsp, frame.ss.toUInt16⟩

end InterruptFrame

end LivlyOS.Proc

namespace LivlyOS.Interrupts

open LivlyOS.Lib LivlyOS.Proc

/-- The frame of a stopped program. -/
def Cpu.frame (cpu : Cpu) (vector : UInt8) (errorCode : UInt64) : InterruptFrame where
  r15 := cpu.regs .r15
  r14 := cpu.regs .r14
  r13 := cpu.regs .r13
  r12 := cpu.regs .r12
  r11 := cpu.regs .r11
  r10 := cpu.regs .r10
  r9 := cpu.regs .r9
  r8 := cpu.regs .r8
  rbp := cpu.regs .rbp
  rdi := cpu.regs .rdi
  rsi := cpu.regs .rsi
  rdx := cpu.regs .rdx
  rcx := cpu.regs .rcx
  rbx := cpu.regs .rbx
  rax := cpu.regs .rax
  intNum := vector.toUInt64
  errorCode := if pushesErrorCode vector then errorCode else 0
  rip := cpu.rip
  cs := cpu.cs.toUInt64
  rflags := cpu.rflags
  rsp := cpu.rsp
  ss := cpu.ss.toUInt64

/-- A frame gives back the program it was made of. -/
@[simp] theorem Cpu.frame_cpu (cpu : Cpu) (vector : UInt8) (errorCode : UInt64) :
    (cpu.frame vector errorCode).cpu = cpu := by
  have regs : (cpu.frame vector errorCode).reg = cpu.regs := by
    funext reg
    cases reg <;> rfl
  rw [InterruptFrame.cpu, regs]
  simp [frame]

theorem read_of_words {memory : Bytes} {address : Nat} {frame : InterruptFrame}
    (words : Machine.Words memory address frame.words) : InterruptFrame.read memory address = frame := by
  simp only [InterruptFrame.words, Machine.Words, Nat.add_assoc, Nat.reduceAdd] at words
  simp [InterruptFrame.read, words]

/-- The C handler as the stub sees it: it leaves the stack where it was and its frame as
`handle` makes it, and beside the stack below it and that frame it writes only what is
its own. -/
structure Handles (handle : InterruptFrame → InterruptFrame) (own : Nat → Prop) (callee : Machine Reg → Machine Reg) :
    Prop where
  rsp : ∀ m, (callee m).rsp = m.rsp + 8
  frame : ∀ m, Machine.Words (callee m).memory (m.regs .rdi).toNat
    (handle (.read m.memory (m.regs .rdi).toNat)).words
  keeps : ∀ m position, m.rsp.toNat + 8 ≤ position → ¬ own position →
    (position < (m.regs .rdi).toNat ∨ (m.regs .rdi).toNat + 176 ≤ position) →
    (callee m).memory position = m.memory position

/-- A handler that only replaces its frame. -/
def replaceFrame (handle : InterruptFrame → InterruptFrame) (m : Machine Reg) : Machine Reg :=
  ⟨m.regs, m.rsp + 8,
    Machine.putWords m.memory (m.regs .rdi).toNat (handle (.read m.memory (m.regs .rdi).toNat)).words⟩

theorem replaceFrame_handles (handle : InterruptFrame → InterruptFrame) :
    Handles handle (fun _ => False) (replaceFrame handle) :=
  ⟨fun _ => rfl, fun _ => Machine.putWords_words _ _ _, fun _ _ _ _ outside => Machine.putWords_outside _ outside⟩

end LivlyOS.Interrupts
