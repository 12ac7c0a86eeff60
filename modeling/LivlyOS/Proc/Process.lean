import Mathlib.Logic.Function.Basic
import LivlyOS.Mm.Kmalloc

/-! Processes: their control blocks, how one is created on the kernel heap with a
page for its stack, and how one is marked as dead. -/

namespace LivlyOS.Proc

open LivlyOS.Lib LivlyOS.Mm

/-- The registers that the interrupt stub saves. -/
structure InterruptFrame where
  r15 : UInt64
  r14 : UInt64
  r13 : UInt64
  r12 : UInt64
  r11 : UInt64
  r10 : UInt64
  r9 : UInt64
  r8 : UInt64
  rbp : UInt64
  rdi : UInt64
  rsi : UInt64
  rdx : UInt64
  rcx : UInt64
  rbx : UInt64
  rax : UInt64
  intNum : UInt64
  errorCode : UInt64
  rip : UInt64
  cs : UInt64
  rflags : UInt64
  rsp : UInt64
  ss : UInt64
deriving DecidableEq

inductive ProcessState where
  | new
  | ready
  | running
  | blocked
  | zombie
deriving DecidableEq

structure PCB where
  regs : InterruptFrame
  cr3 : UInt64
  state : ProcessState
  pid : UInt32
  next : Nat
  name : List UInt8
  stack : Nat
  priority : UInt8
  ticksRemaining : UInt8

/-- `sizeof(PCB)`. -/
def sizeofPcb : UInt64 := 248

/-- What happened to processes, for statements about whole runs. -/
inductive Event where
  | created (pcb : Nat) (regs : InterruptFrame)
  | freed (pcb : Nat)
  | switchedOut (pcb : Nat) (frame : InterruptFrame)
deriving DecidableEq

/-- The static variables of the scheduler and what it works on: the control blocks
by their address, the allocators, the page table register and the stack pointer in
the task state segment. The trace lists the events so far, newest first. -/
structure Kernel where
  head : Nat
  current : Nat
  nextPid : UInt32
  pcbs : Nat → PCB
  heap : HeapState
  pmm : PmmState
  cr3 : UInt64
  kernelStack : Nat
  trace : List Event

/-- A store to a field of one control block. -/
def Kernel.modify (st : Kernel) (pcb : Nat) (change : PCB → PCB) : Kernel :=
  { st with pcbs := Function.update st.pcbs pcb (change (st.pcbs pcb)) }

def zeroFrame : InterruptFrame :=
  ⟨0, 0, 0, 0, 0, 0, 0, 0, 0, 0, 0, 0, 0, 0, 0, 0, 0, 0, 0, 0, 0, 0⟩

/-- The registers a process starts with. -/
def initialFrame (entry : UInt64) (stack : Nat) : InterruptFrame :=
  { zeroFrame with
    cs := 0x08
    ss := 0x10
    rflags := 0x202
    rip := entry
    rsp := UInt64.ofNat (stack + 4096) }

/-- The address of the new block, 0 for none. A name is given by its bytes in
front of the terminator. -/
def createProcess (fuel : Nat) (name : Option (List UInt8)) (entry : UInt64) (priority : UInt8)
    (st : Kernel) : Option (Nat × Kernel) :=
  match name with
  | none => some (0, st)
  | some name =>
    if entry = 0 ∨ name = [] then some (0, st)
    else
      (kmalloc fuel sizeofPcb st.heap).bind fun (pcb, heap) =>
        if pcb = 0 then some (0, { st with heap })
        else
          let (stack, pmm) := pmmAlloc st.pmm
          if stack = 0 then (kfree fuel pcb heap).map fun heap => (0, { st with heap, pmm })
          else
            some (pcb, { st with
              heap, pmm
              nextPid := st.nextPid + 1
              pcbs := Function.update st.pcbs pcb
                { regs := initialFrame entry stack
                  cr3 := st.cr3
                  state := .new
                  pid := st.nextPid
                  next := 0
                  name := name.take 31
                  stack
                  priority
                  ticksRemaining := 0 }
              trace := .created pcb (initialFrame entry stack) :: st.trace })

def killProcess (process : Nat) (st : Kernel) : Kernel :=
  if process = 0 then st
  else if (st.pcbs process).state = .zombie then st
  else st.modify process fun pcb => { pcb with state := .zombie }

end LivlyOS.Proc
