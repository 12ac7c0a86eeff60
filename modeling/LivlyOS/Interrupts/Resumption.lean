import LivlyOS.Interrupts.Stubs

/-! What an interrupt does to the program it stops: the C handler gets the whole
processor state in its frame, and the program that the frame describes afterwards is the
one that goes on. -/

namespace LivlyOS.Interrupts

open LivlyOS.Lib LivlyOS.Proc

/-- The order in which `isr_common` saves the registers. -/
def saveOrder : List Reg :=
  [.rax, .rbx, .rcx, .rdx, .rsi, .rdi, .rbp, .r8, .r9, .r10, .r11, .r12, .r13, .r14, .r15]

theorem mem_saveOrder (reg : Reg) : reg ∈ saveOrder.reverse := by
  cases reg <;> decide

theorem saveOrder_nodup : saveOrder.reverse.Nodup := by
  decide

theorem isrCommon_eq : isrCommon = saveOrder.map .push ++ ([.movRsp .rdi, .subRsp 8, .call, .addRsp 8] ++
    (saveOrder.reverse.map .pop ++ [.addRsp 16])) := rfl

/-- The mask of the processor rounds the stack pointer down to a multiple of 16. -/
theorem aligned_toNat (rsp : UInt64) : (rsp &&& ~~~15).toNat = rsp.toNat / 16 * 16 := by
  have mask : (~~~15 : UInt64).toNat = (2 ^ 60 - 1) <<< 4 := by decide
  have round : rsp.toNat / 16 * 16 = (rsp.toNat >>> 4) <<< 4 := by
    rw [Nat.shiftRight_eq_div_pow, Nat.shiftLeft_eq]
  have short : rsp.toNat < 2 ^ 64 := rsp.toNat_lt
  rw [UInt64.toNat_and, mask, round]
  refine Nat.eq_of_testBit_eq fun i => ?_
  rw [Nat.testBit_and, Nat.testBit_shiftLeft, Nat.testBit_shiftLeft, Nat.testBit_two_pow_sub_one, Nat.testBit_shiftRight]
  rcases Nat.lt_or_ge i 4 with low | high
  · simp [Nat.not_le.mpr low]
  · rcases Nat.lt_or_ge i 64 with inside | beyond
    · simp [high, Nat.add_sub_cancel' high]
      omega
    · have clear : rsp.toNat.testBit i = false :=
        Nat.testBit_lt_two_pow (Nat.lt_of_lt_of_le short (Nat.pow_le_pow_right (by decide) beyond))
      simp [Nat.add_sub_cancel' high, clear]

section Entry

variable {vector : UInt8} {errorCode : UInt64} {cpu : Cpu} {memory : Bytes}

theorem stopped_rsp (cpu : Cpu) (memory : Bytes) : (stopped cpu memory).rsp.toNat = cpu.rsp.toNat / 16 * 16 :=
  aligned_toNat cpu.rsp

/-- The words that end a frame. -/
abbrev returnWords (cpu : Cpu) : List UInt64 :=
  [cpu.rip, cpu.cs.toUInt64, cpu.rflags, cpu.rsp, cpu.ss.toUInt64]

theorem deliver_pushed (vector : UInt8) (errorCode : UInt64) (memory : Bytes) (room : 192 ≤ cpu.rsp.toNat) :
    Pushed (stopped cpu memory) (deliver vector errorCode cpu memory)
      ((if pushesErrorCode vector then [errorCode] else []) ++ returnWords cpu) := by
  have start := stopped_rsp cpu memory
  have returned := Pushed.pushAll (m := stopped cpu memory)
    [cpu.ss.toUInt64, cpu.rsp, cpu.rflags, cpu.cs.toUInt64, cpu.rip] (by simp only [List.length_cons, List.length_nil]; omega)
  rw [deliver]
  split
  · have below := returned.rsp
    simp only [List.length_reverse, List.length_cons, List.length_nil] at below
    exact (Pushed.pushWord (by omega) errorCode).trans returned
  · exact returned

theorem mem_errCodeVectors : vector ∈ errCodeVectors ↔ pushesErrorCode vector := by
  simp [errCodeVectors, pushesErrorCode, UInt8.le_iff_toNat_le, ← UInt8.toNat_inj]
  omega

/-- What the stub itself pushes, the last word on top. -/
def stubWords (vector : UInt8) : List UInt64 :=
  if vector ∈ errCodeVectors then [vector.toUInt64] else [0, vector.toUInt64]

/-- The machine at the end of the saving part, whatever handler follows. -/
def saved (vector : UInt8) (errorCode : UInt64) (cpu : Cpu) (memory : Bytes) : Machine Reg :=
  ((deliver vector errorCode cpu memory).pushAll (stubWords vector)).pushAll (saveOrder.map cpu.regs)

/-- With every vector, the whole frame lies on the stack. -/
theorem saved_pushed (vector : UInt8) (errorCode : UInt64) (memory : Bytes) (room : 192 ≤ cpu.rsp.toNat) :
    Pushed (stopped cpu memory) (saved vector errorCode cpu memory) (cpu.frame vector errorCode).words := by
  have start := stopped_rsp cpu memory
  have delivered := deliver_pushed vector errorCode memory room
  have uniform : (stubWords vector).reverse ++ ((if pushesErrorCode vector then [errorCode] else []) ++ returnWords cpu) =
      [vector.toUInt64, if pushesErrorCode vector then errorCode else 0] ++ returnWords cpu := by
    simp only [stubWords, mem_errCodeVectors]
    split <;> rfl
  have length : (stubWords vector).length ≤ 2 := by
    rw [stubWords]
    split <;> simp
  have depth := delivered.rsp
  have few : ((if pushesErrorCode vector then [errorCode] else []) ++ returnWords cpu).length ≤ 6 := by
    split <;> simp
  have numbered := (Pushed.pushAll (m := deliver vector errorCode cpu memory) (stubWords vector) (by omega)).trans delivered
  rw [uniform] at numbered
  have depth := numbered.rsp
  simp only [List.length_append, List.length_cons, List.length_nil] at depth
  have all := (Pushed.pushAll (m := (deliver vector errorCode cpu memory).pushAll (stubWords vector))
    (saveOrder.map cpu.regs) (by simp only [saveOrder, List.map_cons, List.map_nil, List.length_cons, List.length_nil]; omega)).trans
      numbered
  exact all

theorem execAll_saves (back : UInt64) (callee : Machine Reg → Machine Reg) (rest : List (Instr Reg)) :
    execAll back callee ((if vector ∈ errCodeVectors then isrErrCode vector else isrNoErrCode vector) ++
        (saveOrder.map .push ++ rest)) (deliver vector errorCode cpu memory) =
      execAll back callee rest (saved vector errorCode cpu memory) := by
  have regs : ((deliver vector errorCode cpu memory).pushAll (stubWords vector)).regs = cpu.regs := by
    rw [deliver, stubWords]
    split <;> split <;> rfl
  have stub : execAll back callee (if vector ∈ errCodeVectors then isrErrCode vector else isrNoErrCode vector)
      (deliver vector errorCode cpu memory) = (deliver vector errorCode cpu memory).pushAll (stubWords vector) := by
    rw [stubWords]
    split <;> rfl
  rw [execAll_append, execAll_append, stub, execAll_pushes, regs]
  rfl

/-- The machine when `isr_common` calls the handler. -/
def atCall (vector : UInt8) (errorCode : UInt64) (cpu : Cpu) (memory : Bytes) : Machine Reg :=
  execAll 0 id ((isr vector).takeWhile (· ≠ .call)) (deliver vector errorCode cpu memory)

theorem takeWhile_isr (vector : UInt8) : (isr vector).takeWhile (· ≠ .call) =
    (if vector ∈ errCodeVectors then isrErrCode vector else isrNoErrCode vector) ++
      (saveOrder.map .push ++ [.movRsp .rdi, .subRsp 8]) := by
  rw [isr]
  split <;> rfl

theorem atCall_eq : atCall vector errorCode cpu memory =
    ⟨Function.update (saved vector errorCode cpu memory).regs .rdi (saved vector errorCode cpu memory).rsp,
      (saved vector errorCode cpu memory).rsp - 8, (saved vector errorCode cpu memory).memory⟩ := by
  rw [atCall, takeWhile_isr, execAll_saves]
  generalize saved vector errorCode cpu memory = m
  rfl

/-- With every vector and wherever the stack pointer of the stopped program was, the
handler gets an aligned frame of that program, and the call is made with a stack that
is not aligned to 16 bytes: the frame of 22 words keeps the alignment of the processor,
which the padding of `isr_common` then loses. -/
theorem call_misaligned (vector : UInt8) (errorCode : UInt64) (cpu : Cpu) (memory : Bytes)
    (room : 192 ≤ cpu.rsp.toNat) :
    (atCall vector errorCode cpu memory).rsp.toNat % 16 = 8 ∧
      ((atCall vector errorCode cpu memory).regs .rdi).toNat % 16 = 0 ∧
      InterruptFrame.read (atCall vector errorCode cpu memory).memory ((atCall vector errorCode cpu memory).regs .rdi).toNat =
        cpu.frame vector errorCode := by
  have start := stopped_rsp cpu memory
  have frame := saved_pushed vector errorCode memory room
  have depth : _ + 8 * 22 = _ := frame.rsp
  have below : ((saved vector errorCode cpu memory).rsp - 8).toNat = (saved vector errorCode cpu memory).rsp.toNat - 8 :=
    Machine.pushWord_rsp (by omega) 0
  rw [atCall_eq]
  dsimp only
  rw [Function.update_self, below]
  exact ⟨by omega, by omega, read_of_words frame.words⟩

theorem call_misaligned_pageFault : (atCall 14 2 ⟨fun _ => 0, 0x1000, 8, 0x202, 0x7C05, 0x10⟩ fun _ => 0).rsp.toNat % 16 = 8 :=
  (call_misaligned 14 2 ⟨fun _ => 0, 0x1000, 8, 0x202, 0x7C05, 0x10⟩ (fun _ => 0) (by decide)).1

end Entry

section Return

variable {handle : InterruptFrame → InterruptFrame} {own : Nat → Prop} {callee : Machine Reg → Machine Reg}
  {back : UInt64} {vector : UInt8} {errorCode : UInt64} {cpu : Cpu} {memory : Bytes}

/-- The machine after the call and the padding behind it. -/
def called (back : UInt64) (callee : Machine Reg → Machine Reg) (m : Machine Reg) : Machine Reg :=
  execAll back callee [.movRsp .rdi, .subRsp 8, .call, .addRsp 8] m

/-- The handler works on the frame below which it was called, and the stack is then back
at that frame. -/
theorem called_spec (handles : Handles handle own callee) (back : UInt64) {m : Machine Reg} {frame : InterruptFrame}
    (words : Machine.Words m.memory m.rsp.toNat frame.words) (room : 16 ≤ m.rsp.toNat) :
    (called back callee m).rsp = m.rsp ∧
      Machine.Words (called back callee m).memory m.rsp.toNat (handle frame).words ∧
      ∀ position, m.rsp.toNat + 176 ≤ position → ¬ own position →
        (called back callee m).memory position = m.memory position := by
  have entry : called back callee m = { callee
      (Machine.pushWord ⟨Function.update m.regs .rdi m.rsp, m.rsp - 8, m.memory⟩ back) with
      rsp := (callee (Machine.pushWord ⟨Function.update m.regs .rdi m.rsp, m.rsp - 8, m.memory⟩ back)).rsp + 8 } := rfl
  have padded : (m.rsp - 8).toNat = m.rsp.toNat - 8 := Machine.pushWord_rsp (by omega) 0
  have pushed := Pushed.pushWord (m := ⟨Function.update m.regs .rdi m.rsp, m.rsp - 8, m.memory⟩)
    (show 8 ≤ (m.rsp - 8).toNat by omega) back
  have above := pushed.above
  have regs : (Machine.pushWord ⟨Function.update m.regs .rdi m.rsp, m.rsp - 8, m.memory⟩ back).regs .rdi = m.rsp := by
    rw [pushed.regs]
    exact Function.update_self Reg.rdi m.rsp m.regs
  have rsp : (Machine.pushWord ⟨Function.update m.regs .rdi m.rsp, m.rsp - 8, m.memory⟩ back).rsp = m.rsp - 8 - 8 := rfl
  generalize Machine.pushWord ⟨Function.update m.regs .rdi m.rsp, m.rsp - 8, m.memory⟩ back = inside at *
  rw [entry]
  dsimp only at above ⊢
  refine ⟨?_, ?_, fun position high foreign => ?_⟩
  · rw [handles.rsp, rsp, UInt64.sub_add_cancel, UInt64.sub_add_cancel]
  · have kept : Machine.Words inside.memory m.rsp.toNat frame.words :=
      words.congr fun position high _ => above position (by omega)
    have made := handles.frame inside
    rw [regs, read_of_words kept] at made
    exact made
  · have deep : (m.rsp - 8 - 8).toNat + 8 = (m.rsp - 8).toNat := rsp ▸ pushed.rsp
    rw [handles.keeps inside position (by rw [rsp]; omega) foreign (.inr (by rw [regs]; exact high)),
      above position (by omega)]

theorem return_spec (back : UInt64) (callee : Machine Reg → Machine Reg) {m : Machine Reg} {frame : InterruptFrame} (words : Machine.Words m.memory m.rsp.toNat frame.words)
    (fits : m.rsp.toNat + 176 < 18446744073709551616) :
    iretq (execAll back callee (saveOrder.reverse.map .pop ++ [.addRsp 16]) m) = frame.cpu ∧
      (execAll back callee (saveOrder.reverse.map .pop ++ [.addRsp 16]) m).memory = m.memory := by
  have split : frame.words = saveOrder.reverse.map frame.reg ++
      [frame.intNum, frame.errorCode, frame.rip, frame.cs, frame.rflags, frame.rsp, frame.ss] := rfl
  rw [split] at words
  obtain ⟨registers, rest⟩ := (Machine.words_append _).mp words
  have length : (saveOrder.reverse.map frame.reg).length = 15 := rfl
  rw [length] at rest
  have popped := @execAll_pops _ _ back callee m saveOrder.reverse frame.reg saveOrder_nodup registers
    (show m.rsp.toNat + 8 * 15 < _ by omega)
  have regs : (fun reg => if reg ∈ saveOrder.reverse then frame.reg reg else m.regs reg) = frame.reg :=
    funext fun reg => if_pos (mem_saveOrder reg)
  have rsp : m.rsp + UInt64.ofNat (8 * saveOrder.reverse.length) + 16 = m.rsp + 136 := UInt64.add_assoc ..
  have whole : execAll back callee (saveOrder.reverse.map .pop ++ [.addRsp 16]) m =
      ⟨frame.reg, m.rsp + 136, m.memory⟩ := by
    rw [execAll_append, popped, regs, ← rsp]
    rfl
  have at136 : (m.rsp + 136).toNat = m.rsp.toNat + 136 := Machine.toNat_add_of_fits 136 (by change _ + 136 < _; omega)
  have field (offset : UInt64) (small : offset.toNat ≤ 32) :
      (m.rsp + 136 + offset).toNat = m.rsp.toNat + 136 + offset.toNat := by
    rw [Machine.toNat_add_of_fits offset (by omega), at136]
  obtain ⟨_, _, rip, cs, rflags, old, ss, _⟩ := rest
  rw [whole]
  refine ⟨?_, rfl⟩
  have load {address : UInt64} {value : UInt64} (offset : Nat) (there : address.toNat = m.rsp.toNat + 136 + offset)
      (word : word m.memory (m.rsp.toNat + 136 + offset) 8 = value.toNat) : load64 m.memory address = value := by
    rw [load64, there, word, UInt64.ofNat_toNat]
  rw [iretq, InterruptFrame.cpu]
  dsimp only
  rw [load 0 at136 rip, load 8 (field 8 (by decide)) cs, load 16 (field 16 (by decide)) rflags,
    load 24 (field 24 (by decide)) old, load 32 (field 32 (by decide)) ss]

/-- Whatever the vector, the program that goes on is the one that the handler's frame
describes, and the handler got the one that was stopped. From the old stack pointer on
memory changes only where it is the handler's own; the 176 bytes below the aligned stack
pointer hold the frame afterwards. -/
theorem interrupt_frame (handles : Handles handle own callee) (room : 192 ≤ cpu.rsp.toNat) :
    (interrupt back callee vector errorCode cpu memory).1 = (handle (cpu.frame vector errorCode)).cpu ∧
      (∀ position, cpu.rsp.toNat ≤ position → ¬ own position →
        (interrupt back callee vector errorCode cpu memory).2 position = memory position) ∧
      Machine.Words (interrupt back callee vector errorCode cpu memory).2 (cpu.rsp.toNat / 16 * 16 - 176)
        (handle (cpu.frame vector errorCode)).words := by
  have start := stopped_rsp cpu memory
  have short := cpu.rsp.toNat_lt
  have frame := saved_pushed vector errorCode memory room
  have depth : (saved vector errorCode cpu memory).rsp.toNat + 8 * 22 = _ := frame.rsp
  obtain ⟨rsp, words, keeps⟩ := called_spec handles back frame.words (by omega)
  have resumed := return_spec back callee (rsp.symm ▸ words) (by rw [rsp]; omega)
  have code : interrupt back callee vector errorCode cpu memory =
      (iretq (execAll back callee (saveOrder.reverse.map .pop ++ [.addRsp 16])
        (called back callee (saved vector errorCode cpu memory))),
      (execAll back callee (saveOrder.reverse.map .pop ++ [.addRsp 16])
        (called back callee (saved vector errorCode cpu memory))).memory) := by
    rw [interrupt, isr, isrCommon_eq, execAll_saves, execAll_append]
    rfl
  have bottom : (saved vector errorCode cpu memory).rsp.toNat = cpu.rsp.toNat / 16 * 16 - 176 := by omega
  rw [code, resumed.1, resumed.2, ← bottom]
  refine ⟨rfl, fun position above foreign => ?_, words⟩
  dsimp only
  rw [keeps position (by omega) foreign, frame.above position (by omega)]
  rfl

theorem interrupt_frame_timer : (interrupt 0 (replaceFrame fun _ => zeroFrame) 32 0
      ⟨fun _ => 7, 0x1000, 8, 0x202, 0x7C05, 0x10⟩ fun _ => 0).1 = zeroFrame.cpu :=
  (interrupt_frame (replaceFrame_handles fun _ => zeroFrame) (by decide)).1

end Return

end LivlyOS.Interrupts
