import LivlyOS.Interrupts.Handler
import LivlyOS.Interrupts.Resumption
import LivlyOS.Proc.SchedularRuns

/-! Runs of the whole machine: programs that compute, calls of the scheduler, devices
that raise their lines, and interrupts from the acknowledge cycle to the `iretq`. -/

namespace LivlyOS.Interrupts

open LivlyOS.Lib LivlyOS.Mm LivlyOS.Proc LivlyOS.Drivers

structure System where
  cpu : Cpu
  memory : Bytes
  pics : Pics
  statics : Statics

namespace System

abbrev scheduler (s : System) : Kernel := s.statics.scheduler

inductive Action where
  | compute
  | call (call : SchedularCall)
  | read
  | raise (irq : Irq)
  | mask (write : UInt16 × UInt8)
  | interrupt (scancode : UInt8)

/-- A step. Between interrupts the running program may leave anything in its registers
and in memory; the C handler is any code that works on its frame as its source says. -/
inductive Step (fuel : Nat) (behind : List Char → Nat → UInt8) : System → Action → System → Prop where
  | compute (cpu : Cpu) (memory : Bytes) : Step fuel behind s .compute { s with cpu, memory }
  | call {kernel : Kernel} (other : ∀ frame, call ≠ .tick frame) (ran : call.run fuel s.scheduler = some kernel)
      (cpu : Cpu) (memory : Bytes) :
      Step fuel behind s (.call call) { s with cpu, memory, statics := { s.statics with scheduler := kernel } }
  | read (popped : keyboardRead s.statics.keyboard.buffer = some (c, buffer)) (cpu : Cpu) (memory : Bytes) :
      Step fuel behind s .read
        { s with cpu, memory, statics := { s.statics with keyboard := { s.statics.keyboard with buffer } } }
  | raise (irq : Irq) : Step fuel behind s (.raise irq) { s with pics := s.pics.raise irq }
  | mask (port : write.1 = 0x21 ∨ write.1 = 0xA1) :
      Step fuel behind s (.mask write) { s with pics := s.pics.outb write }
  | interrupt {statics : Statics} {outs : List (UInt16 × UInt8)} {pics : Pics} (back : UInt64)
      (enabled : s.cpu.rflags.toNat.testBit 9 = true) (room : 192 ≤ s.cpu.rsp.toNat)
      (acknowledged : s.pics.acknowledge = some (vector, pics)) (handles : Handles handle own callee)
      (handled : exceptionHandler fuel behind scancode (s.cpu.frame vector 0) s.statics =
        some (.returned (handle (s.cpu.frame vector 0)) statics outs)) :
      Step fuel behind s (.interrupt scancode)
        ⟨(Interrupts.interrupt back callee vector 0 s.cpu s.memory).1,
          (Interrupts.interrupt back callee vector 0 s.cpu s.memory).2, pics.outbs outs, statics⟩

/-- Behind `idt_init` and `schedular_init`. -/
structure Start (fuel pmmBitmapEnd : Nat) (s : System) : Prop where
  booted : ∃ kernel, Booted fuel pmmBitmapEnd kernel ∧ s.scheduler = schedularInit kernel
  remapped : ∃ pics, s.pics = picRemap 32 40 pics

/-- What holds between two steps: saved frames are those of timer ticks or of new
processes. -/
structure Ready (start : Nat) (s : System) : Prop where
  order : InOrder start s.scheduler
  idle : s.pics.Idle
  frames : ∀ pcb frame, lastFrame s.scheduler.trace pcb = some frame → frame.intNum = 0 ∨ frame.intNum = 32

end System

section Trace

variable {fuel start : Nat} {st st' : Kernel}

theorem createProcess_trace (ran : createProcess fuel name entry priority st = some (pcb, st')) :
    st'.trace = st.trace ∨ ∃ stack, st'.trace = .created pcb (initialFrame entry stack) :: st.trace := by
  unfold createProcess at ran
  split at ran
  · cases ran
    exact .inl rfl
  · split at ran
    · cases ran
      exact .inl rfl
    · obtain ⟨⟨block, heap⟩, _, made⟩ := Option.bind_eq_some_iff.mp ran
      dsimp only at made
      split at made
      · cases made
        exact .inl rfl
      · split at made
        · obtain ⟨heap', _, same⟩ := Option.map_eq_some_iff.mp made
          cases same
          exact .inl rfl
        · cases made
          exact .inr ⟨_, rfl⟩

theorem schedulerAdd_trace (ran : schedulerAdd fuel name entry priority st = some st') :
    st'.trace = st.trace ∨ ∃ pcb stack, st'.trace = .created pcb (initialFrame entry stack) :: st.trace := by
  obtain ⟨⟨pcb, made⟩, created, linked⟩ := Option.bind_eq_some_iff.mp ran
  have same : st'.trace = made.trace := by
    dsimp only at linked
    split at linked
    · cases linked
      rfl
    · split at linked
      · cases linked
        rfl
      · obtain ⟨temp, _, rfl⟩ := Option.map_eq_some_iff.mp linked
        rfl
  rw [same]
  exact (createProcess_trace created).imp_right fun ⟨stack, trace⟩ => ⟨pcb, stack, trace⟩

theorem reap_trace {head current : Nat} : {safety prev cur : Nat} → {st : Kernel} →
    reap fuel head current safety prev cur st = some st' →
    ∃ dead : List Nat, st'.trace = dead.map Event.freed ++ st.trace
  | 0, _, _, _, ran => by
    cases ran
    exact ⟨[], rfl⟩
  | safety + 1, prev, cur, st, ran => by
    rw [reap] at ran
    split at ran
    · cases ran
      exact ⟨[], rfl⟩
    · split at ran
      · obtain ⟨heap, _, ran⟩ := Option.bind_eq_some_iff.mp ran
        obtain ⟨dead, trace⟩ := reap_trace ran
        exact ⟨dead ++ [cur], by rw [trace, List.map_append, List.append_assoc]; rfl⟩
      · exact reap_trace ran

/-- What a call of the scheduler other than a tick adds to the trace. -/
inductive Grows (trace : List Event) : List Event → Prop where
  | created (pcb : Nat) (fresh : pcb ∉ alive trace) (entry : UInt64) (stack : Nat) :
      Grows trace (.created pcb (initialFrame entry stack) :: trace)
  | freed (dead : List Nat) : Grows trace (dead.map Event.freed ++ trace)

theorem Grows.refl (trace : List Event) : Grows trace trace := .freed []

theorem killProcess_trace (process : Nat) (st : Kernel) : (killProcess process st).trace = st.trace := by
  rw [killProcess]
  split
  · rfl
  · split <;> rfl

theorem call_grows {call : SchedularCall} (order : InOrder start st) (enough : heapSize / sizeofBlock < fuel)
    (other : ∀ frame, call ≠ .tick frame) (ran : call.run fuel st = some st') : Grows st.trace st'.trace := by
  have order' : InOrder start st' := by
    obtain ⟨next, again, order'⟩ := order.call enough call
    cases again.symm.trans ran
    exact order'
  cases call with
  | add name entry priority =>
    rcases schedulerAdd_trace ran with same | ⟨pcb, stack, trace⟩
    · exact same ▸ .refl st.trace
    · have nodup := order'.nodup
      rw [trace, alive] at nodup
      rw [trace]
      exact .created pcb (fun member => (List.nodup_append.mp nodup).2.2 pcb member pcb (List.mem_singleton_self _) rfl)
        entry stack
  | remove pid =>
    have short := order.heap.length_le order.nodup
    have removed := schedularRemove_eq order.processRing (by omega : _ ≤ fuel) pid
    cases removed.symm.trans ran
    cases st.named pid (alive st.trace) with
    | none => exact .refl st.trace
    | some process =>
      rw [Option.elim_some, killProcess_trace]
      exact .refl st.trace
  | kill process =>
    cases ran
    rw [killProcess_trace]
    exact .refl st.trace
  | yield =>
    cases ran
    rw [processYield]
    split <;> exact .refl st.trace
  | tick frame => exact absurd rfl (other frame)
  | reap =>
    change reaperPass fuel st = some st' at ran
    rw [reaperPass] at ran
    split at ran
    · cases ran
      exact .refl st.trace
    · obtain ⟨dead, trace⟩ := reap_trace ran
      exact trace ▸ .freed dead

/-- A tick without a switch leaves the current process. -/
theorem schedule_stays {frame frame' : InterruptFrame} (ticked : schedule fuel frame st = some ((st', frame'), none)) :
    st'.current = st.current := by
  have counted : (Proc.countDown st).current = st.current := by
    rw [Proc.countDown]
    split <;> rfl
  have stopped : (preempt (Proc.countDown st)).current = st.current := by
    rw [preempt]
    split <;> exact counted
  rw [schedule] at ticked
  split at ticked
  · cases ticked
    rfl
  · dsimp only at ticked
    split at ticked
    · cases ticked
      exact counted
    · obtain ⟨total, _, made⟩ := Option.map_eq_some_iff.mp ticked
      split at made
      · cases made
        exact stopped
      · cases made

theorem lastFrame_freed (dead : List Nat) (trace : List Event) (pcb : Nat) :
    lastFrame (dead.map Event.freed ++ trace) pcb = lastFrame trace pcb := by
  induction dead with
  | nil => rfl
  | cons process dead ih => exact ih

/-- A living process keeps its frame while others come and go. -/
theorem Grows.lastFrame {trace trace' : List Event} (grows : Grows trace trace') (member : pcb ∈ alive trace) :
    lastFrame trace' pcb = lastFrame trace pcb := by
  cases grows with
  | created other fresh entry stack =>
    have different : other ≠ pcb := fun same => fresh (same ▸ member)
    rw [Proc.lastFrame, if_neg different]
  | freed dead => exact lastFrame_freed dead trace pcb

theorem Grows.frames {trace trace' : List Event} (grows : Grows trace trace')
    (frames : ∀ pcb frame, Proc.lastFrame trace pcb = some frame → frame.intNum = 0 ∨ frame.intNum = 32)
    (pcb : Nat) (frame : InterruptFrame) (saved : Proc.lastFrame trace' pcb = some frame) :
    frame.intNum = 0 ∨ frame.intNum = 32 := by
  cases grows with
  | created other fresh entry stack =>
    rw [Proc.lastFrame] at saved
    split at saved
    · cases saved
      exact .inl rfl
    · exact frames pcb frame saved
  | freed dead => exact frames pcb frame (lastFrame_freed dead trace pcb ▸ saved)

end Trace

section Service

variable {fuel start : Nat} {behind : List Char → Nat → UInt8} {scancode : UInt8}

theorem intNum_frame (cpu : Cpu) (irq : Irq) (errorCode : UInt64) :
    (cpu.frame irq.vector errorCode).intNum = UInt64.ofNat (32 + irq.number) := by
  cases irq with
  | master line => exact (Pics.masterVector_eq line).2
  | slave line =>
    have sum : 32 + (8 + line.val) = 40 + line.val := by omega
    rw [Irq.number, sum]
    exact (Pics.slaveVector_eq line).2

theorem Irq.number_lt (irq : Irq) : irq.number < 16 := by
  cases irq <;> simp only [Irq.number] <;> omega

/-- What the handler does for a request. -/
structure Serves (fuel : Nat) (behind : List Char → Nat → UInt8) (scancode : UInt8) (irq : Irq)
    (frame frame' : InterruptFrame) (st st' : Statics) : Prop where
  timer : irq = .master 0 → ∃ selected,
    schedule fuel frame st.scheduler = some ((st'.scheduler, frame'), selected)
  others : irq ≠ .master 0 → frame' = frame ∧ st'.scheduler = st.scheduler
  ticks : st'.systemTicks = if irq = .master 0 then st.systemTicks + 1 else st.systemTicks
  keyboard : st'.keyboard = if irq = .master 1 then keyboardHandler behind st.keyboard scancode else st.keyboard
  vga : st'.vga = st.vga

theorem Irq.number_eq_zero (irq : Irq) : irq.number = 0 ↔ irq = .master 0 := by
  cases irq with
  | master line => exact ⟨fun zero => congrArg Irq.master (Fin.ext zero), fun same => by cases same; rfl⟩
  | slave line => exact ⟨fun zero => by rw [number] at zero; omega, nofun⟩

theorem Irq.number_eq_one (irq : Irq) : irq.number = 1 ↔ irq = .master 1 := by
  cases irq with
  | master line => exact ⟨fun one => congrArg Irq.master (Fin.ext one), fun same => by cases same; rfl⟩
  | slave line => exact ⟨fun one => by rw [number] at one; omega, nofun⟩

/-- Where an interrupt number lies among the constants of the handler. -/
theorem intNum_cases (irq : Irq) {intNum : UInt64} (number : intNum = UInt64.ofNat (32 + irq.number)) :
    ¬intNum < 32 ∧ intNum < 48 ∧ (intNum = 32 ↔ irq = .master 0) ∧ (intNum = 33 ↔ irq = .master 1) := by
  have small := irq.number_lt
  have value : intNum.toNat = 32 + irq.number := by
    rw [number]
    exact UInt64.toNat_ofNat_of_lt' (by change _ < 18446744073709551616; omega)
  rw [UInt64.lt_iff_toNat_lt, UInt64.lt_iff_toNat_lt, ← UInt64.toNat_inj, ← UInt64.toNat_inj, value,
    ← irq.number_eq_zero, ← irq.number_eq_one]
  refine ⟨?_, ?_, ?_, ?_⟩
  · change ¬32 + irq.number < 32
    omega
  · change 32 + irq.number < 48
    omega
  · change 32 + irq.number = 32 ↔ irq.number = 0
    omega
  · change 32 + irq.number = 33 ↔ irq.number = 1
    omega

/-- A tick gives the handler a frame with which it neither reads the keyboard nor ends
an interrupt of the slave. -/
theorem timerPart_frame {frame frame' : InterruptFrame} {st st' : Statics} (order : InOrder start st.scheduler)
    (enough : heapSize / sizeofBlock < fuel) (number : frame.intNum = 32)
    (frames : ∀ pcb frame, lastFrame st.scheduler.trace pcb = some frame → frame.intNum = 0 ∨ frame.intNum = 32)
    (ran : timerPart fuel frame st = some (frame', st')) :
    (frame'.intNum = 0 ∨ frame'.intNum = 32) ∧ ∃ selected,
      schedule fuel frame st.scheduler = some ((st'.scheduler, frame'), selected) ∧
      st' = { st with scheduler := st'.scheduler, systemTicks := st.systemTicks + 1 } := by
  rw [timerPart, if_pos number] at ran
  obtain ⟨⟨⟨kernel, next⟩, selected⟩, ticked, made⟩ := Option.map_eq_some_iff.mp ran
  cases made
  refine ⟨?_, selected, ticked, rfl⟩
  obtain ⟨_, _, _, again, _, stays | ⟨process, _, _, _, trace, saved⟩⟩ := order.tick enough frame
  · cases again.symm.trans ticked
    exact stays.2.1 ▸ .inr number
  · cases again.symm.trans ticked
    rw [trace, lastFrame] at saved
    split at saved
    · cases saved
      exact .inr number
    · exact frames process next saved

/-- Every request is handled, with the end of interrupt that its controllers need,
although a tick has replaced the number in the frame by then. -/
theorem handler_spec {st : Statics} (behind : List Char → Nat → UInt8) (scancode : UInt8) (order : InOrder start st.scheduler) (enough : heapSize / sizeofBlock < fuel)
    (frames : ∀ pcb frame, lastFrame st.scheduler.trace pcb = some frame → frame.intNum = 0 ∨ frame.intNum = 32)
    (cpu : Cpu) (irq : Irq) :
    ∃ frame' st', exceptionHandler fuel behind scancode (cpu.frame irq.vector 0) st =
        some (.returned frame' st' (picEoi irq.vector.toUInt64)) ∧
      Serves fuel behind scancode irq (cpu.frame irq.vector 0) frame' st st' := by
  obtain ⟨high, low, timer, keyboard⟩ := intNum_cases irq (intNum_frame cpu irq 0)
  rw [exceptionHandler, if_neg high, if_pos low]
  by_cases tick : irq = .master 0
  · subst tick
    have number : (cpu.frame (Irq.master 0).vector 0).intNum = 32 := timer.mpr rfl
    obtain ⟨kernel, next, selected, ticked, _⟩ := order.tick enough (cpu.frame (Irq.master 0).vector 0)
    have ran : timerPart fuel (cpu.frame (Irq.master 0).vector 0) st =
        some (next, { st with scheduler := kernel, systemTicks := st.systemTicks + 1 }) := by
      rw [timerPart, if_pos number, ticked, Option.map_some]
    have plain := (timerPart_frame order enough number frames ran).1
    have quiet : next.intNum ≠ 33 ∧ ¬next.intNum ≥ 40 := by
      rcases plain with zero | same
      · exact zero ▸ ⟨by decide, by decide⟩
      · exact same ▸ ⟨by decide, by decide⟩
    have ended : picEoi next.intNum = picEoi (Irq.master 0).vector.toUInt64 := by
      rw [picEoi, if_neg quiet.2]
      decide
    rw [ran, Option.map_some]
    dsimp only
    rw [if_neg quiet.1, ended]
    exact ⟨next, _, rfl, ⟨fun _ => ⟨selected, ticked⟩, fun other => absurd rfl other, (if_pos rfl).symm,
      (if_neg (by decide)).symm, rfl⟩⟩
  · rw [timerPart, if_neg (mt timer.mp tick), Option.map_some]
    dsimp only
    refine ⟨_, _, rfl, ⟨fun same => absurd same tick, fun _ => ⟨rfl, ?_⟩, ?_, ?_, ?_⟩⟩
    · split <;> rfl
    · rw [if_neg tick]
      split <;> rfl
    · by_cases key : irq = .master 1
      · rw [if_pos (keyboard.mpr key), if_pos key]
      · rw [if_neg (mt keyboard.mp key), if_neg key]
    · split <;> rfl

theorem Irq.first_vector {pics : Pics} {vector : UInt8} {pics' : Pics} (idle : pics.Idle)
    (acknowledged : pics.acknowledge = some (vector, pics')) :
    ∃ irq : Irq, pics.First irq ∧ vector = irq.vector ∧
      pics'.outbs (picEoi irq.vector.toUInt64) = pics.served irq := by
  obtain ⟨irq, first, rfl, served⟩ := Pics.acknowledge_some idle acknowledged
  exact ⟨irq, first, rfl, served⟩

/-- An interrupt serves the first request: the controllers drop it and nothing else, the
handler does its part, and the processor goes on with what is in the frame. -/
theorem System.Ready.interrupt {s s' : System} (ready : s.Ready start) (enough : heapSize / sizeofBlock < fuel)
    (step : System.Step fuel behind s (.interrupt scancode) s') :
    ∃ irq frame', s.pics.First irq ∧ s'.pics = s.pics.served irq ∧ s'.cpu = frame'.cpu ∧
      Serves fuel behind scancode irq (s.cpu.frame irq.vector 0) frame' s.statics s'.statics := by
  cases step with
  | interrupt back enabled room acknowledged handles handled =>
    obtain ⟨irq, first, rfl, served⟩ := Irq.first_vector ready.idle acknowledged
    obtain ⟨frame', statics, again, serves⟩ :=
      handler_spec behind scancode ready.order enough ready.frames s.cpu irq
    obtain ⟨rfl, rfl, rfl⟩ := Outcome.returned.inj (Option.some.inj (again.symm.trans handled))
    exact ⟨irq, _, first, served, (interrupt_frame handles room).1, serves⟩

/-- As long as a request is open and interrupts are on, there is one. -/
theorem System.Ready.interrupts {s : System} (ready : s.Ready start) (enough : heapSize / sizeofBlock < fuel)
    (wanted : s.pics.Wants irq) (enabled : s.cpu.rflags.toNat.testBit 9 = true) (room : 192 ≤ s.cpu.rsp.toNat)
    (behind : List Char → Nat → UInt8) (scancode : UInt8) : ∃ s', System.Step fuel behind s (.interrupt scancode) s' := by
  rcases answer : s.pics.acknowledge with _ | ⟨vector, pics⟩
  · exact absurd wanted ((Pics.acknowledge_eq_none_iff ready.idle).mp answer irq)
  · obtain ⟨first, _, rfl, _⟩ := Irq.first_vector ready.idle answer
    obtain ⟨frame', statics, handled, _⟩ :=
      handler_spec behind scancode ready.order enough ready.frames s.cpu first
    exact ⟨_, .interrupt 0 enabled room answer (replaceFrame_handles fun _ => frame') handled⟩

theorem Pics.Idle.served {pics : Pics} (idle : pics.Idle) (irq : Irq) : (pics.served irq).Idle := by
  cases irq with
  | master line => exact ⟨idle.master, idle.slave⟩
  | slave line => exact ⟨idle.master, idle.slave⟩

theorem Pics.Idle.raise {pics : Pics} (idle : pics.Idle) (irq : Irq) : (pics.raise irq).Idle := by
  cases irq with
  | master line => exact ⟨idle.master, idle.slave⟩
  | slave line => exact ⟨idle.master, idle.slave⟩

theorem Pics.Idle.mask {pics : Pics} (idle : pics.Idle) (port : write.1 = 0x21 ∨ write.1 = 0xA1) :
    (pics.outb write).Idle := by
  obtain ⟨port', value⟩ := write
  rcases port with rfl | rfl
  · have written : pics.outb (0x21, value) = { pics with master := pics.master.data value } := rfl
    rw [written, Pic.data_ready idle.master.1]
    exact ⟨idle.master, idle.slave⟩
  · have written : pics.outb (0xA1, value) = { pics with slave := pics.slave.data value } := rfl
    rw [written, Pic.data_ready idle.slave.1]
    exact ⟨idle.master, idle.slave⟩

end Service

namespace System

/-- How a process comes to wait: a tick takes the processor from it, or it is new. -/
inductive Parks (fuel : Nat) (behind : List Char → Nat → UInt8) (s s' : System) : Nat → Cpu → Prop where
  | preempted (step : Step fuel behind s (.interrupt scancode) s')
      (switched : s'.scheduler.trace ≠ s.scheduler.trace) : Parks fuel behind s s' s.scheduler.current s.cpu
  | created (trace : s'.scheduler.trace = .created process frame :: s.scheduler.trace) :
      Parks fuel behind s s' process frame.cpu

section Runs

variable {fuel start pmmBitmapEnd : Nat} {behind : List Char → Nat → UInt8} {s s' : System}

/-- A switch from the current process: its registers were those of the processor, and
the processor has those that the next process left. -/
structure Switches (s s' : System) : Prop where
  member : s'.scheduler.current ∈ alive s.scheduler.trace
  left : ∃ irq : Irq, (s.cpu.frame irq.vector 0).intNum = 32 ∧
    s'.scheduler.trace = .switchedOut s.scheduler.current (s.cpu.frame irq.vector 0) :: s.scheduler.trace
  entered : ∃ frame, lastFrame s'.scheduler.trace s'.scheduler.current = some frame ∧ s'.cpu = frame.cpu

/-- An interrupt leaves the scheduler's list alone or is a tick that switches. -/
theorem Ready.interrupt_switches (ready : s.Ready start) (enough : heapSize / sizeofBlock < fuel)
    (step : Step fuel behind s (.interrupt scancode) s') :
    InOrder start s'.scheduler ∧
      (s'.scheduler.trace = s.scheduler.trace ∧ s'.cpu = s.cpu ∧ s'.scheduler.current = s.scheduler.current ∨
        Switches s s') := by
  obtain ⟨irq, frame', _, _, resumed, serves⟩ := ready.interrupt enough step
  by_cases tick : irq = .master 0
  · obtain ⟨selected, ticked⟩ := serves.timer tick
    have number := (intNum_cases irq (intNum_frame s.cpu irq 0)).2.2.1.mpr tick
    obtain ⟨_, _, _, again, order', stays | ⟨process, member, _, current, trace, saved⟩⟩ :=
      ready.order.tick enough (s.cpu.frame irq.vector 0)
    · cases again.symm.trans ticked
      obtain ⟨rfl, same, trace⟩ := stays
      exact ⟨order', .inl ⟨trace, resumed.trans (same ▸ Cpu.frame_cpu s.cpu irq.vector 0), schedule_stays ticked⟩⟩
    · cases again.symm.trans ticked
      exact ⟨order', .inr ⟨current ▸ member, ⟨irq, number, trace⟩, frame', current ▸ saved, resumed⟩⟩
  · obtain ⟨same, kept⟩ := serves.others tick
    rw [scheduler, kept]
    exact ⟨ready.order, .inl ⟨rfl, resumed.trans (same ▸ Cpu.frame_cpu s.cpu irq.vector 0), rfl⟩⟩

theorem Ready.scheduler_step (ready : s.Ready start) (enough : heapSize / sizeofBlock < fuel)
    (step : Step fuel behind s action s') :
    InOrder start s'.scheduler ∧ (Grows s.scheduler.trace s'.scheduler.trace ∨ Switches s s') := by
  have same : InOrder start s.scheduler ∧ Grows s.scheduler.trace s.scheduler.trace := ⟨ready.order, .refl _⟩
  cases action with
  | interrupt scancode =>
    obtain ⟨order', stays | switches⟩ := ready.interrupt_switches enough step
    · exact ⟨order', .inl (stays.1 ▸ .refl _)⟩
    · exact ⟨order', .inr switches⟩
  | call call =>
    cases step with
    | call other ran =>
      obtain ⟨kernel', again, order'⟩ := ready.order.call enough call
      cases again.symm.trans ran
      exact ⟨order', .inl (call_grows ready.order enough other ran)⟩
  | compute =>
    cases step
    exact ⟨same.1, .inl same.2⟩
  | read =>
    cases step
    exact ⟨same.1, .inl same.2⟩
  | raise irq =>
    cases step
    exact ⟨same.1, .inl same.2⟩
  | mask write =>
    cases step
    exact ⟨same.1, .inl same.2⟩

theorem Ready.step (ready : s.Ready start) (enough : heapSize / sizeofBlock < fuel)
    (step : Step fuel behind s action s') : s'.Ready start := by
  obtain ⟨order, grown⟩ := ready.scheduler_step enough step
  refine ⟨order, ?_, fun pcb frame saved => ?_⟩
  · cases action with
    | interrupt scancode =>
      obtain ⟨irq, _, _, served, _⟩ := ready.interrupt enough step
      exact served ▸ ready.idle.served irq
    | raise irq =>
      cases step
      exact ready.idle.raise irq
    | mask write =>
      cases step with
      | mask port => exact ready.idle.mask port
    | compute =>
      cases step
      exact ready.idle
    | call call =>
      cases step
      exact ready.idle
    | read =>
      cases step
      exact ready.idle
  · rcases grown with grows | ⟨_, ⟨irq, number, trace⟩, _⟩
    · exact grows.frames ready.frames pcb frame saved
    · rw [trace, lastFrame] at saved
      split at saved
      · cases saved
        exact .inr number
      · exact ready.frames pcb frame saved

/-- Runs of the machine. -/
abbrev MachineRun (fuel : Nat) (behind : List Char → Nat → UInt8) (ok : System → Action → Prop) :
    System → List Action → System → Prop := Run (Step fuel behind) ok

theorem Start.enough (begun : s.Start fuel pmmBitmapEnd) : heapSize / sizeofBlock < fuel := by
  obtain ⟨⟨_, booted, _⟩, _⟩ := begun
  exact booted.enough

theorem Start.ready (begun : s.Start fuel pmmBitmapEnd) : s.Ready pmmBitmapEnd := by
  obtain ⟨⟨kernel, booted, same⟩, pics, remapped⟩ := begun
  refine ⟨same ▸ booted.inOrder, remapped ▸ picRemap_idle pics, fun pcb frame saved => ?_⟩
  rw [same, schedularInit, booted.trace] at saved
  cases saved

theorem Ready.run {ok : System → Action → Prop} (ready : s.Ready start) (enough : heapSize / sizeofBlock < fuel)
    (run : MachineRun fuel behind ok s actions s') : s'.Ready start :=
  run.invariant (Ready start) (fun _ _ _ ready _ step => ready.step enough step) ready

/-- The registers of a process that waits. -/
def Waits (process : Nat) (cpu : Cpu) (s : System) : Prop :=
  ∃ frame, lastFrame s.scheduler.trace process = some frame ∧ frame.cpu = cpu

/-- A process that lives and does not run keeps its registers. -/
theorem Ready.waits {cpu : Cpu} (ready : s.Ready start) (enough : heapSize / sizeofBlock < fuel) (waits : Waits process cpu s)
    (idle : s.scheduler.current ≠ process) (living : process ∈ alive s.scheduler.trace)
    (step : Step fuel behind s action s') : Waits process cpu s' := by
  obtain ⟨frame, saved, same⟩ := waits
  refine ⟨frame, ?_, same⟩
  obtain ⟨_, grows | ⟨_, ⟨_, _, trace⟩, _⟩⟩ := ready.scheduler_step enough step
  · rw [grows.lastFrame living, saved]
  · rw [trace, lastFrame, if_neg idle, saved]

theorem Ready.parks {cpu : Cpu} (ready : s.Ready start) (enough : heapSize / sizeofBlock < fuel)
    (parks : Parks fuel behind s s' process cpu) : Waits process cpu s' := by
  cases parks with
  | preempted step switched =>
    obtain ⟨_, stays | ⟨_, ⟨irq, _, trace⟩, _⟩⟩ := ready.interrupt_switches enough step
    · exact absurd stays.1 switched
    · exact ⟨_, by rw [trace, lastFrame, if_pos rfl], Cpu.frame_cpu s.cpu irq.vector 0⟩
  | created trace => exact ⟨_, by rw [trace, lastFrame, if_pos rfl], rfl⟩

/-- A process that lives and does not run. -/
def Idles (process : Nat) (s : System) : Prop :=
  s.scheduler.current ≠ process ∧ process ∈ alive s.scheduler.trace

theorem Ready.waits_run {cpu : Cpu} (ready : s.Ready start) (enough : heapSize / sizeofBlock < fuel)
    (waits : Waits process cpu s) (run : MachineRun fuel behind (fun s _ => Idles process s) s actions s') :
    Waits process cpu s' := by
  refine (run.invariant (fun s => s.Ready start ∧ Waits process cpu s) (fun s action s' kept idles step => ?_)
    ⟨ready, waits⟩).2
  exact ⟨kept.1.step enough step, kept.1.waits enough kept.2 idles.1 idles.2 step⟩

/-- In every run, a process that a tick stops, or that is new, goes on with exactly the
registers, flags, stack and instruction pointer it stopped with, whatever ran in between,
at the tick that gives it the processor back. -/
theorem resumes_where_stopped {initial stopping parked resuming resumed : System} {cpu : Cpu}
    (begun : initial.Start fuel pmmBitmapEnd)
    (before : MachineRun fuel behind (fun _ _ => True) initial earlier stopping)
    (step : Step fuel behind stopping action parked) (parks : Parks fuel behind stopping parked process cpu)
    (waiting : MachineRun fuel behind (fun s _ => Idles process s) parked later resuming) (idle : Idles process resuming)
    (back : Step fuel behind resuming (.interrupt scancode) resumed) (again : resumed.scheduler.current = process) :
    resumed.cpu = cpu := by
  have enough := begun.enough
  have ready := begun.ready.run enough before
  have parkedReady := ready.step enough step
  have ready' := parkedReady.run enough waiting
  obtain ⟨frame, saved, same⟩ := parkedReady.waits_run enough (ready.parks enough parks) waiting
  obtain ⟨_, ⟨_, _, stays⟩ | ⟨_, ⟨_, _, trace⟩, frame', entered, gone⟩⟩ := ready'.interrupt_switches enough back
  · exact absurd (stays.symm.trans again) idle.1
  · rw [again, trace, lastFrame, if_neg idle.1, saved] at entered
    cases entered
    rw [gone, same]

/-- In every run, an interrupt serves the open request with the highest priority: the
controllers drop exactly that request and have nothing in service afterwards, only the
timer counts and schedules, only the keyboard reads a scancode, and with any other
request the stopped program goes on. As long as a request is open and interrupts are on,
the next one can be served. -/
theorem irq_service {initial s : System} (begun : initial.Start fuel pmmBitmapEnd)
    (run : MachineRun fuel behind (fun _ _ => True) initial actions s) :
    (∀ scancode s', Step fuel behind s (.interrupt scancode) s' → ∃ irq frame', s.pics.First irq ∧
        s'.pics = s.pics.served irq ∧ s'.pics.Idle ∧ s'.cpu = frame'.cpu ∧
        Serves fuel behind scancode irq (s.cpu.frame irq.vector 0) frame' s.statics s'.statics ∧
        (irq ≠ .master 0 → s'.cpu = s.cpu)) ∧
      ∀ irq scancode, s.pics.Wants irq → s.cpu.rflags.toNat.testBit 9 = true → 192 ≤ s.cpu.rsp.toNat →
        ∃ s', Step fuel behind s (.interrupt scancode) s' := by
  have enough := begun.enough
  have ready := begun.ready.run enough run
  refine ⟨fun scancode s' step => ?_, fun irq scancode wanted enabled room => ?_⟩
  · obtain ⟨irq, frame', first, served, resumed, serves⟩ := ready.interrupt enough step
    refine ⟨irq, frame', first, served, (ready.step enough step).idle, resumed, serves, fun other => ?_⟩
    rw [resumed, (serves.others other).1, Cpu.frame_cpu]
  · exact ready.interrupts enough wanted enabled room behind scancode

end Runs

section Examples

/-- Both controllers at power-up. -/
def powerUp : Pics := ⟨⟨fun _ => false, fun _ => false, 0, 0, 0, .ready⟩, ⟨fun _ => false, fun _ => false, 0, 0, 0, .ready⟩⟩

def runningCpu : Cpu := ⟨fun _ => 7, 0x1000, 8, 0x202, 0x8000, 0x10⟩

def idleSystem : System :=
  ⟨runningCpu, fun _ => 0, picRemap 32 40 powerUp, ⟨schedularInit idleKernel, keyboardStart, 0, fun _ => 0⟩⟩

theorem idleSystem_start : idleSystem.Start 32769 0x200000 :=
  ⟨⟨idleKernel, idleKernel_booted, rfl⟩, powerUp, rfl⟩

theorem Ready.timer_step {fuel start : Nat} {behind : List Char → Nat → UInt8} {s : System} {kernel : Kernel}
    (ready : s.Ready start) (enough : heapSize / sizeofBlock < fuel) (wanted : s.pics.Wants (.master 0))
    (enabled : s.cpu.rflags.toNat.testBit 9 = true) (room : 192 ≤ s.cpu.rsp.toNat) (scancode : UInt8)
    (ticked : schedule fuel (s.cpu.frame (Irq.master 0).vector 0) s.scheduler = some ((kernel, frame), selected)) :
    ∃ s', Step fuel behind s (.interrupt scancode) s' ∧ s'.scheduler = kernel ∧ s'.cpu = frame.cpu ∧
      s'.pics = s.pics.served (.master 0) := by
  obtain ⟨s', step⟩ := ready.interrupts enough wanted enabled room behind scancode
  obtain ⟨irq, frame', first, served, resumed, serves⟩ := ready.interrupt enough step
  have least := first.2 _ wanted
  have timer : irq = .master 0 := by
    cases irq with
    | master line => exact congrArg Irq.master (Fin.ext (by simp only [Irq.rank] at least; omega))
    | slave line => simp only [Irq.rank] at least; omega
  subst timer
  obtain ⟨_, again⟩ := serves.timer rfl
  cases again.symm.trans ticked
  exact ⟨s', step, rfl, resumed, served⟩

theorem execute_machineRun {fuel : Nat} (behind : List Char → Nat → UInt8) (s : System) {kernel : Kernel}
    (others : ∀ call ∈ calls, ∀ frame, call ≠ .tick frame) (executed : execute fuel calls s.scheduler = some kernel) :
    MachineRun fuel behind (fun _ _ => True) s (calls.map .call)
      { s with statics := { s.statics with scheduler := kernel } } := by
  induction calls generalizing s with
  | nil =>
    cases executed
    exact .done
  | cons call calls ih =>
    obtain ⟨mid, ran, executed⟩ := Option.bind_eq_some_iff.mp executed
    exact .next trivial (.call (others call List.mem_cons_self) ran s.cpu s.memory)
      (ih { s with statics := { s.statics with scheduler := mid } }
        (fun call member => others call (List.mem_cons_of_mem _ member)) executed)

/-- The timer is served before the keyboard. -/
theorem irq_service_timer : ∃ s s', MachineRun 32769 (fun _ _ => 0) (fun _ _ => True) idleSystem
      [.raise (.master 1), .raise (.master 0)] s ∧
    Step 32769 (fun _ _ => 0) s (.interrupt 0x1E) s' ∧ s'.cpu = runningCpu := by
  have run : MachineRun 32769 (fun _ _ => 0) (fun _ _ => True) idleSystem [.raise (.master 1), .raise (.master 0)] _ :=
    .next trivial (.raise _) (.next trivial (.raise _) .done)
  obtain ⟨served, serves⟩ := irq_service idleSystem_start run
  obtain ⟨s', step⟩ := serves (.master 0) 0x1E ⟨by decide, rfl, by decide⟩ (by decide) (by decide)
  refine ⟨_, s', run, step, ?_⟩
  obtain ⟨irq, frame', _, _, _, resumed, serves, others⟩ := served 0x1E s' step
  by_cases timer : irq = .master 0
  · -- there is no process yet
    have nobody : schedule 32769 (runningCpu.frame irq.vector 0) idleSystem.scheduler =
        some ((idleSystem.scheduler, runningCpu.frame irq.vector 0), none) := rfl
    obtain ⟨_, ticked⟩ := serves.timer timer
    have same : runningCpu.frame irq.vector 0 = frame' :=
      congrArg (fun result => result.1.2) (Option.some.inj (nobody.symm.trans ticked))
    rw [resumed, ← same, Cpu.frame_cpu]
  · exact others timer

/-- Two processes take turns; the second tick gives the first one its registers back. -/
theorem resumes_where_stopped_twoProcesses : ∃ stopping parked resuming resumed earlier,
    MachineRun 32769 (fun _ _ => 0) (fun _ _ => True) idleSystem earlier stopping ∧
    Step 32769 (fun _ _ => 0) stopping (.interrupt 0) parked ∧ parked.cpu.rip = 0x2000 ∧
    MachineRun 32769 (fun _ _ => 0) (fun _ _ => True) parked [.raise (.master 0)] resuming ∧
    Step 32769 (fun _ _ => 0) resuming (.interrupt 0) resumed ∧ resumed.cpu = runningCpu := by
  have trace : ((execute 32769 [.add (some [65]) 0x1000 255, .add (some [66]) 0x2000 255] idleSystem.scheduler).bind
      fun st => (schedule 32769 (runningCpu.frame (Irq.master 0).vector 0) st).bind fun parked =>
        (schedule 32769 (parked.1.2.cpu.frame (Irq.master 0).vector 0) parked.1.1).map fun resumed =>
          decide (st.trace.length < parked.1.1.trace.length ∧ st.current ≠ parked.1.1.current ∧
            st.current ∈ alive parked.1.1.trace ∧ parked.1.2.cpu.rip = 0x2000 ∧ parked.1.2.cpu.rflags = 0x202 ∧
            192 ≤ parked.1.2.cpu.rsp.toNat ∧ resumed.1.1.current = st.current)) = some true := by
    decide +kernel
  obtain ⟨kernel, executed, trace⟩ := Option.bind_eq_some_iff.mp trace
  obtain ⟨⟨⟨kernel', frame⟩, _⟩, first, trace⟩ := Option.bind_eq_some_iff.mp trace
  obtain ⟨⟨⟨kernel'', frame'⟩, _⟩, second, facts⟩ := Option.map_eq_some_iff.mp trace
  obtain ⟨longer, other, living, rip, flags, room, again⟩ := of_decide_eq_true facts
  have calls := execute_machineRun (fun _ _ => 0) idleSystem (by simp) executed
  have before := calls.append (.next trivial (.raise (.master 0)) .done)
  have enough := idleSystem_start.enough
  have ready := idleSystem_start.ready.run enough before
  have wanted : ((picRemap 32 40 powerUp).raise (.master 0)).Wants (.master 0) := ⟨by decide, rfl, by decide⟩
  have wanted' : ((((picRemap 32 40 powerUp).raise (.master 0)).served (.master 0)).raise (.master 0)).Wants (.master 0) :=
    ⟨by decide, rfl, by decide⟩
  have enabled : runningCpu.rflags.toNat.testBit 9 = true ∧ 192 ≤ runningCpu.rsp.toNat := by decide
  obtain ⟨parked, stop, scheduler, cpu, pics⟩ := ready.timer_step enough wanted enabled.1 enabled.2 0 first
  have raised : Step 32769 (fun _ _ => 0) parked (.raise (.master 0)) _ := .raise _
  have ready' := (ready.step enough stop).step enough raised
  obtain ⟨resumed, back, scheduler', _, _⟩ := ready'.timer_step enough
    (by rw [pics]; exact wanted') (by dsimp only; rw [cpu, flags]; decide)
    (by dsimp only; rw [cpu]; exact room) 0
    (show schedule 32769 _ _ = some ((kernel'', frame'), _) by
      rw [System.scheduler] at scheduler
      rw [System.scheduler, cpu, scheduler]
      exact second)
  have idle : Idles kernel.current parked := by
    rw [Idles, scheduler]
    exact ⟨Ne.symm other, living⟩
  refine ⟨_, parked, _, resumed, _, before, stop, cpu ▸ rip, .next trivial raised .done, back, ?_⟩
  exact resumes_where_stopped idleSystem_start before stop
    (.preempted stop fun same => by rw [scheduler] at same; rw [same] at longer; exact Nat.lt_irrefl _ longer)
    (.next idle raised .done) idle back (scheduler' ▸ again)

end Examples

end System

end LivlyOS.Interrupts
