import LivlyOS.Lib.Run
import LivlyOS.Proc.SchedularRing

namespace LivlyOS.Proc

open LivlyOS.Lib LivlyOS.Mm

inductive SchedularCall where
  | add (name : Option (List UInt8)) (entry : UInt64) (priority : UInt8)
  | remove (pid : UInt32)
  | kill (process : Nat)
  | yield
  | tick (frame : InterruptFrame)
  | reap

def SchedularCall.run (fuel : Nat) : SchedularCall → Kernel → Option Kernel
  | .add name entry priority, st => schedulerAdd fuel name entry priority st
  | .remove pid, st => schedularRemove fuel pid st
  | .kill process, st => some (killProcess process st)
  | .yield, st => some (processYield st)
  | .tick frame, st => (schedule fuel frame st).map fun result => result.1.1
  | .reap, st => reaperPass fuel st

/-- The kernel before `schedular_init`: any run of heap calls may lie behind it. -/
structure Booted (fuel pmmBitmapEnd : Nat) (st : Kernel) : Prop where
  positive : 0 < pmmBitmapEnd
  fits : pmmBitmapEnd + heapSize < 18446744073709551616
  enough : heapSize / sizeofBlock < fuel
  heap : ∃ mem calls use,
    Run (HeapStep fuel) (fun _ _ => True) (initialHeap pmmBitmapEnd mem) calls use ∧ use.heap = st.heap
  trace : st.trace = []

/-- A run of the scheduler. -/
abbrev SchedularRun (fuel : Nat) : Kernel → List SchedularCall → Kernel → Prop :=
  Run (fun st call st' => SchedularCall.run fuel call st = some st') fun _ _ => True

/-- The calls of a list one after the other. -/
def execute (fuel : Nat) : List SchedularCall → Kernel → Option Kernel
  | [], st => some st
  | call :: calls, st => (call.run fuel st).bind (execute fuel calls)

theorem execute_run (executed : execute fuel calls st = some st') : SchedularRun fuel st calls st' := by
  induction calls generalizing st with
  | nil =>
    cases executed
    exact .done
  | cons call calls ih =>
    obtain ⟨mid, ran, executed⟩ := Option.bind_eq_some_iff.mp executed
    exact .next trivial ran (ih executed)

/-- A kernel with an empty heap at two megabytes and sixteen free pages. -/
def idleKernel : Kernel where
  head := 0
  current := 0
  nextPid := 0
  pcbs := fun _ => ⟨zeroFrame, 0, .new, 0, 0, [], 0, 0, 0⟩
  heap := kmallocInit 0x200000 ⟨fun _ => 0, []⟩
  pmm := ⟨0x1FF000, fun _ => 0, 16, 16, 16, 0x200000⟩
  cr3 := 0x1000
  kernelStack := 0
  trace := []

theorem idleKernel_booted : Booted 32769 0x200000 idleKernel :=
  ⟨by decide, by decide, by decide, ⟨_, [], _, .done, rfl⟩, rfl⟩

section Runs

variable {fuel pmmBitmapEnd : Nat} {initial st : Kernel} {calls : List SchedularCall}

theorem Booted.inOrder (booted : Booted fuel pmmBitmapEnd initial) :
    InOrder pmmBitmapEnd (schedularInit initial) := by
  obtain ⟨positive, fits, enough, ⟨mem, calls, use, run, heap⟩, trace⟩ := booted
  obtain ⟨blocks, state⟩ := run_owned positive fits enough run
  have none : alive (schedularInit initial).trace = [] := by
    rw [schedularInit, trace, alive]
  refine ⟨⟨use, blocks, heap, state, ?_⟩, .inl ⟨rfl, none⟩, ?_, ?_⟩
  all_goals
    rw [none]
    exact fun pcb absent => absurd absent List.not_mem_nil

/-- Every call returns and keeps the scheduler in order. -/
theorem InOrder.call (order : InOrder start st) (enough : heapSize / sizeofBlock < fuel) (call : SchedularCall) :
    ∃ st', call.run fuel st = some st' ∧ InOrder start st' := by
  cases call with
  | add name entry priority => exact order.add enough name entry priority
  | remove pid => exact order.remove enough pid
  | kill process => exact ⟨_, rfl, order.kill process⟩
  | yield => exact ⟨_, rfl, order.yield⟩
  | tick frame =>
    obtain ⟨st', frame', selected, ticked, order', _⟩ := order.tick enough frame
    refine ⟨st', ?_, order'⟩
    rw [SchedularCall.run, ticked, Option.map_some]
  | reap => exact order.reaper enough

theorem run_inOrder (booted : Booted fuel pmmBitmapEnd initial)
    (run : SchedularRun fuel (schedularInit initial) calls st) : InOrder pmmBitmapEnd st := by
  refine run.invariant (InOrder pmmBitmapEnd) (fun st call st' order _ step => ?_) booted.inOrder
  obtain ⟨other, ran, order'⟩ := order.call booted.enough call
  cases ran.symm.trans step
  exact order'

/-- The ring of the scheduler: one cycle of the blocks that were created and not
freed, in the order of their creation, with the current process in it; only that
one may be running. -/
structure RingInvariant (st : Kernel) : Prop where
  empty : st.head = 0 → alive st.trace = []
  ring : st.head ≠ 0 → Ring st.next st.head (alive st.trace) ∧ st.current ∈ alive st.trace
  running : ∀ pcb ∈ alive st.trace, (st.pcbs pcb).state = .running → pcb = st.current

/-- The ring invariant holds after every run, and every further call returns. -/
theorem ring_run (booted : Booted fuel pmmBitmapEnd initial)
    (run : SchedularRun fuel (schedularInit initial) calls st) :
    RingInvariant st ∧ ∀ call, ∃ st', SchedularCall.run fuel call st = some st' := by
  have order := run_inOrder booted run
  refine ⟨⟨fun zero => ?_, fun nonzero => ?_, order.running⟩, fun call => ?_⟩
  · rcases order.ring with ⟨_, none⟩ | ⟨ring, _⟩
    · exact none
    · exact absurd zero (order.heap.nonzero ring.head_mem)
  · rcases order.ring with ⟨zero, _⟩ | ring
    · exact absurd zero nonzero
    · exact ring
  · obtain ⟨st', ran, _⟩ := order.call booted.enough call
    exact ⟨st', ran⟩

theorem ring_run_idleKernel : ∃ st, SchedularRun 32769 (schedularInit idleKernel)
      [.add (some [65]) 0x1000 0, .add (some [66]) 0x2000 2, .remove 1, .tick zeroFrame, .reap] st ∧
    alive st.trace = [0x200020] ∧ RingInvariant st := by
  have trace : (execute 32769 [.add (some [65]) 0x1000 0, .add (some [66]) 0x2000 2, .remove 1, .tick zeroFrame,
      .reap] (schedularInit idleKernel)).map (fun st => alive st.trace) = some [0x200020] := by
    decide +kernel
  obtain ⟨st, executed, members⟩ := Option.map_eq_some_iff.mp trace
  exact ⟨st, execute_run executed, members, (ring_run idleKernel_booted (execute_run executed)).1⟩

/-- Whenever a tick switches to a process after a run, it installs the frame of the
last tick that took the processor from it, or the one it was created with. New
processes never get the block of a living one. -/
theorem context_isolated (booted : Booted fuel pmmBitmapEnd initial)
    (run : SchedularRun fuel (schedularInit initial) calls st) :
    (∀ frame st' frame' next, schedule fuel frame st = some ((st', frame'), some next) →
        next ∈ alive st.trace ∧ lastFrame (.switchedOut st.current frame :: st.trace) next = some frame') ∧
      ∀ call st' pcb regs, SchedularCall.run fuel call st = some st' →
        st'.trace = .created pcb regs :: st.trace → pcb ∉ alive st.trace := by
  have order := run_inOrder booted run
  refine ⟨fun frame st' frame' next ticked => ?_, fun call st' pcb regs ran created => ?_⟩
  · obtain ⟨_, _, _, again, _, stays | ⟨_, member, rfl, _, trace, saved⟩⟩ := order.tick booted.enough frame
    · cases again.symm.trans ticked
      cases stays.1
    · cases again.symm.trans ticked
      exact ⟨member, trace ▸ saved⟩
  · obtain ⟨other, again, order'⟩ := order.call booted.enough call
    cases again.symm.trans ran
    have nodup := order'.nodup
    rw [created, alive] at nodup
    exact fun member => (List.nodup_append.mp nodup).2.2 pcb member pcb (List.mem_singleton_self _) rfl

/-- Two processes take turns; the second tick gives the first one its frame back. -/
theorem context_isolated_idleKernel : ∃ st st' pcb, SchedularRun 32769 (schedularInit idleKernel)
      [.add (some [65]) 0x1000 255, .add (some [66]) 0x2000 255, .tick { zeroFrame with rip := 0x1234 }] st ∧
    schedule 32769 zeroFrame st = some ((st', { zeroFrame with rip := 0x1234 }), some pcb) ∧
    lastFrame (.switchedOut st.current zeroFrame :: st.trace) pcb = some { zeroFrame with rip := 0x1234 } := by
  have trace : ((execute 32769 [.add (some [65]) 0x1000 255, .add (some [66]) 0x2000 255,
      .tick { zeroFrame with rip := 0x1234 }] (schedularInit idleKernel)).bind fun st =>
        (schedule 32769 zeroFrame st).map fun result => (result.1.2, result.2)) =
      some ({ zeroFrame with rip := 0x1234 }, some 0x200020) := by
    decide +kernel
  obtain ⟨st, executed, ticked⟩ := Option.bind_eq_some_iff.mp trace
  obtain ⟨⟨⟨st', frame⟩, selected⟩, ran, same⟩ := Option.map_eq_some_iff.mp ticked
  cases same
  exact ⟨st, st', _, execute_run executed, ran,
    ((context_isolated idleKernel_booted (execute_run executed)).1 _ _ _ _ ran).2⟩

end Runs

end LivlyOS.Proc
