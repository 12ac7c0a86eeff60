import LivlyOS.Proc.Process

/-! The scheduler: a circular list of control blocks from `head` on, the running
process `current`, the timer tick and the reaper. -/

namespace LivlyOS.Proc

open LivlyOS.Lib LivlyOS.Mm

def getQuantum (priority : UInt8) : UInt8 :=
  if priority = 0 then 4
  else if priority = 1 then 3
  else if priority = 2 then 2
  else 1

def schedularInit (st : Kernel) : Kernel := { st with head := 0, current := 0 }

/-- One turn of the way to the last block. -/
def tailTurn (st : Kernel) (temp : Nat) : Turn Nat Nat :=
  if (st.pcbs temp).next ≠ st.head then .again (st.pcbs temp).next else .leave temp

def schedulerAdd (fuel : Nat) (name : Option (List UInt8)) (entry : UInt64) (priority : UInt8)
    (st : Kernel) : Option Kernel :=
  (createProcess fuel name entry priority st).bind fun (neu, st) =>
    if neu = 0 then some st
    else
      let st := st.modify neu fun pcb => { pcb with ticksRemaining := getQuantum priority }
      if st.head = 0 then
        some ({ st with current := neu, head := neu }.modify neu fun pcb =>
          { pcb with next := neu, state := .running })
      else
        (loop (tailTurn st) fuel st.head).map fun temp =>
          (st.modify temp fun pcb => { pcb with next := neu }).modify neu fun pcb =>
            { pcb with next := st.head, state := .ready }

/-- One turn of `schedular_remove`. -/
def removeTurn (pid : UInt32) (st : Kernel) (cur : Nat) : Turn Nat Kernel :=
  if (st.pcbs cur).pid = pid then .leave (killProcess cur st)
  else if (st.pcbs cur).next ≠ st.head then .again (st.pcbs cur).next
  else .leave st

def schedularRemove (fuel : Nat) (pid : UInt32) (st : Kernel) : Option Kernel :=
  if st.head = 0 then some st else loop (removeTurn pid st) fuel st.head

/-- `process_yield` up to the `hlt`. -/
def processYield (st : Kernel) : Kernel :=
  if st.current = 0 then st else st.modify st.current fun pcb => { pcb with ticksRemaining := 0 }

/-- The inner loop of the reaper with `safety` blocks to go. -/
def reap (fuel head current : Nat) : (safety prev cur : Nat) → Kernel → Option Kernel
  | 0, _, _, st => some st
  | safety + 1, prev, cur, st =>
    if cur = head then some st
    else if (st.pcbs cur).state = .zombie ∧ cur ≠ current then
      let st := st.modify prev fun pcb => { pcb with next := (st.pcbs cur).next }
      let pmm := pmmFree (st.pcbs cur).stack st.pmm
      (kfree fuel cur st.heap).bind fun heap =>
        reap fuel head current safety prev (st.pcbs prev).next
          { st with heap, pmm, trace := .freed cur :: st.trace }
    else reap fuel head current safety cur (st.pcbs cur).next st

/-- One round of `reaper_process`. -/
def reaperPass (fuel : Nat) (st : Kernel) : Option Kernel :=
  if st.head = 0 then some st
  else reap fuel st.head st.current 100 st.head (st.pcbs st.head).next st

/-- One turn of the count of all blocks. -/
def countTurn (st : Kernel) (walk : UInt8 × Nat) : Turn (UInt8 × Nat) UInt8 :=
  let total := walk.1 + 1
  let temp := (st.pcbs walk.2).next
  if temp ≠ st.head then .again (total, temp) else .leave total

/-- The loop that skips dead processes with `left` blocks to go. -/
def skipZombies (st : Kernel) : (left next : Nat) → Nat
  | 0, next => next
  | left + 1, next =>
    if (st.pcbs next).state = .zombie then skipZombies st left (st.pcbs next).next else next

/-- The countdown at the start of `schedule`. -/
def countDown (st : Kernel) : Kernel :=
  if 0 < (st.pcbs st.current).ticksRemaining then
    st.modify st.current fun pcb => { pcb with ticksRemaining := pcb.ticksRemaining - 1 }
  else st

/-- The running process becomes a ready one. -/
def preempt (st : Kernel) : Kernel :=
  if (st.pcbs st.current).state = .running then
    st.modify st.current fun pcb => { pcb with state := .ready }
  else st

/-- The end of `schedule`: the frame goes to the old process, the one of the new
process is installed. -/
def switchTo (frame : InterruptFrame) (next : Nat) (st : Kernel) : Kernel × InterruptFrame :=
  let st := { st.modify st.current fun pcb => { pcb with regs := frame } with
    trace := .switchedOut st.current frame :: st.trace }
  let st := { st with current := next }
  let st := st.modify next fun pcb => { pcb with state := .running }
  let st := st.modify next fun pcb => { pcb with ticksRemaining := getQuantum pcb.priority }
  ({ st with kernelStack := u64 ((st.pcbs next).stack + 4096) }, (st.pcbs next).regs)

/-- A timer tick: the state and the frame after it, and the process that the tick
switches to, if it does. -/
def schedule (fuel : Nat) (frame : InterruptFrame) (st : Kernel) :
    Option ((Kernel × InterruptFrame) × Option Nat) :=
  if st.current = 0 ∨ st.head = 0 then some ((st, frame), none)
  else
    let st := countDown st
    if 0 < (st.pcbs st.current).ticksRemaining then some ((st, frame), none)
    else
      let st := preempt st
      (loop (countTurn st) fuel (0, st.head)).map fun total =>
        let next := skipZombies st total.toNat (st.pcbs st.current).next
        if (st.pcbs next).state = .zombie then ((st, frame), none)
        else (switchTo frame next st, some next)

end LivlyOS.Proc
