import Mathlib.Data.List.Perm.Subperm
import LivlyOS.Lib.Ring
import LivlyOS.Mm.HeapSafety
import LivlyOS.Proc.Schedular

namespace LivlyOS.Proc

open LivlyOS.Lib LivlyOS.Mm

/-- The blocks that were created and not freed, in the order of their creation. -/
def alive : List Event → List Nat
  | [] => []
  | .created pcb _ :: earlier => alive earlier ++ [pcb]
  | .freed pcb :: earlier => (alive earlier).erase pcb
  | .switchedOut _ _ :: earlier => alive earlier

/-- The registers of a process when it last lost the processor, the initial ones
before that. -/
def lastFrame : List Event → Nat → Option InterruptFrame
  | [], _ => none
  | .created pcb regs :: earlier, process => if pcb = process then some regs else lastFrame earlier process
  | .freed _ :: earlier, process => lastFrame earlier process
  | .switchedOut pcb frame :: earlier, process =>
    if pcb = process then some frame else lastFrame earlier process

/-- The heap is in order and the control blocks are live in it. -/
def HeapHolds (heap : HeapState) (start : Nat) (pcbs : List Nat) : Prop :=
  ∃ use blocks, use.heap = heap ∧ HeapUse.Owned use start blocks ∧ ∀ pcb ∈ pcbs, pcb ∈ use.live.map Prod.fst

namespace HeapHolds

theorem nonzero (holds : HeapHolds heap start pcbs) (member : pcb ∈ pcbs) : pcb ≠ 0 := by
  obtain ⟨use, blocks, _, state, live⟩ := holds
  obtain ⟨range, present, rfl⟩ := List.mem_map.mp (live pcb member)
  obtain ⟨block, _, _, starts, _⟩ := state.owned range present
  rw [starts, sizeofBlock]
  omega

/-- Every block of the heap holds one process at most. -/
theorem length_le (holds : HeapHolds heap start pcbs) (nodup : pcbs.Nodup) :
    pcbs.length < heapSize / sizeofBlock + 1 := by
  obtain ⟨use, blocks, _, state, live⟩ := holds
  have inside : pcbs ⊆ blocks.map fun block => block.addr + sizeofBlock := by
    intro pcb member
    obtain ⟨range, present, rfl⟩ := List.mem_map.mp (live pcb member)
    obtain ⟨block, there, _, starts, _⟩ := state.owned range present
    exact List.mem_map.mpr ⟨block, there, starts.symm⟩
  have short := (List.Nodup.subperm nodup inside).length_le
  rw [List.length_map] at short
  exact Nat.lt_of_le_of_lt short state.heap.length_lt

theorem kmalloc (holds : HeapHolds heap start pcbs) (enough : heapSize / sizeofBlock < fuel) (size : UInt64) :
    ∃ ptr heap', Mm.kmalloc fuel size heap = some (ptr, heap') ∧
      (ptr = 0 ∧ HeapHolds heap' start pcbs ∨
        ptr ≠ 0 ∧ ptr ∉ pcbs ∧ HeapHolds heap' start (pcbs ++ [ptr])) := by
  obtain ⟨use, blocks, rfl, state, live⟩ := holds
  obtain ⟨ptr, heap', ran⟩ := (state.returns enough).1 size
  obtain ⟨blocks', _, state'⟩ := state.step enough (.kmalloc ran)
  refine ⟨ptr, heap', ran, ?_⟩
  by_cases null : ptr = 0
  · rw [if_pos null] at state'
    exact .inl ⟨null, _, blocks', rfl, state', live⟩
  · rw [if_neg null] at state'
    have fresh := (List.nodup_cons.mp state'.nodup).1
    refine .inr ⟨null, fun member => fresh (live ptr member), _, blocks', rfl, state', fun pcb member => ?_⟩
    rcases List.mem_append.mp member with old | only
    · exact List.mem_cons_of_mem _ (live pcb old)
    · rw [List.mem_singleton.mp only]
      exact List.mem_cons_self

theorem kfree (holds : HeapHolds heap start pcbs) (enough : heapSize / sizeofBlock < fuel)
    (member : ptr ∈ pcbs) (nodup : pcbs.Nodup) :
    ∃ heap', Mm.kfree fuel ptr heap = some heap' ∧ HeapHolds heap' start (pcbs.erase ptr) := by
  obtain ⟨use, blocks, rfl, state, live⟩ := holds
  have owned := live ptr member
  obtain ⟨heap', ran⟩ := (state.returns enough).2 ptr (.inr owned)
  obtain ⟨blocks', _, state'⟩ := state.step enough (.kfree (.inr owned) ran)
  refine ⟨heap', ran, _, blocks', rfl, state', fun pcb kept => ?_⟩
  obtain ⟨different, old⟩ := nodup.mem_erase_iff.mp kept
  obtain ⟨range, present, rfl⟩ := List.mem_map.mp (live pcb old)
  exact List.mem_map_of_mem (List.mem_filter.mpr ⟨present, decide_eq_true different⟩)

end HeapHolds

/-- The successor of a process. -/
def Kernel.next (st : Kernel) (pcb : Nat) : Nat := (st.pcbs pcb).next

/-- The first process of a list with the given pid. -/
def Kernel.named (st : Kernel) (pid : UInt32) (nodes : List Nat) : Option Nat :=
  nodes.find? fun process => (st.pcbs process).pid == pid

/-- The processes of the list of the scheduler, from its head on. -/
def ProcessRing (st : Kernel) (nodes : List Nat) : Prop :=
  st.head = 0 ∧ nodes = [] ∨ Ring st.next st.head nodes ∧ 0 ∉ nodes

/-- The state of the scheduler between two calls. -/
structure InOrder (start : Nat) (st : Kernel) : Prop where
  heap : HeapHolds st.heap start (alive st.trace)
  ring : st.head = 0 ∧ alive st.trace = [] ∨
    Ring st.next st.head (alive st.trace) ∧ st.current ∈ alive st.trace
  running : ∀ pcb ∈ alive st.trace, (st.pcbs pcb).state = .running → pcb = st.current
  saved : ∀ pcb ∈ alive st.trace, lastFrame st.trace pcb = some (st.pcbs pcb).regs

@[simp] theorem Kernel.modify_same (st : Kernel) (pcb : Nat) (change : PCB → PCB) :
    (st.modify pcb change).pcbs pcb = change (st.pcbs pcb) := Function.update_self ..

theorem Kernel.modify_other (st : Kernel) (change : PCB → PCB) (different : other ≠ pcb) :
    (st.modify pcb change).pcbs other = st.pcbs other := Function.update_of_ne different ..

namespace InOrder

/-- A change that leaves the link and the registers alone and lets no other process
run. -/
theorem modify (order : InOrder start st) {change : PCB → PCB}
    (next : (change (st.pcbs pcb)).next = (st.pcbs pcb).next)
    (regs : (change (st.pcbs pcb)).regs = (st.pcbs pcb).regs)
    (running : (change (st.pcbs pcb)).state = .running → (st.pcbs pcb).state = .running) :
    InOrder start (st.modify pcb change) := by
  have links : ∀ other, (st.modify pcb change).next other = st.next other := by
    intro other
    by_cases same : other = pcb
    · rw [same, Kernel.next, Kernel.modify_same, next, Kernel.next]
    · rw [Kernel.next, st.modify_other change same, Kernel.next]
  refine ⟨order.heap, order.ring.imp id fun ring => ⟨ring.1.congr fun other _ => links other, ring.2⟩, ?_, ?_⟩
  · intro other member runs
    apply order.running other member
    by_cases same : other = pcb
    · rw [same, Kernel.modify_same] at runs
      rw [same]
      exact running runs
    · rwa [st.modify_other change same] at runs
  · intro other member
    have kept := order.saved other member
    by_cases same : other = pcb
    · rw [same, Kernel.modify_same, regs, ← same]
      exact kept
    · rw [st.modify_other change same]
      exact kept

theorem kill (order : InOrder start st) (process : Nat) : InOrder start (killProcess process st) := by
  rw [killProcess]
  split
  · exact order
  · split
    · exact order
    · exact order.modify rfl rfl fun dead => nomatch dead

theorem yield (order : InOrder start st) : InOrder start (processYield st) := by
  rw [processYield]
  split
  · exact order
  · exact order.modify rfl rfl id

end InOrder

section Loops

variable {st : Kernel} {node fuel : Nat} {rest : List Nat}

/-- Walking on from a node of the ring ends at its last node. -/
theorem tailLoop_spec (path : Path st.next node (node :: rest) st.head) (behind : st.head ∉ rest)
    (enough : rest.length < fuel) :
    ∃ before final, node :: rest = before ++ [final] ∧ loop (tailTurn st) fuel node = some final := by
  obtain ⟨fuel, rfl⟩ : ∃ more, fuel = more + 1 := ⟨fuel - 1, by omega⟩
  induction rest generalizing node fuel with
  | nil =>
    have link : (st.pcbs node).next = st.head := path.single
    refine ⟨[], node, rfl, loop_leave ?_ fuel⟩
    rw [tailTurn, if_neg (not_not_intro link)]
  | cons follower rest ih =>
    rw [List.length_cons] at enough
    obtain ⟨fuel, rfl⟩ : ∃ more, fuel = more + 1 := ⟨fuel - 1, by omega⟩
    obtain ⟨link, path⟩ := path.step
    rw [List.mem_cons, not_or] at behind
    obtain ⟨first, later⟩ := behind
    obtain ⟨before, final, shape, found⟩ := ih path later fuel (by omega)
    have turn : tailTurn st node = .again follower := by
      rw [tailTurn, show (st.pcbs node).next = follower from link, if_pos (Ne.symm first)]
    exact ⟨node :: before, final, by rw [shape, List.cons_append], (loop_again turn _).trans found⟩

/-- The search of `schedular_remove` kills the first process with the pid. -/
theorem removeLoop_find (path : Path st.next node (node :: rest) st.head) (behind : st.head ∉ rest)
    (enough : rest.length < fuel) (pid : UInt32) :
    loop (removeTurn pid st) fuel node =
      some ((st.named pid (node :: rest)).elim st fun process => killProcess process st) := by
  obtain ⟨fuel, rfl⟩ : ∃ more, fuel = more + 1 := ⟨fuel - 1, by omega⟩
  induction rest generalizing node fuel with
  | nil =>
    by_cases same : (st.pcbs node).pid = pid
    · have found : st.named pid [node] = some node := List.find?_cons_of_pos (beq_iff_eq.mpr same)
      rw [found]
      apply loop_leave
      rw [removeTurn, if_pos same, Option.elim_some]
    · have link : (st.pcbs node).next = st.head := path.single
      have missing : st.named pid [node] = none := List.find?_cons_of_neg (by simpa using same)
      rw [missing]
      apply loop_leave
      rw [removeTurn, if_neg same, if_neg (not_not_intro link), Option.elim_none]
  | cons follower rest ih =>
    rw [List.length_cons] at enough
    obtain ⟨fuel, rfl⟩ : ∃ more, fuel = more + 1 := ⟨fuel - 1, by omega⟩
    by_cases same : (st.pcbs node).pid = pid
    · have found : st.named pid (node :: follower :: rest) = some node := List.find?_cons_of_pos (beq_iff_eq.mpr same)
      rw [found]
      apply loop_leave
      rw [removeTurn, if_pos same, Option.elim_some]
    · obtain ⟨link, path⟩ := path.step
      rw [List.mem_cons, not_or] at behind
      obtain ⟨first, later⟩ := behind
      have turn : removeTurn pid st node = .again follower := by
        rw [removeTurn, if_neg same, show (st.pcbs node).next = follower from link, if_pos (Ne.symm first)]
      have passed : st.named pid (node :: follower :: rest) = st.named pid (follower :: rest) :=
        List.find?_cons_of_neg (by simpa using same)
      rw [passed, loop_again turn]
      exact ih path later fuel (by omega)

theorem countLoop_spec (path : Path st.next node (node :: rest) st.head) (behind : st.head ∉ rest)
    (enough : rest.length < fuel) (total : UInt8) :
    loop (countTurn st) fuel (total, node) = some (total + UInt8.ofNat (node :: rest).length) := by
  obtain ⟨fuel, rfl⟩ : ∃ more, fuel = more + 1 := ⟨fuel - 1, by omega⟩
  induction rest generalizing node fuel total with
  | nil =>
    have link : (st.pcbs node).next = st.head := path.single
    apply loop_leave
    rw [countTurn]
    exact if_neg (not_not_intro link)
  | cons follower rest ih =>
    rw [List.length_cons] at enough
    obtain ⟨fuel, rfl⟩ : ∃ more, fuel = more + 1 := ⟨fuel - 1, by omega⟩
    obtain ⟨link, path⟩ := path.step
    rw [List.mem_cons, not_or] at behind
    obtain ⟨first, later⟩ := behind
    have turn : countTurn st (total, node) = .again (total + 1, follower) := by
      rw [countTurn, show (st.pcbs node).next = follower from link, if_pos (Ne.symm first)]
    have sum : 1 + UInt8.ofNat (follower :: rest).length = UInt8.ofNat (node :: follower :: rest).length := by
      rw [@List.length_cons _ node, Nat.add_comm, UInt8.ofNat_add]
      rfl
    rw [loop_again turn, ih path later (total + 1) fuel (by omega), UInt8.add_assoc, sum]

theorem countLoop_ring {head : Nat} (ring : Ring st.next st.head nodes) (same : st.head = head) (enough : nodes.length ≤ fuel) :
    ∃ total, loop (countTurn st) fuel (0, head) = some total ∧ total.toNat = nodes.length % 256 := by
  subst same
  obtain ⟨others, rfl⟩ := ring.cons
  have counted := countLoop_spec ring.path (List.nodup_cons.mp ring.nodup).1 enough 0
  rw [UInt8.zero_add] at counted
  exact ⟨_, counted, UInt8.toNat_ofNat'⟩

theorem skipZombies_mem (nodes : List Nat) (closed : ∀ pcb ∈ nodes, st.next pcb ∈ nodes) (member : node ∈ nodes)
    (left : Nat) : skipZombies st left node ∈ nodes := by
  induction left generalizing node with
  | zero => exact member
  | succ left ih =>
    rw [skipZombies]
    split
    · exact ih (closed node member)
    · exact member

end Loops

section Calls

variable {start fuel : Nat} {st : Kernel}

theorem InOrder.nodup (order : InOrder start st) : (alive st.trace).Nodup := by
  rcases order.ring with ⟨_, none⟩ | ⟨ring, _⟩
  · rw [none]
    exact List.nodup_nil
  · exact ring.nodup

theorem InOrder.allocators {heap : HeapState} {pmm : PmmState} (order : InOrder start st)
    (holds : HeapHolds heap start (alive st.trace)) :
    InOrder start { st with heap, pmm } :=
  ⟨holds, order.ring, order.running, order.saved⟩

/-- A new process has a fresh block, or there is none and only the allocators have
changed. -/
theorem createProcess_spec (order : InOrder start st) (enough : heapSize / sizeofBlock < fuel)
    (name : Option (List UInt8)) (entry : UInt64) (priority : UInt8) :
    ∃ pcb st', createProcess fuel name entry priority st = some (pcb, st') ∧
      (pcb = 0 ∧ InOrder start st' ∨
        pcb ≠ 0 ∧ pcb ∉ alive st.trace ∧ ∃ heap pmm nextPid block,
          HeapHolds heap start (alive st.trace ++ [pcb]) ∧
          st' = { st with
            heap, pmm, nextPid
            pcbs := Function.update st.pcbs pcb block
            trace := .created pcb block.regs :: st.trace }) := by
  rcases name with _ | name
  · exact ⟨0, st, rfl, .inl ⟨rfl, order⟩⟩
  · by_cases invalid : entry = 0 ∨ name = []
    · refine ⟨0, st, ?_, .inl ⟨rfl, order⟩⟩
      rw [createProcess, if_pos invalid]
    · obtain ⟨pcb, heap, ran, result⟩ := order.heap.kmalloc enough sizeofPcb
      rw [createProcess, if_neg invalid, ran, Option.bind_some]
      rcases result with ⟨rfl, holds⟩ | ⟨nonzero, fresh, holds⟩
      · exact ⟨0, _, rfl, .inl ⟨rfl, order.allocators holds⟩⟩
      · dsimp only
        rw [if_neg nonzero]
        obtain ⟨stack, pmm⟩ := pmmAlloc st.pmm
        dsimp only
        split
        · have nodup : (alive st.trace ++ [pcb]).Nodup :=
            List.nodup_append.mpr ⟨order.nodup, List.nodup_singleton _, by
              rintro left present right only rfl
              exact fresh (List.mem_singleton.mp only ▸ present)⟩
          obtain ⟨heap', freed, holds'⟩ := holds.kfree enough (List.mem_append_right _ (List.mem_singleton_self pcb)) nodup
          rw [freed, Option.map_some]
          refine ⟨0, _, rfl, .inl ⟨rfl, order.allocators ?_⟩⟩
          rwa [List.erase_append_right _ fresh, List.erase_cons_head, List.append_nil] at holds'
        · exact ⟨pcb, _, rfl, .inr ⟨nonzero, fresh, heap, pmm, st.nextPid + 1, _, holds, rfl⟩⟩

/-- A new block is filled in, the ring is not changed yet. -/
structure Filled (start : Nat) (st made : Kernel) (neu : Nat) (frame : InterruptFrame) : Prop where
  fresh : neu ∉ alive st.trace
  heap : HeapHolds made.heap start (alive st.trace ++ [neu])
  head : made.head = st.head
  current : made.current = st.current
  trace : made.trace = .created neu frame :: st.trace
  regs : (made.pcbs neu).regs = frame
  others : ∀ pcb, pcb ≠ neu → made.pcbs pcb = st.pcbs pcb

/-- Linking the new block in changes no registers. -/
theorem Filled.inOrder (filled : Filled start st made neu frame) (order : InOrder start st)
    (heap : st'.heap = made.heap) (trace : st'.trace = made.trace)
    (same : ∀ pcb, (st'.pcbs pcb).regs = (made.pcbs pcb).regs)
    (ring : Ring st'.next st'.head (alive st.trace ++ [neu])) (current : st'.current ∈ alive st.trace ++ [neu])
    (running : ∀ pcb ∈ alive st.trace ++ [neu], (st'.pcbs pcb).state = .running → pcb = st'.current) :
    InOrder start st' := by
  have alive' : alive st'.trace = alive st.trace ++ [neu] := by rw [trace, filled.trace, alive]
  refine ⟨?_, .inr ?_, ?_, fun pcb member => ?_⟩
  · rw [alive', heap]
    exact filled.heap
  · rw [alive']
    exact ⟨ring, current⟩
  · rw [alive']
    exact running
  · rw [alive'] at member
    rw [trace, filled.trace, lastFrame, same]
    rcases List.mem_append.mp member with old | only
    · have different : pcb ≠ neu := fun equal => filled.fresh (equal ▸ old)
      rw [if_neg different.symm, filled.others pcb different]
      exact order.saved pcb old
    · rw [List.mem_singleton.mp only, if_pos rfl, filled.regs]

/-- The first process is its own successor and runs. -/
theorem Filled.linkFirst (filled : Filled start st made neu frame) (order : InOrder start st)
    (none : alive st.trace = []) :
    InOrder start ({ made with current := neu, head := neu }.modify neu fun pcb =>
      { pcb with next := neu, state := .running }) := by
  refine filled.inOrder order rfl rfl (fun pcb => ?_) ?_ ?_ fun pcb member _ => ?_
  · by_cases same : pcb = neu
    · rw [same, Kernel.modify_same]
    · rw [Kernel.modify_other _ _ same]
  · rw [none, List.nil_append]
    exact .singleton (congrArg PCB.next (Kernel.modify_same _ _ _))
  · exact List.mem_append_right _ (List.mem_singleton_self neu)
  · rw [none, List.nil_append] at member
    exact List.mem_singleton.mp member

/-- Every other process is linked in between the last one and the head. -/
theorem Filled.linkLast (filled : Filled start st made neu frame) (order : InOrder start st)
    (ring : Ring st.next st.head (alive st.trace)) (current : st.current ∈ alive st.trace)
    (enough : heapSize / sizeofBlock < fuel) :
    ∃ temp, loop (tailTurn made) fuel made.head = some temp ∧
      InOrder start ((made.modify temp fun pcb => { pcb with next := neu }).modify neu fun pcb =>
        { pcb with next := made.head, state := .ready }) := by
  have known : ∀ pcb ∈ alive st.trace, pcb ≠ neu := fun pcb member same => filled.fresh (same ▸ member)
  have early : Ring made.next made.head (alive st.trace) := by
    rw [filled.head]
    refine ring.congr fun pcb member => ?_
    rw [Kernel.next, filled.others pcb (known pcb member), Kernel.next]
  have short := order.heap.length_le order.nodup
  obtain ⟨rest, shape⟩ := early.cons
  have nodup := order.nodup
  rw [shape] at short nodup
  rw [List.length_cons] at short
  obtain ⟨before, temp, ends, found⟩ :=
    tailLoop_spec (shape ▸ early.path) (List.nodup_cons.mp nodup).1 (by omega : rest.length < fuel)
  refine ⟨temp, found, ?_⟩
  have whole : alive st.trace = before ++ [temp] := shape.trans ends
  have distinct : temp ≠ neu := known temp (by simp [whole])
  have apart : ∀ pcb ∈ before, pcb ≠ temp := by
    rintro pcb member rfl
    have twice := order.nodup
    rw [whole] at twice
    exact (List.nodup_append.mp twice).2.2 pcb member pcb (List.mem_singleton_self _) rfl
  refine filled.inOrder order rfl rfl (fun pcb => ?_) ?_ ?_ fun pcb member runs => ?_
  · by_cases last : pcb = neu
    · rw [last, Kernel.modify_same, Kernel.modify_other _ _ distinct.symm]
    · rw [Kernel.modify_other _ _ last]
      by_cases same : pcb = temp
      · rw [same, Kernel.modify_same]
      · rw [Kernel.modify_other _ _ same]
  · rw [whole]
    rw [whole] at early
    refine early.insert (whole ▸ filled.fresh) (fun pcb member => ?_) ?_ ?_
    · have different := known pcb (by simp [whole, member])
      rw [Kernel.next, Kernel.modify_other _ _ different, Kernel.modify_other _ _ (apart pcb member), Kernel.next]
    · rw [Kernel.next, Kernel.modify_other _ _ distinct, Kernel.modify_same]
    · rw [Kernel.next, Kernel.modify_same]
  · exact List.mem_append_left _ (filled.current ▸ current)
  · rcases List.mem_append.mp member with old | only
    · have different := known pcb old
      rw [Kernel.modify_other _ _ different] at runs
      have before' : (st.pcbs pcb).state = .running := by
        rw [← filled.others pcb different]
        by_cases same : pcb = temp
        · rw [same, Kernel.modify_same] at runs
          exact same ▸ runs
        · rwa [Kernel.modify_other _ _ same] at runs
      exact (order.running pcb old before').trans filled.current.symm
    · rw [List.mem_singleton.mp only, Kernel.modify_same] at runs
      cases runs

theorem InOrder.add (order : InOrder start st) (enough : heapSize / sizeofBlock < fuel)
    (name : Option (List UInt8)) (entry : UInt64) (priority : UInt8) :
    ∃ st', schedulerAdd fuel name entry priority st = some st' ∧ InOrder start st' := by
  obtain ⟨neu, created, ran, result⟩ := createProcess_spec order enough name entry priority
  rw [schedulerAdd, ran, Option.bind_some]
  rcases result with ⟨rfl, order'⟩ | ⟨nonzero, fresh, heap, pmm, nextPid, block, holds, rfl⟩
  · exact ⟨created, rfl, order'⟩
  · dsimp only
    rw [if_neg nonzero]
    generalize making : Kernel.modify _ neu _ = made
    have filled : Filled start st made neu block.regs := by
      rw [← making]
      refine ⟨fresh, holds, rfl, rfl, rfl, ?_, fun pcb different => ?_⟩
      · rw [Kernel.modify_same]
        change (Function.update st.pcbs neu block neu).regs = block.regs
        rw [Function.update_self]
      · rw [Kernel.modify_other _ _ different]
        exact Function.update_of_ne different ..
    rcases order.ring with ⟨empty, none⟩ | ⟨ring, current⟩
    · rw [if_pos (filled.head.trans empty)]
      exact ⟨_, rfl, filled.linkFirst order none⟩
    · have head : made.head ≠ 0 := filled.head ▸ order.heap.nonzero ring.head_mem
      rw [if_neg head]
      obtain ⟨temp, found, order'⟩ := filled.linkLast order ring current enough
      rw [found, Option.map_some]
      exact ⟨_, rfl, order'⟩

/-- `schedular_remove` kills the first process of the ring that has the pid. -/
theorem schedularRemove_eq {nodes : List Nat} (ring : ProcessRing st nodes) (enough : nodes.length ≤ fuel) (pid : UInt32) :
    schedularRemove fuel pid st = some ((st.named pid nodes).elim st fun process => killProcess process st) := by
  unfold schedularRemove
  rcases ring with ⟨empty, rfl⟩ | ⟨ring, nonzero⟩
  · exact if_pos empty
  · have head : st.head ≠ 0 := fun zero => nonzero (zero ▸ ring.head_mem)
    rw [if_neg head]
    have nodup := ring.nodup
    obtain ⟨rest, shape⟩ := ring.cons
    rw [shape] at enough nodup ⊢
    exact removeLoop_find (shape ▸ ring.path) (List.nodup_cons.mp nodup).1 enough pid

theorem InOrder.processRing (order : InOrder start st) : ProcessRing st (alive st.trace) :=
  order.ring.imp id fun ring => ⟨ring.1, fun zero => order.heap.nonzero zero rfl⟩

theorem InOrder.remove (order : InOrder start st) (enough : heapSize / sizeofBlock < fuel) (pid : UInt32) :
    ∃ st', schedularRemove fuel pid st = some st' ∧ InOrder start st' := by
  have short := order.heap.length_le order.nodup
  refine ⟨_, schedularRemove_eq order.processRing (by omega) pid, ?_⟩
  cases st.named pid (alive st.trace) with
  | none => exact order
  | some process => exact order.kill process

theorem InOrder.unlink {heap : HeapState} {pmm : PmmState} (order : InOrder start st)
    (ring : Ring st.next st.head (alive st.trace)) (current : st.current ∈ alive st.trace)
    (member : prev ∈ alive st.trace) (notHead : st.next prev ≠ st.head) (notCurrent : st.next prev ≠ st.current)
    (holds : HeapHolds heap start ((alive st.trace).erase (st.next prev))) :
    prev ∈ (alive st.trace).erase (st.next prev) ∧
      InOrder start { st.modify prev fun pcb => { pcb with next := st.next (st.next prev) } with
        heap, pmm, trace := .freed (st.next prev) :: st.trace } := by
  obtain ⟨before, behind, shape⟩ := List.append_of_mem member
  have nodup := order.nodup
  obtain ⟨after, rfl⟩ : ∃ after, behind = st.next prev :: after := by
    have path := ring.path
    rw [shape] at path
    obtain ⟨middle, _, right⟩ := path.split
    obtain rfl := right.head
    rcases behind with _ | ⟨follower, after⟩
    · exact absurd right.single notHead
    · exact ⟨after, by rw [right.step.1]⟩
  generalize cur : st.next prev = node at *
  have whole := ring
  rw [shape] at whole nodup
  obtain ⟨prevApart, _⟩ := List.nodup_cons.mp (List.nodup_middle.mp nodup)
  have differs : prev ≠ node := fun same => prevApart (by simp [same])
  have notBefore : node ∉ before := by
    intro present
    exact (List.nodup_append.mp nodup).2.2 node present node (by simp) rfl
  have shorter : (alive st.trace).erase node = before ++ prev :: after := by
    rw [shape, List.erase_append_right _ notBefore, List.erase_cons_tail (by simpa using differs),
      List.erase_cons_head]
  have kept : ∀ pcb ∈ (alive st.trace).erase node, pcb ∈ alive st.trace := fun pcb => List.mem_of_mem_erase
  have self := st.modify_same prev fun pcb => { pcb with next := st.next node }
  have others : ∀ pcb, pcb ≠ prev →
      (st.modify prev fun pcb => { pcb with next := st.next node }).pcbs pcb = st.pcbs pcb :=
    fun pcb different => st.modify_other _ different
  refine ⟨by simp [shorter], holds, .inr ⟨?_, (List.mem_erase_of_ne notCurrent.symm).mpr current⟩,
    fun pcb member runs => ?_, fun pcb member => ?_⟩
  · rw [alive, shorter]
    refine whole.remove (fun pcb present => ?_) ?_
    · have different : pcb ≠ prev := by
        rintro rfl
        apply prevApart
        simp only [List.mem_append, List.mem_cons] at present ⊢
        exact present.imp id .inr
      exact congrArg PCB.next (others pcb different)
    · have link := congrArg PCB.next self
      exact link
  · apply order.running pcb (kept pcb member)
    by_cases same : pcb = prev
    · rw [same] at runs ⊢
      exact (congrArg PCB.state self).symm.trans runs
    · exact (congrArg PCB.state (others pcb same)).symm.trans runs
  · refine (order.saved pcb (kept pcb member)).trans (congrArg some ?_)
    by_cases same : pcb = prev
    · rw [same]
      exact (congrArg PCB.regs self).symm
    · exact (congrArg PCB.regs (others pcb same)).symm

/-- The reaper keeps the ring in order from every place of the ring on. -/
theorem reap_spec (enough : heapSize / sizeofBlock < fuel) (safety : Nat) (order : InOrder start st)
    (ring : Ring st.next st.head (alive st.trace)) (current : st.current ∈ alive st.trace)
    (member : prev ∈ alive st.trace) :
    ∃ st', reap fuel st.head st.current safety prev (st.next prev) st = some st' ∧ InOrder start st' := by
  induction safety generalizing prev st with
  | zero => exact ⟨st, rfl, order⟩
  | succ safety ih =>
    rw [reap]
    by_cases done : st.next prev = st.head
    · exact ⟨st, if_pos done, order⟩
    · rw [if_neg done]
      have there := ring.next_mem member
      by_cases dead : (st.pcbs (st.next prev)).state = .zombie ∧ st.next prev ≠ st.current
      · rw [if_pos dead]
        obtain ⟨heap, freed, holds⟩ := order.heap.kfree enough there order.nodup
        change ∃ st', (kfree fuel (st.next prev) st.heap).bind _ = some st' ∧ _
        rw [freed, Option.bind_some]
        generalize pmmFree _ _ = pmm
        obtain ⟨member', order'⟩ := @InOrder.unlink start st prev heap pmm order ring current member done dead.2 holds
        rcases order'.ring with ⟨_, none⟩ | ⟨ring', current'⟩
        · exact absurd member' (List.eq_nil_iff_forall_not_mem.mp none prev)
        · exact ih order' ring' current' member'
      · rw [if_neg dead]
        exact ih order ring current there

theorem InOrder.reaper (order : InOrder start st) (enough : heapSize / sizeofBlock < fuel) :
    ∃ st', reaperPass fuel st = some st' ∧ InOrder start st' := by
  rw [reaperPass]
  rcases order.ring with ⟨empty, _⟩ | ⟨ring, current⟩
  · exact ⟨st, if_pos empty, order⟩
  · rw [if_neg (order.heap.nonzero ring.head_mem)]
    exact reap_spec enough 100 order ring current ring.head_mem

/-- The registers of the old process are saved and those of the new one installed. -/
theorem InOrder.switch (order : InOrder start st) (ring : Ring st.next st.head (alive st.trace))
    (idle : ∀ pcb ∈ alive st.trace, (st.pcbs pcb).state ≠ .running)
    (member : next ∈ alive st.trace) (frame : InterruptFrame) :
    InOrder start (switchTo frame next st).1 ∧ (switchTo frame next st).1.current = next ∧
      (switchTo frame next st).1.trace = .switchedOut st.current frame :: st.trace ∧
      lastFrame (switchTo frame next st).1.trace next = some (switchTo frame next st).2 := by
  have fields : ∀ pcb, ((switchTo frame next st).1.pcbs pcb).next = (st.pcbs pcb).next ∧
      ((switchTo frame next st).1.pcbs pcb).regs = (if pcb = st.current then frame else (st.pcbs pcb).regs) ∧
      (pcb ≠ next → ((switchTo frame next st).1.pcbs pcb).state = (st.pcbs pcb).state) := by
    intro pcb
    simp only [switchTo, Kernel.modify, Function.update_apply]
    split_ifs <;> simp_all
  have order' : InOrder start (switchTo frame next st).1 := by
    refine ⟨order.heap, .inr ⟨ring.congr fun pcb _ => (fields pcb).1, member⟩, fun pcb there runs => ?_,
      fun pcb there => ?_⟩
    · by_contra other
      exact idle pcb there (((fields pcb).2.2 other).symm.trans runs)
    · rw [(fields pcb).2.1]
      change (if st.current = pcb then some frame else lastFrame st.trace pcb) = _
      by_cases same : pcb = st.current
      · rw [if_pos same, if_pos same.symm]
      · rw [if_neg same, if_neg (Ne.symm same)]
        exact order.saved pcb there
  exact ⟨order', rfl, rfl, order'.saved next member⟩

theorem InOrder.countDown (order : InOrder start st) : InOrder start (countDown st) := by
  rw [Proc.countDown]
  split
  · exact order.modify rfl rfl id
  · exact order

theorem InOrder.preempt (order : InOrder start st) :
    InOrder start (preempt st) ∧ ∀ pcb ∈ alive st.trace, ((preempt st).pcbs pcb).state ≠ .running := by
  rw [Proc.preempt]
  split
  · refine ⟨order.modify rfl rfl (fun ready => nomatch ready), fun pcb member runs => ?_⟩
    by_cases same : pcb = st.current
    · rw [same, Kernel.modify_same] at runs
      cases runs
    · rw [Kernel.modify_other _ _ same] at runs
      exact same (order.running pcb member runs)
  · rename_i stopped
    refine ⟨order, fun pcb member runs => stopped ?_⟩
    rwa [← order.running pcb member runs]

/-- A tick that switches saves the frame it was given and installs the one that the
next process has waiting. -/
theorem InOrder.tick (order : InOrder start st) (enough : heapSize / sizeofBlock < fuel) (frame : InterruptFrame) :
    ∃ st' frame' selected, schedule fuel frame st = some ((st', frame'), selected) ∧ InOrder start st' ∧
      (selected = none ∧ frame' = frame ∧ st'.trace = st.trace ∨
        ∃ next ∈ alive st.trace, selected = some next ∧ st'.current = next ∧
          st'.trace = .switchedOut st.current frame :: st.trace ∧ lastFrame st'.trace next = some frame') := by
  rw [schedule]
  rcases order.ring with ⟨empty, _⟩ | ⟨ring, current⟩
  · rw [if_pos (.inr empty)]
    exact ⟨st, frame, none, rfl, order, .inl ⟨rfl, rfl, rfl⟩⟩
  · have present : ¬ (st.current = 0 ∨ st.head = 0) :=
      not_or.mpr ⟨order.heap.nonzero current, order.heap.nonzero ring.head_mem⟩
    rw [if_neg present]
    have same : (Proc.countDown st).trace = st.trace ∧ (Proc.countDown st).current = st.current := by
      rw [Proc.countDown]
      split <;> exact ⟨rfl, rfl⟩
    have order' := order.countDown
    rw [← same.1, ← same.2]
    rw [← same.1, ← same.2] at current
    generalize Proc.countDown st = counted at order' current ⊢
    dsimp only
    split
    · exact ⟨counted, frame, none, rfl, order', .inl ⟨rfl, rfl, rfl⟩⟩
    · have same : (Proc.preempt counted).trace = counted.trace ∧ (Proc.preempt counted).current = counted.current := by
        rw [Proc.preempt]
        split <;> exact ⟨rfl, rfl⟩
      obtain ⟨order, idle⟩ := order'.preempt
      rw [← same.1] at idle
      rw [← same.1, ← same.2] at current ⊢
      generalize Proc.preempt counted = stopped at order idle current ⊢
      rcases order.ring with ⟨_, none⟩ | ⟨ring, _⟩
      · exact absurd current (List.eq_nil_iff_forall_not_mem.mp none _)
      · have short := order.heap.length_le order.nodup
        have few : (alive stopped.trace).length ≤ fuel := by omega
        obtain ⟨total, counted, _⟩ := countLoop_ring ring rfl few
        rw [counted, Option.map_some]
        have member := skipZombies_mem (alive stopped.trace) (fun pcb => ring.next_mem) (ring.next_mem current)
        generalize UInt8.toNat _ = total
        have chosen := member total
        rw [Kernel.next] at chosen
        generalize skipZombies stopped total _ = next at chosen ⊢
        split
        · exact ⟨stopped, frame, none, rfl, order, .inl ⟨rfl, rfl, rfl⟩⟩
        · obtain ⟨order', current', trace, saved⟩ := order.switch ring idle chosen frame
          exact ⟨_, _, _, rfl, order', .inr ⟨next, chosen, rfl, current', trace, saved⟩⟩

end Calls

end LivlyOS.Proc
