import LivlyOS.Mm.PageOwnership
import LivlyOS.Proc.SchedularRuns

namespace LivlyOS.Proc

open LivlyOS.Lib LivlyOS.Mm

/-- No block of the heap can hold a control block. -/
def NoBlock (blocks : List HeapBlock) : Prop := ∀ block ∈ blocks, block.fits sizeofPcb.toNat = false

/-- `pmm_alloc` has no page to give. -/
def NoPage (pmm : PmmState) : Prop := ∀ page, 1 ≤ page → ¬pmm.IsFree page

/-- The blocks in use are the same, with the same contents. -/
def SameAllocated (stop : Nat) (blocks : List HeapBlock) (heap heap' : HeapState) : Prop :=
  ∃ blocks', Heap heap'.mem heap'.heapStart stop blocks' ∧
    (blocks'.filter fun block => block.used) = (blocks.filter fun block => block.used) ∧
    ∀ block ∈ blocks, block.used = true →
      ∀ addr, InPayload (block.addr + sizeofBlock, block.size) addr → heap'.mem.bytes addr = heap.mem.bytes addr

/-- Without a block or a page there is no process and nothing has changed; a process has a page
for its stack that was free and is taken now. -/
def CreatesCleanly (fuel stop : Nat) (name : List UInt8) (entry : UInt64) (priority : UInt8) (blocks : List HeapBlock)
    (st : Kernel) : Prop :=
  ∃ pcb st', createProcess fuel (some name) entry priority st = some (pcb, st') ∧
    (NoBlock blocks ∨ NoPage st.pmm →
      pcb = 0 ∧ SameAllocated stop blocks st.heap st'.heap ∧ st'.pmm.bitmap = st.pmm.bitmap) ∧
    (pcb ≠ 0 → ∃ page, (st'.pcbs pcb).stack = page * pageSize ∧ st.pmm.IsFree page ∧
      page < st'.pmm.maxPages ∧ ¬st'.pmm.IsFree page)

section Create

variable {fuel stop : Nat} {name : List UInt8} {entry : UInt64} {priority : UInt8} {blocks : List HeapBlock} {st : Kernel}

theorem createProcess_noBlock (valid : entry ≠ 0 ∧ name ≠ []) (ran : kmalloc fuel sizeofPcb st.heap = some (0, st.heap)) :
    createProcess fuel (some name) entry priority st = some (0, st) := by
  unfold createProcess
  dsimp only
  rw [if_neg (not_or.mpr valid), ran, Option.bind_some]
  exact if_pos rfl

/-- With a block, the stack is whatever `pmm_alloc` answered, as long as that is not null. -/
theorem createProcess_block (priority : UInt8) (valid : entry ≠ 0 ∧ name ≠ []) (ran : kmalloc fuel sizeofPcb st.heap = some (pcb, heap))
    (nonzero : pcb ≠ 0) (answer : (pmmAlloc st.pmm).1 ≠ 0) :
    ∃ st', createProcess fuel (some name) entry priority st = some (pcb, st') ∧
      (st'.pcbs pcb).stack = (pmmAlloc st.pmm).1 ∧ st'.pmm = (pmmAlloc st.pmm).2 := by
  unfold createProcess
  dsimp only
  rw [if_neg (not_or.mpr valid), ran, Option.bind_some]
  dsimp only
  rw [if_neg nonzero, if_neg answer]
  refine ⟨_, rfl, ?_, rfl⟩
  dsimp only
  rw [Function.update_self]

theorem createsCleanly_noBlock (valid : entry ≠ 0 ∧ name ≠ []) (heap : Heap st.heap.mem st.heap.heapStart stop blocks)
    (ran : kmalloc fuel sizeofPcb st.heap = some (0, st.heap)) :
    CreatesCleanly fuel stop name entry priority blocks st := by
  refine ⟨0, st, createProcess_noBlock valid ran, fun _ => ?_, fun nonzero => absurd rfl nonzero⟩
  exact ⟨rfl, ⟨blocks, heap, rfl, fun _ _ _ _ _ => rfl⟩, rfl⟩

/-- Creating a process is clean exactly when a page is left or not even the heap has a block for
it: `pmm_alloc` does not answer with a null pointer when no page is left. -/
theorem createProcess_iff (valid : entry ≠ 0 ∧ name ≠ []) (heap : Heap st.heap.mem st.heap.heapStart stop blocks)
    (enough : blocks.length < fuel) (small : st.pmm.maxPages ≤ 4503599627370496) :
    CreatesCleanly fuel stop name entry priority blocks st ↔
      (∃ page, 1 ≤ page ∧ st.pmm.IsFree page) ∨ ∀ block ∈ blocks, block.fits sizeofPcb.toNat = false := by
  rcases kmalloc_spec heap enough sizeofPcb with ⟨ran, none⟩ | ⟨before, block, after, mem, shape, fits, ran, _, _⟩
  · exact iff_of_true (createsCleanly_noBlock valid heap ran) (.inr none)
  · have nonzero : block.addr + sizeofBlock ≠ 0 := Nat.succ_ne_zero _
    have member : block ∈ blocks := shape ▸ List.mem_append_right before List.mem_cons_self
    have roomy : ¬NoBlock blocks := fun none => by
      rw [none block member] at fits
      cases fits
    rcases pmmAlloc_spec st.pmm with ⟨exhausted, answer⟩ | ⟨page, low, free, _, address, layout, taken⟩
    · -- the answer for no page passes for an address
      have nonnull : (pmmAlloc st.pmm).1 ≠ 0 := by
        rw [answer]
        exact (by decide : outOfMemory ≠ 0)
      obtain ⟨st1, made, _, _⟩ := createProcess_block priority valid ran nonzero nonnull
      constructor
      · rintro ⟨pcb, st2, made', fails, _⟩
        obtain ⟨rfl, rfl⟩ := Prod.mk.inj (Option.some.inj (made.symm.trans made'))
        exact absurd (fails (.inr exhausted)).1 nonzero
      · rintro (⟨page, low, free⟩ | none)
        · exact absurd free (exhausted page low)
        · exact absurd none roomy
    · have place := (page_address small free.1).1
      rw [place] at address
      have nonnull : (pmmAlloc st.pmm).1 ≠ 0 := by
        rw [address, pageSize]
        omega
      obtain ⟨st1, made, stack, pmm⟩ := createProcess_block priority valid ran nonzero nonnull
      refine iff_of_true ⟨_, st1, made, ?_, fun _ => ⟨page, stack.trans address, free, ?_, ?_⟩⟩ (.inl ⟨page, low, free⟩)
      · rintro (none | exhausted)
        · exact absurd none roomy
        · exact absurd free (exhausted page low)
      · rw [pmm, layout.maxPages]
        exact free.1
      · rw [pmm, taken]
        exact fun free => free.2 rfl

end Create

/-- A kernel with a fresh heap and all pages taken. -/
def exhaustedKernel : Kernel := { idleKernel with pmm := { idleKernel.pmm with bitmap := fun _ => 0xFF } }

theorem idleKernel_heap : Heap idleKernel.heap.mem idleKernel.heap.heapStart (0x200000 + heapSize)
    [⟨0x200000, heapSize - sizeofBlock, false⟩] :=
  kmallocInit_spec (by decide) (by decide) ⟨fun _ => 0, []⟩

theorem createProcess_iff_idleKernel :
    CreatesCleanly 2 (0x200000 + heapSize) [65] 0x1000 0 [⟨0x200000, heapSize - sizeofBlock, false⟩] idleKernel ↔
      (∃ page, 1 ≤ page ∧ idleKernel.pmm.IsFree page) ∨
        ∀ block ∈ [(⟨0x200000, heapSize - sizeofBlock, false⟩ : HeapBlock)], block.fits sizeofPcb.toNat = false :=
  createProcess_iff ⟨by decide, by decide⟩ idleKernel_heap (by decide) (by decide)

/-- With no page left, the process gets a stack at the highest address. -/
theorem createProcess_noPage : NoPage exhaustedKernel.pmm ∧
    (∃ pcb st', createProcess 2 (some [65]) 0x1000 0 exhaustedKernel = some (pcb, st') ∧ pcb ≠ 0 ∧
      (st'.pcbs pcb).stack = 0xFFFFFFFFFFFFFFFF) ∧
    ¬CreatesCleanly 2 (0x200000 + heapSize) [65] 0x1000 0 [⟨0x200000, heapSize - sizeofBlock, false⟩] exhaustedKernel := by
  have exhausted : NoPage exhaustedKernel.pmm := by
    intro page low free
    have taken : readBit (fun _ => 0xFF) page = 1 := readBit_full rfl
    exact absurd (taken.symm.trans free.2) (by decide)
  have trace : (createProcess 2 (some [65]) 0x1000 0 exhaustedKernel).map
      (fun made => (decide (made.1 ≠ 0), (made.2.pcbs made.1).stack)) = some (true, 0xFFFFFFFFFFFFFFFF) := by
    decide +kernel
  obtain ⟨⟨pcb, st'⟩, made, results⟩ := Option.map_eq_some_iff.mp trace
  obtain ⟨nonzero, stack⟩ := Prod.mk.inj results
  refine ⟨exhausted, ⟨pcb, st', made, of_decide_eq_true nonzero, stack⟩, ?_⟩
  rintro ⟨other, st2, made', fails, _⟩
  obtain ⟨rfl, rfl⟩ := Prod.mk.inj (Option.some.inj (made.symm.trans made'))
  exact of_decide_eq_true nonzero (fails (.inr exhausted)).1

end LivlyOS.Proc
