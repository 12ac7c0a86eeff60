import LivlyOS.Proc.SchedularRuns

namespace LivlyOS.Proc

open LivlyOS.Lib LivlyOS.Mm

/-- A control block but for its link. -/
def PCB.content (pcb : PCB) : PCB := { pcb with next := 0 }

/-- A dead process that does not run. -/
def Reapable (st : Kernel) (process : Nat) : Prop := (st.pcbs process).state = .zombie ∧ process ≠ st.current

instance (st : Kernel) (process : Nat) : Decidable (Reapable st process) := inferInstanceAs (Decidable (_ ∧ _))

/-- The pages of the stacks are freed one after the other. -/
def freePages (st : Kernel) (dead : List Nat) (pmm : PmmState) : PmmState :=
  dead.foldl (fun pmm process => pmmFree (st.pcbs process).stack pmm) pmm

/-- The control blocks are freed one after the other. -/
def freeBlocks (fuel : Nat) : (dead : List Nat) → HeapState → Option HeapState
  | [], heap => some heap
  | process :: rest, heap => (kfree fuel process heap).bind (freeBlocks fuel rest)

/-- Every process of `dead` was freed once, with its stack; the ring consists of `kept`, and
but for their links the control blocks are what they were. -/
structure Cleaned (fuel start : Nat) (st : Kernel) (dead kept : List Nat) (st' : Kernel) : Prop where
  ring : ProcessRing st' kept
  freed : st'.trace = (dead.map Event.freed).reverse ++ st.trace
  pages : st'.pmm = freePages st dead st.pmm
  blocks : freeBlocks fuel dead st.heap = some st'.heap
  heap : HeapHolds st'.heap start kept
  others : ∀ process, (st'.pcbs process).content = (st.pcbs process).content
  current : st'.current = st.current

section Reap

variable {fuel start : Nat} {st : Kernel}

/-- Take the block behind `prev` out of the ring and free it. -/
def unlinked (st : Kernel) (prev cur : Nat) (heap : HeapState) : Kernel :=
  { st.modify prev fun pcb => { pcb with next := (st.pcbs cur).next } with
    heap
    pmm := pmmFree ((st.modify prev fun pcb => { pcb with next := (st.pcbs cur).next }).pcbs cur).stack st.pmm
    trace := .freed cur :: st.trace }

theorem unlinked_pcbs (st : Kernel) (prev cur : Nat) (heap : HeapState) (process : Nat) :
    ((unlinked st prev cur heap).pcbs process).content = (st.pcbs process).content := by
  change ((st.modify prev fun pcb => { pcb with next := (st.pcbs cur).next }).pcbs process).content = _
  by_cases same : process = prev
  · rw [same, Kernel.modify_same]
    rfl
  · rw [Kernel.modify_other _ _ same]

theorem unlinked_ring (ring : Ring st.next st.head (before ++ prev :: cur :: after)) (heap : HeapState) :
    Ring (unlinked st prev cur heap).next (unlinked st prev cur heap).head (before ++ prev :: after) := by
  apply ring.remove
  · intro member present
    have different : member ≠ prev := by
      rintro rfl
      apply (List.nodup_cons.mp (List.nodup_middle.mp ring.nodup)).1
      simp only [List.mem_append, List.mem_cons] at present ⊢
      exact present.imp id .inr
    have kept := st.modify_other (fun pcb => { pcb with next := (st.pcbs cur).next }) different
    exact congrArg PCB.next kept
  · have linked := congrArg PCB.next (st.modify_same prev fun pcb => { pcb with next := (st.pcbs cur).next })
    exact linked

/-- What is freed first comes before what is freed later. -/
theorem Cleaned.cons {heap : HeapState} (cleaned : Cleaned fuel start (unlinked st prev cur heap) dead kept st')
    (freed : kfree fuel cur st.heap = some heap) : Cleaned fuel start st (cur :: dead) kept st' := by
  have stack : ∀ process, ((unlinked st prev cur heap).pcbs process).stack = (st.pcbs process).stack := by
    intro process
    have same := congrArg PCB.stack (unlinked_pcbs st prev cur heap process)
    exact same
  have pages : (unlinked st prev cur heap).pmm = pmmFree (st.pcbs cur).stack st.pmm :=
    congrArg (pmmFree · st.pmm) (stack cur)
  constructor
  · exact cleaned.ring
  · rw [cleaned.freed, List.map_cons, List.reverse_cons, List.append_assoc]
    rfl
  · rw [cleaned.pages, pages]
    unfold freePages
    rw [List.foldl_cons]
    simp only [stack]
  · unfold freeBlocks
    rw [freed, Option.bind_some]
    exact cleaned.blocks
  · exact cleaned.heap
  · intro process
    rw [cleaned.others, unlinked_pcbs]
  · exact cleaned.current

theorem unlinked_reapable (st : Kernel) (prev cur : Nat) (heap : HeapState) (process : Nat) :
    Reapable (unlinked st prev cur heap) process ↔ Reapable st process := by
  have state := congrArg PCB.state (unlinked_pcbs st prev cur heap process)
  unfold Reapable
  rw [show ((unlinked st prev cur heap).pcbs process).state = (st.pcbs process).state from state]
  rfl

theorem erase_behind {nodes : List Nat} (nodup : nodes.Nodup) (shape : nodes = before ++ prev :: cur :: after) :
    nodes.erase cur = before ++ prev :: after := by
  have split : nodes = (before ++ [prev]) ++ cur :: after := by
    rw [shape, List.append_assoc, List.singleton_append]
  rw [split] at nodup
  have ahead : cur ∉ before ++ [prev] := fun present => (List.nodup_append.mp nodup).2.2 cur present cur List.mem_cons_self rfl
  rw [split, List.erase_append_right _ ahead, List.erase_cons_head, List.append_assoc, List.singleton_append]

theorem Cleaned.nothing (ring : Ring st.next st.head nodes) (heap : HeapHolds st.heap start nodes) :
    Cleaned fuel start st [] nodes st :=
  ⟨.inr ⟨ring, fun zero => heap.nonzero zero rfl⟩, rfl, rfl, rfl, heap, fun _ => rfl, rfl⟩

/-- With `safety` blocks to go, the reaper handles as many of the blocks behind `prev`. -/
theorem reap_cleaned (enough : heapSize / sizeofBlock < fuel) (safety : Nat) {before behind : List Nat} {prev : Nat}
    (ring : Ring st.next st.head (before ++ prev :: behind))
    (heap : HeapHolds st.heap start (before ++ prev :: behind)) :
    ∃ st', reap fuel st.head st.current safety prev (st.next prev) st = some st' ∧
      Cleaned fuel start st ((behind.take safety).filter fun process => Reapable st process)
        (before ++ prev :: ((behind.take safety).filter fun process => ¬Reapable st process) ++ behind.drop safety)
        st' := by
  induction safety generalizing st before prev behind with
  | zero =>
    refine ⟨st, rfl, ?_⟩
    simpa using Cleaned.nothing ring heap
  | succ safety ih =>
    unfold reap
    cases behind with
    | nil =>
      refine ⟨st, if_pos ring.next_last, ?_⟩
      simpa using Cleaned.nothing ring heap
    | cons cur rest =>
      have apart : cur ≠ st.head := ring.ne_head List.mem_cons_self
      rw [ring.next_middle, if_neg apart, List.take_succ_cons, List.drop_succ_cons]
      by_cases dead : Reapable st cur
      · have member : cur ∈ before ++ prev :: cur :: rest := List.mem_append_right _ (List.mem_cons_of_mem _ List.mem_cons_self)
        obtain ⟨heap', freed, holds⟩ := heap.kfree enough member ring.nodup
        rw [erase_behind ring.nodup rfl] at holds
        obtain ⟨st', ran, cleaned⟩ := ih (unlinked_ring ring heap') holds
        simp only [unlinked_reapable] at cleaned
        rw [if_pos (show (st.pcbs cur).state = .zombie ∧ cur ≠ st.current from dead),
          List.filter_cons_of_pos (by simpa using dead), List.filter_cons_of_neg (by simpa using dead)]
        refine ⟨st', ?_, cleaned.cons freed⟩
        change (kfree fuel cur st.heap).bind _ = _
        rw [freed, Option.bind_some]
        exact ran
      · have shift : before ++ prev :: cur :: rest = (before ++ [prev]) ++ cur :: rest := by
          rw [List.append_assoc, List.singleton_append]
        rw [shift] at ring heap
        obtain ⟨st', ran, cleaned⟩ := ih ring heap
        rw [if_neg (show ¬((st.pcbs cur).state = .zombie ∧ cur ≠ st.current) from dead),
          List.filter_cons_of_neg (by simpa using dead), List.filter_cons_of_pos (by simpa using dead)]
        refine ⟨st', ran, ?_⟩
        simpa using cleaned

end Reap

/-- One round of the reaper frees exactly the dead processes of the ring that do not run and
leaves the others in their order. -/
def CleansUp (fuel start : Nat) (st : Kernel) (nodes : List Nat) : Prop :=
  ∃ st', reaperPass fuel st = some st' ∧
    Cleaned fuel start st (nodes.filter fun process => Reapable st process)
      (nodes.filter fun process => ¬Reapable st process) st'

theorem reaperPass_cleaned {fuel start : Nat} {st : Kernel} {rest : List Nat} (enough : heapSize / sizeofBlock < fuel)
    (ring : Ring st.next st.head (st.head :: rest)) (heap : HeapHolds st.heap start (st.head :: rest)) :
    ∃ st', reaperPass fuel st = some st' ∧
      Cleaned fuel start st ((rest.take 100).filter fun process => Reapable st process)
        (st.head :: ((rest.take 100).filter fun process => ¬Reapable st process) ++ rest.drop 100) st' := by
  obtain ⟨st', ran, cleaned⟩ := @reap_cleaned fuel start st enough 100 [] rest st.head ring heap
  refine ⟨st', ?_, cleaned⟩
  unfold reaperPass
  rw [if_neg (heap.nonzero List.mem_cons_self)]
  exact ran

/-- A round cleans up completely exactly when every dead process that does not run is one of the
100 behind the head of the ring. -/
theorem reaperPass_iff {fuel start : Nat} {st : Kernel} {nodes : List Nat} (enough : heapSize / sizeofBlock < fuel)
    (ring : ProcessRing st nodes) (heap : HeapHolds st.heap start nodes) :
    CleansUp fuel start st nodes ↔
      ∀ index process, nodes[index]? = some process → Reapable st process → 1 ≤ index ∧ index ≤ 100 := by
  rcases ring with ⟨empty, rfl⟩ | ⟨ring, nonzero⟩
  · refine iff_of_true ⟨st, if_pos empty, ?_⟩ fun index process present => ?_
    · exact ⟨.inl ⟨empty, rfl⟩, rfl, rfl, rfl, heap, fun _ => rfl, rfl⟩
    · cases present
  · obtain ⟨rest, rfl⟩ := ring.cons
    obtain ⟨st', ran, cleaned⟩ := reaperPass_cleaned enough ring heap
    constructor
    · rintro ⟨other, ran', complete⟩ index process present dead
      obtain rfl := Option.some.inj (ran.symm.trans ran')
      have freed := List.append_cancel_right (cleaned.freed.symm.trans complete.freed)
      have same : (rest.take 100).filter (fun process => Reapable st process) =
          (st.head :: rest).filter fun process => Reapable st process :=
        List.map_injective_iff.mpr (fun _ _ => Event.freed.inj) (List.reverse_injective freed)
      have found : process ∈ rest.take 100 := by
        have member : process ∈ (st.head :: rest).filter fun process => Reapable st process :=
          List.mem_filter.mpr ⟨List.mem_of_getElem? present, decide_eq_true dead⟩
        rw [← same] at member
        exact (List.mem_filter.mp member).1
      obtain ⟨place, low, there⟩ := List.mem_take_iff_getElem.mp found
      have again : (st.head :: rest)[place + 1]? = some process := by
        rw [List.getElem?_cons_succ, ← there]
        exact List.getElem?_eq_getElem _
      have inside := (List.getElem?_eq_some_iff.mp again).1
      have index' := (List.getElem?_inj inside ring.nodup).mp (again.trans present.symm)
      omega
    · intro near
      refine ⟨st', ran, ?_⟩
      have head : ¬Reapable st st.head := fun dead => absurd (near 0 st.head rfl dead).1 (by decide)
      have behind : ∀ process ∈ rest.drop 100, ¬Reapable st process := by
        intro process member dead
        obtain ⟨place, there⟩ := List.getElem?_of_mem member
        rw [List.getElem?_drop] at there
        have late := (near (100 + place + 1) process (by rw [List.getElem?_cons_succ]; exact there) dead).2
        omega
      have freed : (st.head :: rest).filter (fun process => Reapable st process) =
          (rest.take 100).filter fun process => Reapable st process := by
        rw [List.filter_cons_of_neg (by simpa using head)]
        have none : (rest.drop 100).filter (fun process => Reapable st process) = [] :=
          List.filter_eq_nil_iff.mpr (by simpa using behind)
        conv_lhs => rw [← List.take_append_drop 100 rest]
        rw [List.filter_append, none, List.append_nil]
      have kept : (st.head :: rest).filter (fun process => ¬Reapable st process) =
          st.head :: ((rest.take 100).filter fun process => ¬Reapable st process) ++ rest.drop 100 := by
        rw [List.filter_cons_of_pos (by simpa using head), List.cons_append]
        have all : (rest.drop 100).filter (fun process => ¬Reapable st process) = rest.drop 100 :=
          List.filter_eq_self.mpr (by simpa using behind)
        conv_lhs => rw [← List.take_append_drop 100 rest]
        rw [List.filter_append, all]
      rw [freed, kept]
      exact cleaned

theorem reaperPass_iff_idleKernel : ∃ st, SchedularRun 32769 (schedularInit idleKernel)
      [.add (some [65]) 0x1000 0, .add (some [66]) 0x2000 2, .remove 1] st ∧
    (CleansUp 32769 0x200000 st (alive st.trace) ↔
      ∀ index process, (alive st.trace)[index]? = some process → Reapable st process → 1 ≤ index ∧ index ≤ 100) := by
  have returns : (execute 32769 [.add (some [65]) 0x1000 0, .add (some [66]) 0x2000 2, .remove 1]
      (schedularInit idleKernel)).isSome = true := by decide +kernel
  obtain ⟨st, executed⟩ := Option.isSome_iff_exists.mp returns
  have order := run_inOrder idleKernel_booted (execute_run executed)
  exact ⟨st, execute_run executed, reaperPass_iff idleKernel_booted.enough order.processRing order.heap⟩

/-- A dead process at the head of the ring stays there. -/
theorem reaperPass_deadHead : ∃ st process, SchedularRun 32769 (schedularInit idleKernel)
      [.add (some [65]) 0x1000 3, .add (some [66]) 0x2000 3, .tick zeroFrame, .remove 0] st ∧
    alive st.trace = [process, st.current] ∧ Reapable st process ∧ ¬CleansUp 32769 0x200000 st (alive st.trace) := by
  have trace : (execute 32769 [.add (some [65]) 0x1000 3, .add (some [66]) 0x2000 3, .tick zeroFrame, .remove 0]
      (schedularInit idleKernel)).bind (fun st => (reaperPass 32769 st).map fun st' =>
        (alive st.trace, st.current, (alive st.trace).filter fun process => Reapable st process,
          decide (st'.trace = st.trace))) =
      some ([0x200020, 0x200138], 0x200138, [0x200020], true) := by
    decide +kernel
  obtain ⟨st, executed, rest⟩ := Option.bind_eq_some_iff.mp trace
  obtain ⟨st', passed, results⟩ := Option.map_eq_some_iff.mp rest
  obtain ⟨members, running, dead, same⟩ : alive st.trace = [0x200020, 0x200138] ∧ st.current = 0x200138 ∧
      (alive st.trace).filter (fun process => Reapable st process) = [0x200020] ∧ decide (st'.trace = st.trace) = true := by
    simpa only [Prod.mk.injEq] using results
  refine ⟨st, 0x200020, execute_run executed, by rw [members, running], ?_, ?_⟩
  · have member : 0x200020 ∈ (alive st.trace).filter fun process => Reapable st process := by
      rw [dead]
      exact List.mem_cons_self
    exact of_decide_eq_true (List.mem_filter.mp member).2
  · rintro ⟨other, passed', cleaned⟩
    obtain rfl := Option.some.inj (passed.symm.trans passed')
    have freed := cleaned.freed
    rw [dead, of_decide_eq_true same] at freed
    exact absurd (congrArg List.length freed) (by simp)

end LivlyOS.Proc
