import LivlyOS.Mm.Kmalloc
import LivlyOS.Lib.Chain
import LivlyOS.Lib.Run
import Mathlib.Data.List.TakeWhile

namespace LivlyOS.Mm

open LivlyOS.Lib

/-- The heap and the live pointers of its users, each with the requested size. -/
structure HeapUse where
  heap : HeapState
  live : List (Nat × Nat)

inductive HeapCall where
  | kmalloc (size : UInt64)
  | kfree (ptr : Nat)
  /-- The owner of a live range stores into it. -/
  | fill (ptr size : Nat)
deriving DecidableEq

/-- The bytes that the owner of a live pointer asked for. -/
def InPayload (range : Nat × Nat) (addr : Nat) : Prop := range.1 ≤ addr ∧ addr < range.1 + range.2

inductive HeapStep (fuel : Nat) : HeapUse → HeapCall → HeapUse → Prop where
  | kmalloc {use : HeapUse} {size : UInt64} {ptr : Nat} {heap : HeapState}
      (ran : kmalloc fuel size use.heap = some (ptr, heap)) :
      HeapStep fuel use (.kmalloc size)
        ⟨heap, if ptr = 0 then use.live else (ptr, size.toNat) :: use.live⟩
  | kfree {use : HeapUse} {ptr : Nat} {heap : HeapState} (owned : ptr = 0 ∨ ptr ∈ use.live.map Prod.fst)
      (ran : kfree fuel ptr use.heap = some heap) :
      HeapStep fuel use (.kfree ptr) ⟨heap, use.live.filter fun range => range.1 ≠ ptr⟩
  | fill {use : HeapUse} (owned : (ptr, size) ∈ use.live)
      (same : ∀ addr, ¬ InPayload (ptr, size) addr → bytes addr = use.heap.mem.bytes addr) :
      HeapStep fuel use (.fill ptr size)
        ⟨⟨use.heap.heapStart, ⟨bytes, use.heap.mem.stores⟩⟩, use.live⟩

theorem HeapStep.alloc {heap heap' : HeapState} (ran : LivlyOS.Mm.kmalloc fuel size heap = some (ptr, heap'))
    (nonzero : ptr ≠ 0) : HeapStep fuel ⟨heap, live⟩ (.kmalloc size) ⟨heap', (ptr, size.toNat) :: live⟩ := by
  have step := @HeapStep.kmalloc fuel ⟨heap, live⟩ size ptr heap' ran
  rwa [if_neg nonzero] at step

/-- The blocks of the heap and who uses them. -/
structure HeapUse.Owned (use : HeapUse) (start : Nat) (blocks : List HeapBlock) : Prop where
  place : use.heap.heapStart = start
  heap : Heap use.heap.mem start (start + heapSize) blocks
  owned : ∀ range ∈ use.live, ∃ block ∈ blocks, block.used = true ∧
    range.1 = block.addr + sizeofBlock ∧ range.2 ≤ block.size
  recorded : ∀ block ∈ blocks, block.used = true → block.addr + sizeofBlock ∈ use.live.map Prod.fst
  nodup : (use.live.map Prod.fst).Nodup

namespace Heap

/-- Headers are as long as `width` says, so there are not many blocks. -/
theorem length_lt (heap : Heap mem start (start + heapSize) blocks) : blocks.length < heapSize / sizeofBlock + 1 := by
  have room := heap.tiles.length_le (fun block _ => Nat.le_add_right (block.addr + sizeofBlock) block.size)
  rw [heapSize, sizeofBlock] at room ⊢
  omega

/-- Blocks with the same address are the same block. -/
theorem addr_injective (heap : Heap mem start stop blocks) (here : block ∈ blocks) (there : other ∈ blocks)
    (same : block.addr = other.addr) : block = other := by
  rcases heap.tiles.apart here there with equal | before | behind
  · exact equal
  · rw [HeapBlock.limit, sizeofBlock] at before
    omega
  · rw [HeapBlock.limit, sizeofBlock] at behind
    omega

/-- No header reaches into the bytes behind another header. -/
theorem header_apart (heap : Heap mem start stop blocks) (here : block ∈ blocks) (there : other ∈ blocks)
    (low : other.addr + sizeofBlock ≤ addr) (high : addr < other.limit) : ¬ InHeader block.addr addr := by
  intro header
  have below := header.1
  have above := header.2
  rcases heap.tiles.apart here there with rfl | before | behind
  · omega
  · rw [HeapBlock.limit] at before
    omega
  · omega

end Heap

namespace HeapUse.Owned

variable {use : HeapUse} {start : Nat} {blocks : List HeapBlock}

/-- Owners that fill their ranges change no header. -/
theorem fill (state : use.Owned start blocks) (owned : (ptr, size) ∈ use.live) {bytes : Bytes}
    (same : ∀ addr, ¬ InPayload (ptr, size) addr → bytes addr = use.heap.mem.bytes addr) :
    HeapUse.Owned ⟨⟨use.heap.heapStart, ⟨bytes, use.heap.mem.stores⟩⟩, use.live⟩ start blocks := by
  obtain ⟨place, heap, owner, recorded, nodup⟩ := state
  obtain ⟨block, member, _, starts, fits⟩ := owner _ owned
  refine ⟨place, { heap with held := fun other there => (heap.held other there).congr ?_ }, owner, recorded, nodup⟩
  intro addr low high
  apply same addr
  intro inside
  have above : block.addr + sizeofBlock ≤ addr := starts ▸ inside.1
  have below := inside.2
  refine heap.header_apart there member above ?_ ⟨low, high⟩
  rw [HeapBlock.limit]
  dsimp only at starts fits below
  omega

/-- A pointer that is live belongs to a block in use. -/
theorem used_of_live (state : use.Owned start blocks) (member : block ∈ blocks)
    (live : block.addr + sizeofBlock ∈ use.live.map Prod.fst) : block.used = true := by
  obtain ⟨range, present, same⟩ := List.mem_map.mp live
  obtain ⟨other, there, used, starts, _⟩ := state.owned range present
  have equal := state.heap.addr_injective member there (by omega)
  exact equal ▸ used

end HeapUse.Owned

/-- A free block that `kmalloc` takes is in use afterwards, what it cuts off is not. -/
theorem HeapBlock.taken_eq {size : Nat} {block : HeapBlock} (enough : size ≤ block.size) :
    ∃ width rest, block.taken size = ⟨block.addr, width, true⟩ :: rest ∧ size ≤ width ∧
      ∀ part ∈ rest, part.used = false := by
  rw [HeapBlock.taken]
  split
  · refine ⟨_, _, rfl, Nat.le_refl _, fun part only => ?_⟩
    rw [List.mem_singleton.mp only]
  · exact ⟨_, _, rfl, enough, fun _ none => absurd none List.not_mem_nil⟩

theorem HeapUse.Owned.alloc {use : HeapUse} (state : use.Owned start (before ++ block :: after))
    (fits : block.fits size = true)
    (heap' : Heap mem use.heap.heapStart (start + heapSize) (before ++ (block.taken size ++ after))) :
    HeapUse.Owned ⟨⟨use.heap.heapStart, mem⟩, (block.addr + sizeofBlock, size) :: use.live⟩ start
      (before ++ (block.taken size ++ after)) := by
  obtain ⟨free, enough⟩ := (HeapBlock.fits_iff block).mp fits
  obtain ⟨width, rest, shape, wide, cutOff⟩ := HeapBlock.taken_eq enough
  have fresh : block.addr + sizeofBlock ∉ use.live.map Prod.fst := by
    intro live
    have used := state.used_of_live (by simp) live
    rw [free] at used
    cases used
  obtain ⟨rfl, heap, owner, recorded, nodup⟩ := state
  rw [shape] at heap' ⊢
  refine ⟨rfl, heap', ?_, ?_, List.nodup_cons.mpr ⟨fresh, nodup⟩⟩
  · intro range member
    rcases List.mem_cons.mp member with rfl | member
    · exact ⟨⟨block.addr, width, true⟩, by simp, rfl, rfl, wide⟩
    · obtain ⟨other, there, used, starts, inside⟩ := owner range member
      refine ⟨other, ?_, used, starts, inside⟩
      have different : other ≠ block := by
        intro same
        rw [same, free] at used
        cases used
      simp only [List.mem_append, List.mem_cons, different, false_or] at there
      simp only [List.mem_append, List.mem_cons]
      exact there.imp id fun behind => .inr behind
  · intro other there used
    rw [List.map_cons]
    simp only [List.mem_append, List.mem_cons] at there
    rcases there with before' | (rfl | cut) | behind
    · exact List.mem_cons_of_mem _ (recorded other (by simp [before']) used)
    · exact List.mem_cons_self
    · rw [cutOff other cut] at used
      cases used
    · exact List.mem_cons_of_mem _ (recorded other (by simp [behind]) used)

/-- Blocks in use are not dropped with the free ones in front of them. -/
theorem mem_dropWhile_free {blocks : List HeapBlock} (member : block ∈ blocks) (used : block.used = true) :
    block ∈ blocks.dropWhile fun next => !next.used := by
  rw [← @List.takeWhile_append_dropWhile _ (fun next => !HeapBlock.used next) blocks] at member
  rcases List.mem_append.mp member with dropped | kept
  · have free := List.mem_takeWhile_imp dropped
    rw [used] at free
    cases free
  · exact kept

theorem HeapUse.Owned.release {use : HeapUse} (state : use.Owned start (before ++ block :: after))
    (heap' : Heap mem use.heap.heapStart (start + heapSize)
      (before ++ ⟨block.addr, width, false⟩ :: after.dropWhile fun next => !next.used)) :
    HeapUse.Owned ⟨⟨use.heap.heapStart, mem⟩, use.live.filter fun range => range.1 ≠ block.addr + sizeofBlock⟩
      start (before ++ ⟨block.addr, width, false⟩ :: after.dropWhile fun next => !next.used) := by
  obtain ⟨rfl, heap, owner, recorded, nodup⟩ := state
  refine ⟨rfl, heap', ?_, ?_, ?_⟩
  · intro range member
    obtain ⟨present, different⟩ := List.mem_filter.mp member
    obtain ⟨other, there, used, starts, inside⟩ := owner range present
    refine ⟨other, ?_, used, starts, inside⟩
    rcases List.mem_append.mp there with before' | there
    · exact List.mem_append_left _ before'
    · rcases List.mem_cons.mp there with rfl | behind
      · simp [starts] at different
      · exact List.mem_append_right _ (List.mem_cons_of_mem _ (mem_dropWhile_free behind used))
  · intro other there used
    obtain ⟨earlier, later⟩ := heap.tiles.around
    have kept : other ∈ before ++ block :: after ∧ other.addr ≠ block.addr := by
      rcases List.mem_append.mp there with before' | there
      · have ends : other.addr + sizeofBlock + other.size ≤ block.addr := earlier other before'
        rw [sizeofBlock] at ends
        exact ⟨List.mem_append_left _ before', by omega⟩
      · rcases List.mem_cons.mp there with rfl | dropped
        · cases used
        · have behind := (List.dropWhile_sublist _).subset dropped
          have starts : block.addr + sizeofBlock + block.size ≤ other.addr := later other behind
          rw [sizeofBlock] at starts
          exact ⟨List.mem_append_right _ (List.mem_cons_of_mem _ behind), by omega⟩
    obtain ⟨range, present, same⟩ := List.mem_map.mp (recorded other kept.1 used)
    refine List.mem_map.mpr ⟨range, List.mem_filter.mpr ⟨present, decide_eq_true ?_⟩, same⟩
    omega
  · exact nodup.sublist (List.filter_sublist.map _)

/-- The state directly after `kmalloc_init`. -/
def initialHeap (pmmBitmapEnd : Nat) (mem : Memory) : HeapUse := ⟨kmallocInit pmmBitmapEnd mem, []⟩

theorem initialHeap_owned (positive : 0 < pmmBitmapEnd)
    (fits : pmmBitmapEnd + heapSize < 18446744073709551616) (mem : Memory) :
    (initialHeap pmmBitmapEnd mem).Owned pmmBitmapEnd [⟨pmmBitmapEnd, heapSize - sizeofBlock, false⟩] := by
  refine ⟨rfl, kmallocInit_spec positive fits mem, fun _ none => absurd none List.not_mem_nil, ?_, List.nodup_nil⟩
  intro block only used
  rw [List.mem_singleton.mp only] at used
  cases used

/-- What one call does to the blocks. -/
inductive BlockStep (use : HeapUse) : HeapCall → List HeapBlock → List HeapBlock → HeapUse → Prop where
  | same (live : use'.live = use.live) (stores : use'.heap.mem.stores = use.heap.mem.stores)
      (null : ∀ ptr, call = .kfree ptr → ptr = 0) : BlockStep use call blocks blocks use'
  | taken {block : HeapBlock} (fits : block.fits size.toNat = true)
      (within : Within (block.Written size.toNat) use.heap.mem mem) :
      BlockStep use (.kmalloc size) (before ++ block :: after)
        (before ++ (block.taken size.toNat ++ after))
        ⟨⟨use.heap.heapStart, mem⟩, (block.addr + sizeofBlock, size.toNat) :: use.live⟩
  | freed {block : HeapBlock} (used : block.used = true) (within : Within (InHeader block.addr) use.heap.mem mem) :
      BlockStep use (.kfree (block.addr + sizeofBlock)) (before ++ block :: after)
        (before ++ ⟨block.addr, width, false⟩ :: after.dropWhile fun next => !next.used)
        ⟨⟨use.heap.heapStart, mem⟩, use.live.filter fun range => range.1 ≠ block.addr + sizeofBlock⟩

theorem HeapUse.Owned.step {use : HeapUse} (state : use.Owned start blocks)
    (enough : heapSize / sizeofBlock < fuel) (step : HeapStep fuel use call use') :
    ∃ blocks', BlockStep use call blocks blocks' use' ∧ use'.Owned start blocks' := by
  have bound := state.heap.length_lt
  have positive := state.heap.positive
  obtain rfl : use.heap.heapStart = start := state.place
  cases step with
  | @kmalloc _ size ptr heap ran =>
    rcases kmalloc_spec state.heap (by omega : blocks.length < fuel) size with
      ⟨nothing, _⟩ | ⟨before, block, after, mem, rfl, fits, took, heap', within⟩
    · cases nothing.symm.trans ran
      rw [if_pos rfl]
      exact ⟨blocks, .same rfl rfl (fun _ other => HeapCall.noConfusion other), state⟩
    · cases took.symm.trans ran
      rw [if_neg (by rw [sizeofBlock]; omega)]
      exact ⟨_, .taken fits within, state.alloc fits heap'⟩
  | @kfree _ ptr heap owned ran =>
    rcases owned with rfl | live
    · cases (show kfree fuel 0 use.heap = some use.heap from rfl).symm.trans ran
      have nonzero : use.live.filter (fun range => range.1 ≠ 0) = use.live := by
        refine List.filter_eq_self.mpr fun range member => decide_eq_true ?_
        obtain ⟨block, _, _, starts, _⟩ := state.owned range member
        rw [starts, sizeofBlock]
        omega
      rw [nonzero]
      exact ⟨blocks, .same rfl rfl fun ptr call => (HeapCall.kfree.inj call).symm, state⟩
    · obtain ⟨range, present, rfl⟩ := List.mem_map.mp live
      obtain ⟨block, member, used, starts, _⟩ := state.owned range present
      obtain ⟨before, after, rfl⟩ := List.append_of_mem member
      rw [List.length_append, List.length_cons] at bound
      obtain ⟨mem, width, freed, heap', within⟩ := kfree_spec state.heap (by omega : after.length < fuel)
      rw [starts] at ran ⊢
      cases freed.symm.trans ran
      exact ⟨_, .freed used within, state.release heap'⟩
  | fill owned same => exact 
    ⟨blocks, .same rfl rfl (fun _ other => HeapCall.noConfusion other), state.fill owned same⟩

/-- The block that a header links to. -/
def Memory.successor (mem : Memory) (block : Nat) : Option Nat :=
  if mem.next block = 0 then none else some (mem.next block)

/-- The address behind the payload of a block. -/
def Memory.limit (mem : Memory) (block : Nat) : Nat := block + sizeofBlock + mem.size block

/-- The links lead through all blocks of the heap. -/
theorem Heap.chain (heap : Heap mem start stop (before ++ block :: after)) :
    Chain mem.successor block.addr ((block :: after).map HeapBlock.addr) := by
  have link := heap.next
  induction after generalizing before block with
  | nil => exact .last (if_pos link)
  | cons follower after ih =>
    have shifted : Heap mem start stop (before ++ [block] ++ follower :: after) := by simpa using heap
    have positive := heap.positive
    have member : follower ∈ before ++ block :: follower :: after := by simp
    have low := (heap.bounds member).1
    rw [Heap.firstAddr] at link
    refine .link ?_ (ih shifted shifted.next)
    rw [Memory.successor, link, if_neg (by omega)]

/-- The heap is in order: the linked blocks partition it, and the live ranges lie
inside it, apart from each other and from every header. -/
structure HeapUse.Safe (use : HeapUse) (start : Nat) : Prop where
  blocks : ∃ blocks, Chain use.heap.mem.successor use.heap.heapStart blocks ∧
    Tiles (fun block => block) use.heap.mem.limit start blocks (start + heapSize) ∧
    ∀ block ∈ blocks, ∀ range ∈ use.live, ∀ addr, InPayload range addr → ¬ InHeader block addr
  inside : ∀ range ∈ use.live, start ≤ range.1 ∧ range.1 + range.2 ≤ start + heapSize
  apart : use.live.Pairwise fun left right => ∀ addr, InPayload left addr → ¬ InPayload right addr

/-- The bytes of a live range belong to its block. -/
theorem HeapUse.Owned.payload {use : HeapUse} (state : use.Owned start blocks) (member : range ∈ use.live) :
    ∃ block ∈ blocks, block.used = true ∧ range.1 = block.addr + sizeofBlock ∧
      ∀ addr, InPayload range addr → block.addr + sizeofBlock ≤ addr ∧ addr < block.limit := by
  obtain ⟨block, there, used, starts, inside⟩ := state.owned range member
  refine ⟨block, there, used, starts, fun addr payload => ?_⟩
  obtain ⟨low, high⟩ := payload
  rw [HeapBlock.limit]
  omega

theorem HeapUse.Owned.safe {use : HeapUse} (state : use.Owned start blocks) : use.Safe start := by
  refine ⟨?_, fun range member => ?_, ?_⟩
  · refine ⟨blocks.map HeapBlock.addr, ?_, ?_, ?_⟩
    · obtain ⟨first, rest, rfl, starts⟩ := state.heap.cons
      have chain := @Heap.chain _ _ _ [] _ _ state.heap
      rw [starts] at chain
      rw [state.place]
      exact chain
    · refine state.heap.tiles.map (fun _ _ => rfl) fun block member => ?_
      rw [Memory.limit, HeapBlock.limit, (state.heap.held block member).size]
    · intro place member range present addr payload
      obtain ⟨block, here, rfl⟩ := List.mem_map.mp member
      obtain ⟨other, there, _, _, inside⟩ := state.payload present
      exact state.heap.header_apart here there (inside addr payload).1 (inside addr payload).2
  · obtain ⟨block, there, _, starts, inside⟩ := state.owned range member
    obtain ⟨low, high⟩ := state.heap.bounds there
    omega
  · refine (List.pairwise_map.mp state.nodup).imp_of_mem fun here there different addr first second => ?_
    obtain ⟨block, place, _, starts, inside⟩ := state.payload here
    obtain ⟨other, place', _, starts', inside'⟩ := state.payload there
    have low := inside addr first
    have high := inside' addr second
    rcases state.heap.tiles.apart place place' with rfl | before | behind
    · exact different (starts.trans starts'.symm)
    · omega
    · omega

/-- No byte that a call stores belongs to a range that is live before or after it. -/
def Untouched (use use' : HeapUse) : Prop :=
  ∃ stores, use'.heap.mem.stores = stores ++ use.heap.mem.stores ∧
    ∀ store ∈ stores, ∀ range ∈ use.live ++ use'.live, ∀ offset < store.2,
      ¬ InPayload range (store.1 + offset)

theorem Within.untouched {use use' : HeapUse} (within : Within region use.heap.mem use'.heap.mem)
    (apart : ∀ range ∈ use.live ++ use'.live, ∀ addr, InPayload range addr → ¬ region addr) :
    Untouched use use' := by
  obtain ⟨stores, same, covered⟩ := within.stores
  exact ⟨stores, same, fun store member range present offset low payload =>
    apart range present _ payload (covered store member offset low)⟩

theorem HeapUse.Owned.untouched {use : HeapUse} (state : use.Owned start blocks)
    (step : BlockStep use call blocks blocks' use') : Untouched use use' := by
  cases step with
  | same live stores null => exact ⟨[], stores, fun _ none => absurd none List.not_mem_nil⟩
  | @taken mem size before after block fits within =>
    refine within.untouched fun range member addr payload written => ?_
    have old : range ∈ use.live ∨ range = (block.addr + sizeofBlock, size.toNat) := by
      simp only [List.mem_append, List.mem_cons] at member
      tauto
    rcases old with present | rfl
    · -- the block of a live range is in use, the one that is taken is free
      obtain ⟨other, there, used, _, inside⟩ := state.payload present
      have low := inside addr payload
      have high := written.inside
      rcases state.heap.tiles.apart there (by simp : block ∈ before ++ block :: after) with rfl | before | behind
      · rw [((HeapBlock.fits_iff _).mp fits).1] at used
        cases used
      · omega
      · omega
    · have low := payload.1
      have high := payload.2
      rcases written with ⟨_, above⟩ | ⟨_, below, _⟩ <;> omega
  | @freed mem before after width block used within =>
    refine within.untouched fun range member addr payload written => ?_
    have present : range ∈ use.live := by
      rcases List.mem_append.mp member with present | kept
      · exact present
      · exact List.mem_of_mem_filter kept
    obtain ⟨other, there, _, _, inside⟩ := state.payload present
    exact state.heap.header_apart (by simp) there (inside addr payload).1 (inside addr payload).2 written

theorem HeapUse.Owned.returns {use : HeapUse} (state : use.Owned start blocks)
    (enough : heapSize / sizeofBlock < fuel) :
    (∀ size, ∃ ptr heap, kmalloc fuel size use.heap = some (ptr, heap)) ∧
      ∀ ptr, ptr = 0 ∨ ptr ∈ use.live.map Prod.fst → ∃ heap, kfree fuel ptr use.heap = some heap := by
  have bound := state.heap.length_lt
  obtain rfl : use.heap.heapStart = start := state.place
  constructor
  · intro size
    rcases kmalloc_spec state.heap (by omega : blocks.length < fuel) size with
      ⟨nothing, _⟩ | ⟨_, _, _, _, _, _, took, _⟩
    · exact ⟨_, _, nothing⟩
    · exact ⟨_, _, took⟩
  · rintro ptr (rfl | live)
    · exact ⟨use.heap, rfl⟩
    · obtain ⟨range, present, rfl⟩ := List.mem_map.mp live
      obtain ⟨block, member, used, starts, _⟩ := state.owned range present
      obtain ⟨before, after, rfl⟩ := List.append_of_mem member
      rw [List.length_append, List.length_cons] at bound
      obtain ⟨mem, width, freed, _⟩ := kfree_spec state.heap (by omega : after.length < fuel)
      exact ⟨_, starts ▸ freed⟩

/-- A heap at two megabytes in empty memory. -/
def smallHeap : HeapUse := initialHeap 0x200000 ⟨fun _ => 0, []⟩

section Runs

variable {pmmBitmapEnd fuel : Nat} {mem : Memory} {calls : List HeapCall} {use : HeapUse}

theorem run_owned {ok : HeapUse → HeapCall → Prop} (positive : 0 < pmmBitmapEnd)
    (fits : pmmBitmapEnd + heapSize < 18446744073709551616) (enough : heapSize / sizeofBlock < fuel)
    (run : Run (HeapStep fuel) ok (initialHeap pmmBitmapEnd mem) calls use) :
    ∃ blocks, use.Owned pmmBitmapEnd blocks := by
  refine run.invariant (fun use => ∃ blocks, HeapUse.Owned use pmmBitmapEnd blocks) ?_
    ⟨_, initialHeap_owned positive fits mem⟩
  rintro use call use' ⟨blocks, state⟩ _ step
  obtain ⟨blocks', _, state'⟩ := state.step enough step
  exact ⟨blocks', state'⟩

/-- In every run after `kmalloc_init` the heap is in order, every call returns and
none of them writes into a live range. -/
theorem heap_safe (positive : 0 < pmmBitmapEnd) (fits : pmmBitmapEnd + heapSize < 18446744073709551616)
    (enough : heapSize / sizeofBlock < fuel)
    (run : Run (HeapStep fuel) (fun _ _ => True) (initialHeap pmmBitmapEnd mem) calls use) :
    use.Safe pmmBitmapEnd ∧
      (∀ size, ∃ ptr heap, kmalloc fuel size use.heap = some (ptr, heap)) ∧
      (∀ ptr, ptr = 0 ∨ ptr ∈ use.live.map Prod.fst → ∃ heap, kfree fuel ptr use.heap = some heap) ∧
      ∀ call use', HeapStep fuel use call use' → Untouched use use' := by
  obtain ⟨blocks, state⟩ := run_owned positive fits enough run
  obtain ⟨allocates, frees⟩ := state.returns enough
  refine ⟨state.safe, allocates, frees, fun call use' step => ?_⟩
  obtain ⟨blocks', change, _⟩ := state.step enough step
  exact state.untouched change

theorem heap_safe_smallHeap : ∃ use, Run (HeapStep 32769) (fun _ _ => True) smallHeap
      [.kmalloc 64, .kmalloc 1000, .kfree 0x200020, .fill 0x200080 1000] use ∧
    use.live = [(0x200080, 1000)] ∧ use.Safe 0x200000 := by
  have trace : ((kmalloc 32769 64 smallHeap.heap).bind fun (left, first) =>
      (kmalloc 32769 1000 first).bind fun (right, second) =>
        (kfree 32769 left second).map fun _ => (left, right)) = some (0x200020, 0x200080) := by
    decide +kernel
  obtain ⟨⟨left, first⟩, firstRun, trace⟩ := Option.bind_eq_some_iff.mp trace
  obtain ⟨⟨right, second⟩, secondRun, trace⟩ := Option.bind_eq_some_iff.mp trace
  obtain ⟨third, thirdRun, same⟩ := Option.map_eq_some_iff.mp trace
  cases same
  have step₁ : HeapStep 32769 smallHeap (.kmalloc 64) ⟨first, [(0x200020, 64)]⟩ :=
    .alloc firstRun (by decide)
  have step₂ : HeapStep 32769 ⟨first, [(0x200020, 64)]⟩ (.kmalloc 1000)
      ⟨second, [(0x200080, 1000), (0x200020, 64)]⟩ := .alloc secondRun (by decide)
  have step₃ : HeapStep 32769 ⟨second, [(0x200080, 1000), (0x200020, 64)]⟩ (.kfree 0x200020)
      ⟨third, [(0x200080, 1000)]⟩ := .kfree (.inr (by simp)) thirdRun
  have step₄ : HeapStep 32769 ⟨third, [(0x200080, 1000)]⟩ (.fill 0x200080 1000)
      ⟨⟨third.heapStart, ⟨third.mem.bytes, third.mem.stores⟩⟩, [(0x200080, 1000)]⟩ :=
    .fill (List.mem_singleton_self _) fun _ _ => rfl
  have run := (Run.next trivial step₁ <| .next trivial step₂ <| .next trivial step₃ <|
    .next trivial step₄ .done : Run (HeapStep 32769) (fun _ _ => True) smallHeap _ _)
  exact ⟨_, run, rfl, (heap_safe (by decide) (by decide) (by decide) run).1⟩

/-- The last live pointer to be freed is the one of the first block. -/
def FreesFirst (use : HeapUse) : HeapCall → Prop
  | .kfree ptr => use.live.map Prod.fst = [ptr] → ptr = use.heap.heapStart + sizeofBlock
  | _ => True

/-- With nothing live, every request that fits behind one header succeeds. -/
def Reclaimed (fuel : Nat) (use : HeapUse) : Prop :=
  use.live = [] → ∀ size : UInt64, size.toNat ≤ heapSize - sizeofBlock →
    ∃ ptr heap, kmalloc fuel size use.heap = some (ptr, heap) ∧ ptr ≠ 0

/-- Nothing is live and the heap is one free block. -/
def Whole (use : HeapUse) (start : Nat) (blocks : List HeapBlock) : Prop :=
  use.live = [] → blocks = [⟨start, heapSize - sizeofBlock, false⟩]

theorem HeapUse.Owned.reclaimed_iff (state : use.Owned start blocks) (enough : heapSize / sizeofBlock < fuel) :
    Reclaimed fuel use ↔ Whole use start blocks := by
  have bound := state.heap.length_lt
  obtain rfl : use.heap.heapStart = start := state.place
  refine forall_congr' fun _ => ⟨fun reclaimed => ?_, fun whole size small => ?_⟩
  · obtain ⟨ptr, heap, returned, nonzero⟩ := reclaimed (UInt64.ofNat (heapSize - sizeofBlock)) (by decide)
    rcases kmalloc_spec state.heap (by omega : blocks.length < fuel) (UInt64.ofNat (heapSize - sizeofBlock)) with
      ⟨nothing, _⟩ | ⟨before, block, after, mem, rfl, fits, _, _, _⟩
    · cases nothing.symm.trans returned
      exact absurd rfl nonzero
    · obtain ⟨free, large⟩ := (HeapBlock.fits_iff block).mp fits
      have all : heapSize - sizeofBlock ≤ block.size := large
      have whole := state.heap.bounds (by simp : block ∈ before ++ block :: after)
      obtain ⟨earlier, later⟩ := state.heap.tiles.around
      have width : sizeofBlock = 32 := rfl
      have total : heapSize = 1048576 := rfl
      have first : before = [] := by
        refine List.eq_nil_iff_forall_not_mem.mpr fun other member => ?_
        have ends : other.addr + sizeofBlock + other.size ≤ block.addr := earlier other member
        have starts := (state.heap.bounds (by simp [member] : other ∈ before ++ block :: after)).1
        omega
      have last : after = [] := by
        refine List.eq_nil_iff_forall_not_mem.mpr fun other member => ?_
        have starts : block.addr + sizeofBlock + block.size ≤ other.addr := later other member
        have ends := (state.heap.bounds (by simp [member] : other ∈ before ++ block :: after)).2
        omega
      obtain ⟨place, size, used⟩ := block
      dsimp only at free all whole
      rw [first, last, free, List.nil_append, (by omega : place = use.heap.heapStart),
        (by omega : size = heapSize - sizeofBlock)]
  · rcases kmalloc_spec state.heap (by omega : blocks.length < fuel) size with
      ⟨_, none⟩ | ⟨before, block, after, mem, _, _, took, _, _⟩
    · have fits := none _ (whole ▸ List.mem_singleton_self _)
      rw [(HeapBlock.fits_iff _).mpr ⟨rfl, small⟩] at fits
      cases fits
    · exact ⟨_, _, took, by rw [sizeofBlock]; omega⟩

/-- After `kfree` nothing is live when the pointer was the only live one. -/
theorem freed_last (state : use.Owned start blocks) (live : ptr ∈ use.live.map Prod.fst) :
    use.live.filter (fun range => range.1 ≠ ptr) = [] ↔ use.live.map Prod.fst = [ptr] := by
  constructor
  · intro none
    have same : ∀ other ∈ use.live.map Prod.fst, other = ptr := by
      intro other member
      obtain ⟨range, present, rfl⟩ := List.mem_map.mp member
      by_contra different
      exact List.filter_eq_nil_iff.mp none range present (decide_eq_true different)
    have shape := List.eq_replicate_of_mem same
    have short : (use.live.map Prod.fst).length ≤ 1 := List.nodup_replicate.mp (shape ▸ state.nodup)
    have positive := List.length_pos_of_mem live
    rw [shape, (by omega : (use.live.map Prod.fst).length = 1)]
    rfl
  · intro only
    refine List.filter_eq_nil_iff.mpr fun range present kept => of_decide_eq_true kept ?_
    exact List.mem_singleton.mp (only ▸ List.mem_map_of_mem present)

/-- One call keeps all of the heap reclaimed exactly when it does not free the last
live pointer of a block that is not the first one. -/
theorem HeapUse.Owned.whole_step (state : use.Owned start blocks) {call : HeapCall}
    (step : BlockStep use call blocks blocks' use') (state' : use'.Owned start blocks')
    (whole : Whole use start blocks) : Whole use' start blocks' ↔ FreesFirst use call := by
  cases step with
  | same live stores null =>
    have kept : Whole use' start blocks := fun none => whole (live.symm.trans none)
    refine ⟨fun _ => ?_, fun _ => kept⟩
    cases call with
    | kfree ptr =>
      intro only
      obtain rfl := null ptr rfl
      obtain ⟨range, present, zero⟩ := List.mem_map.mp (only ▸ List.mem_singleton_self 0 : 0 ∈ use.live.map Prod.fst)
      obtain ⟨block, _, _, starts, _⟩ := state.owned range present
      rw [starts, sizeofBlock] at zero
      omega
    | kmalloc size => trivial
    | fill ptr size => trivial
  | taken fits within => exact ⟨fun _ => trivial, fun _ none => absurd none (List.cons_ne_nil _ _)⟩
  | @freed mem before after width block used within =>
    have live := state.recorded block (by simp) used
    rw [FreesFirst, Whole, freed_last state live, state.place]
    refine forall_congr' fun only => ⟨fun shape => ?_, fun first => ?_⟩
    · have member : (⟨block.addr, width, false⟩ : HeapBlock) ∈ [⟨start, heapSize - sizeofBlock, false⟩] := by
        rw [← shape]
        simp
      have place : block.addr = start := congrArg HeapBlock.addr (List.mem_singleton.mp member)
      rw [place]
    · obtain rfl : block.addr = start := Nat.add_right_cancel first
      obtain ⟨earlier, later⟩ := state.heap.tiles.around
      have none : before = [] := by
        refine List.eq_nil_iff_forall_not_mem.mpr fun other there => ?_
        have ends : other.addr + sizeofBlock + other.size ≤ block.addr := earlier other there
        have starts := (state.heap.bounds (by simp [there] : other ∈ before ++ block :: after)).1
        rw [sizeofBlock] at ends
        omega
      have free : after.dropWhile (fun next => !next.used) = [] := by
        refine List.dropWhile_eq_nil_iff.mpr fun other there => ?_
        by_contra kept
        have recorded := state.recorded other (by simp [there]) (by simpa using kept)
        have same := List.mem_singleton.mp (only ▸ recorded)
        have starts : block.addr + sizeofBlock + block.size ≤ other.addr := later other there
        rw [sizeofBlock] at same starts
        omega
      have tiles := state'.heap.tiles
      rw [none, free] at tiles ⊢
      have total := (HeapBlock.tiles_singleton _).mp tiles
      simp only [HeapBlock.limit] at total
      rw [List.nil_append, (by omega : width = heapSize - sizeofBlock)]

/-- Freeing gives all of the heap back in every run that frees the first block last,
and in no other one: the first call that does not breaks it. -/
theorem heap_reclaimed (positive : 0 < pmmBitmapEnd) (fits : pmmBitmapEnd + heapSize < 18446744073709551616)
    (enough : heapSize / sizeofBlock < fuel)
    (run : Run (HeapStep fuel) FreesFirst (initialHeap pmmBitmapEnd mem) calls use) :
    Reclaimed fuel use ∧
      ∀ call use', HeapStep fuel use call use' → (Reclaimed fuel use' ↔ FreesFirst use call) := by
  have state : ∃ blocks, use.Owned pmmBitmapEnd blocks ∧ Whole use pmmBitmapEnd blocks := by
    refine run.invariant (fun use => ∃ blocks, HeapUse.Owned use pmmBitmapEnd blocks ∧
      Whole use pmmBitmapEnd blocks) ?_ ⟨_, initialHeap_owned positive fits mem, fun _ => rfl⟩
    rintro use call use' ⟨blocks, state, whole⟩ first step
    obtain ⟨blocks', change, state'⟩ := state.step enough step
    exact ⟨blocks', state', (state.whole_step change state' whole).mpr first⟩
  obtain ⟨blocks, state, whole⟩ := state
  refine ⟨(state.reclaimed_iff enough).mpr whole, fun call use' step => ?_⟩
  obtain ⟨blocks', change, state'⟩ := state.step enough step
  rw [state'.reclaimed_iff enough]
  exact state.whole_step change state' whole

theorem smallHeap_reversed : ∃ first second third fourth, kmalloc 32769 64 smallHeap.heap = some (0x200020, first) ∧
    third.heapStart = 0x200000 ∧ HeapStep 32769 smallHeap (.kmalloc 64) ⟨first, [(0x200020, 64)]⟩ ∧
    HeapStep 32769 ⟨first, [(0x200020, 64)]⟩ (.kmalloc 1000) ⟨second, [(0x200080, 1000), (0x200020, 64)]⟩ ∧
    HeapStep 32769 ⟨second, [(0x200080, 1000), (0x200020, 64)]⟩ (.kfree 0x200080) ⟨third, [(0x200020, 64)]⟩ ∧
    HeapStep 32769 ⟨third, [(0x200020, 64)]⟩ (.kfree 0x200020) ⟨fourth, []⟩ := by
  have trace : ((kmalloc 32769 64 smallHeap.heap).bind fun (left, first) =>
      (kmalloc 32769 1000 first).bind fun (right, second) =>
        (kfree 32769 right second).bind fun third =>
          (kfree 32769 left third).map fun _ => (left, right, third.heapStart)) =
      some (0x200020, 0x200080, 0x200000) := by
    decide +kernel
  obtain ⟨⟨left, first⟩, firstRun, trace⟩ := Option.bind_eq_some_iff.mp trace
  obtain ⟨⟨right, second⟩, secondRun, trace⟩ := Option.bind_eq_some_iff.mp trace
  obtain ⟨third, thirdRun, trace⟩ := Option.bind_eq_some_iff.mp trace
  obtain ⟨fourth, fourthRun, same⟩ := Option.map_eq_some_iff.mp trace
  obtain ⟨rfl, rfl, place⟩ : left = 0x200020 ∧ right = 0x200080 ∧ third.heapStart = 0x200000 := by
    simpa using same
  exact ⟨first, second, third, fourth, firstRun, place, .alloc firstRun (by decide), .alloc secondRun (by decide),
    .kfree (.inr (by simp)) thirdRun, .kfree (.inr (by simp)) fourthRun⟩

theorem heap_reclaimed_smallHeap : ∃ use, Run (HeapStep 32769) FreesFirst smallHeap
      [.kmalloc 64, .kmalloc 1000, .kfree 0x200080, .kfree 0x200020] use ∧
    use.live = [] ∧ Reclaimed 32769 use := by
  obtain ⟨first, second, third, fourth, _, place, step₁, step₂, step₃, step₄⟩ := smallHeap_reversed
  have other : FreesFirst ⟨second, [(0x200080, 1000), (0x200020, 64)]⟩ (.kfree 0x200080) := by
    simp [FreesFirst]
  have lowest : FreesFirst ⟨third, [(0x200020, 64)]⟩ (.kfree 0x200020) := by
    simp [FreesFirst, place, sizeofBlock]
  have run : Run (HeapStep 32769) FreesFirst smallHeap
      [.kmalloc 64, .kmalloc 1000, .kfree 0x200080, .kfree 0x200020] ⟨fourth, []⟩ :=
    .next trivial step₁ <| .next trivial step₂ <| .next other step₃ <| .next lowest step₄ .done
  exact ⟨_, run, rfl, (heap_reclaimed (by decide) (by decide) (by decide) run).1⟩

/-- Two blocks freed in the order of their addresses stay apart, and the heap is
never whole again. -/
theorem heap_not_reclaimed : ¬ ∀ (pmmBitmapEnd fuel : Nat) (mem : Memory) (calls : List HeapCall) (use : HeapUse),
    0 < pmmBitmapEnd → pmmBitmapEnd + heapSize < 18446744073709551616 → heapSize / sizeofBlock < fuel →
    Run (HeapStep fuel) (fun _ _ => True) (initialHeap pmmBitmapEnd mem) calls use → Reclaimed fuel use := by
  intro reclaimed
  have trace : ((kmalloc 32769 64 smallHeap.heap).bind fun (left, first) =>
      (kmalloc 32769 64 first).bind fun (right, second) =>
        (kfree 32769 left second).bind fun third =>
          (kfree 32769 right third).bind fun fourth =>
            (kmalloc 32769 0xFFFE0 fourth).map fun (ptr, _) => (left, right, ptr)) =
      some (0x200020, 0x200080, 0) := by
    decide +kernel
  obtain ⟨⟨left, first⟩, firstRun, trace⟩ := Option.bind_eq_some_iff.mp trace
  obtain ⟨⟨right, second⟩, secondRun, trace⟩ := Option.bind_eq_some_iff.mp trace
  obtain ⟨third, thirdRun, trace⟩ := Option.bind_eq_some_iff.mp trace
  obtain ⟨fourth, fourthRun, trace⟩ := Option.bind_eq_some_iff.mp trace
  obtain ⟨⟨ptr, last⟩, lastRun, same⟩ := Option.map_eq_some_iff.mp trace
  cases same
  have step₁ : HeapStep 32769 smallHeap (.kmalloc 64) ⟨first, [(0x200020, 64)]⟩ :=
    .alloc firstRun (by decide)
  have step₂ : HeapStep 32769 ⟨first, [(0x200020, 64)]⟩ (.kmalloc 64)
      ⟨second, [(0x200080, 64), (0x200020, 64)]⟩ := .alloc secondRun (by decide)
  have step₃ : HeapStep 32769 ⟨second, [(0x200080, 64), (0x200020, 64)]⟩ (.kfree 0x200020)
      ⟨third, [(0x200080, 64)]⟩ := .kfree (.inr (by simp)) thirdRun
  have step₄ : HeapStep 32769 ⟨third, [(0x200080, 64)]⟩ (.kfree 0x200080) ⟨fourth, []⟩ :=
    .kfree (.inr (by simp)) fourthRun
  have run := (Run.next trivial step₁ <| .next trivial step₂ <| .next trivial step₃ <|
    .next trivial step₄ .done : Run (HeapStep 32769) (fun _ _ => True) smallHeap _ _)
  obtain ⟨ptr, heap, returned, nonzero⟩ :=
    reclaimed 0x200000 32769 ⟨fun _ => 0, []⟩ _ _ (by decide) (by decide) (by decide) run rfl 0xFFFE0 (by decide)
  cases lastRun.symm.trans returned
  exact nonzero rfl

end Runs

end LivlyOS.Mm
