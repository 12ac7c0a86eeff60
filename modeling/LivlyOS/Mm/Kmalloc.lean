import LivlyOS.Lib.Loop
import LivlyOS.Lib.Tiling
import LivlyOS.Mm.Pmm

/-! The kernel heap: block headers in memory behind the page bitmap, a first-fit
search that splits, and a release that merges with the blocks behind. -/

namespace LivlyOS.Mm

open LivlyOS.Lib

/-- Memory together with the stores made to it, each as address and width. -/
structure Memory where
  bytes : Bytes
  stores : List (Nat × Nat)

def Memory.store (mem : Memory) (addr width value : Nat) : Memory :=
  ⟨putWord mem.bytes addr width value, (addr, width) :: mem.stores⟩

/-- `sizeof(Block)`. -/
def sizeofBlock : Nat := 32

def Memory.size (mem : Memory) (block : Nat) : Nat := word mem.bytes block 8

def Memory.used (mem : Memory) (block : Nat) : Nat := word mem.bytes (block + 8) 4

def Memory.next (mem : Memory) (block : Nat) : Nat := word mem.bytes (block + 16) 8

def Memory.setSize (mem : Memory) (block value : Nat) : Memory := mem.store block 8 value

def Memory.setUsed (mem : Memory) (block value : Nat) : Memory := mem.store (block + 8) 4 value

def Memory.setNext (mem : Memory) (block value : Nat) : Memory := mem.store (block + 16) 8 value

structure HeapState where
  heapStart : Nat
  mem : Memory

def kmallocInit (pmmBitmapEnd : Nat) (mem : Memory) : HeapState where
  heapStart := pmmBitmapEnd
  mem := ((mem.setSize pmmBitmapEnd (heapSize - sizeofBlock)).setUsed pmmBitmapEnd 0).setNext
    pmmBitmapEnd 0

/-- `current + 1`, the address behind a header. -/
def behindHeader (block : Nat) : Nat := u64 (block + sizeofBlock)

/-- The branch of `kmalloc` that cuts a free block in two. -/
def splitBlock (size current : Nat) (mem : Memory) : Memory :=
  let neu := u64 (behindHeader current + size)
  let mem := mem.setSize neu (sub64 (sub64 (mem.size current) size) sizeofBlock)
  let mem := mem.setUsed neu 0
  let mem := mem.setNext neu (mem.next current)
  let mem := mem.setSize current size
  mem.setNext current neu

/-- What `kmalloc` does with the first block that is large enough. -/
def takeBlock (size current : Nat) (mem : Memory) : Nat × Memory :=
  let mem := if u64 (size + sizeofBlock) < mem.size current then splitBlock size current mem else mem
  (behindHeader current, mem.setUsed current 1)

/-- One turn of the search of `kmalloc`. -/
def searchTurn (size : Nat) (mem : Memory) (current : Nat) : Turn Nat (Nat × Memory) :=
  if current = 0 then .leave (0, mem)
  else if mem.used current = 0 ∧ size ≤ mem.size current then .leave (takeBlock size current mem)
  else .again (mem.next current)

def kmalloc (fuel : Nat) (size : UInt64) (st : HeapState) : Option (Nat × HeapState) :=
  if st.heapStart = 0 then some (0, st)
  else (loop (searchTurn size.toNat st.mem) fuel st.heapStart).map fun (ptr, mem) => (ptr, { st with mem })

/-- One turn of `merge_blocks`. -/
def mergeTurn (block : Nat) (mem : Memory) : Turn Memory Memory :=
  if mem.next block ≠ 0 ∧ mem.used (mem.next block) = 0 then
    let mem := mem.setSize block (u64 (mem.size block + u64 (sizeofBlock + mem.size (mem.next block))))
    .again (mem.setNext block (mem.next (mem.next block)))
  else .leave mem

def mergeBlocks (fuel block : Nat) (mem : Memory) : Option Memory := loop (mergeTurn block) fuel mem

def kfree (fuel ptr : Nat) (st : HeapState) : Option HeapState :=
  if ptr = 0 then some st
  else
    let block := sub64 ptr sizeofBlock
    (mergeBlocks fuel block (st.mem.setUsed block 0)).map fun mem => { st with mem }

/-- A block of the heap as its header describes it. -/
structure HeapBlock where
  addr : Nat
  size : Nat
  used : Bool
deriving DecidableEq

def HeapBlock.limit (block : HeapBlock) : Nat := block.addr + sizeofBlock + block.size

/-- The header of a block of the heap that ends at `stop`. -/
structure Held (mem : Memory) (stop : Nat) (block : HeapBlock) : Prop where
  size : mem.size block.addr = block.size
  used : mem.used block.addr = block.used.toNat
  next : mem.next block.addr = if block.limit = stop then 0 else block.limit

theorem Held.congr (held : Held mem stop block)
    (same : ∀ addr, block.addr ≤ addr → addr < block.addr + sizeofBlock → mem'.bytes addr = mem.bytes addr) :
    Held mem' stop block := by
  rw [sizeofBlock] at same
  obtain ⟨size, used, next⟩ := held
  refine ⟨size ▸ word_congr ?_, used ▸ word_congr ?_, next ▸ word_congr ?_⟩ <;>
    exact fun addr above below => same addr (by omega) (by omega)

/-- All stores from one memory to a later one stay in a region. -/
structure Within (region : Nat → Prop) (mem mem' : Memory) : Prop where
  stores : ∃ more, mem'.stores = more ++ mem.stores ∧
    ∀ store ∈ more, ∀ offset < store.2, region (store.1 + offset)
  frame : ∀ addr, ¬ region addr → mem'.bytes addr = mem.bytes addr

namespace Within

theorem refl : Within region mem mem :=
  ⟨⟨[], rfl, fun _ none => absurd none List.not_mem_nil⟩, fun _ _ => rfl⟩

theorem store (within : Within region mem mid) (inside : ∀ offset < width, region (addr + offset)) :
    Within region mem (mid.store addr width value) := by
  obtain ⟨⟨more, same, covered⟩, frame⟩ := within
  refine ⟨⟨(addr, width) :: more, by rw [Memory.store, same, List.cons_append], ?_⟩, ?_⟩
  · intro store member
    rcases List.mem_cons.mp member with rfl | member
    · exact inside
    · exact covered store member
  · intro place outside
    rw [← frame place outside]
    apply putWord_outside
    by_contra touched
    apply outside
    obtain ⟨offset, rfl⟩ : ∃ offset, place = addr + offset := ⟨place - addr, by omega⟩
    exact inside offset (by omega)

theorem trans (first : Within region mem mid) (second : Within region mid mem') :
    Within region mem mem' := by
  obtain ⟨⟨more, same, covered⟩, frame⟩ := first
  obtain ⟨⟨more', same', covered'⟩, frame'⟩ := second
  refine ⟨⟨more' ++ more, by rw [same', same, List.append_assoc], ?_⟩, ?_⟩
  · intro store member
    rcases List.mem_append.mp member with member | member
    · exact covered' store member
    · exact covered store member
  · exact fun addr outside => (frame' addr outside).trans (frame addr outside)

theorem mono (within : Within region mem mem') (wider : ∀ addr, region addr → region' addr) :
    Within region' mem mem' := by
  obtain ⟨⟨more, same, covered⟩, frame⟩ := within
  exact ⟨⟨more, same, fun store member offset low => wider _ (covered store member offset low)⟩,
    fun addr outside => frame addr (fun inside => outside (wider addr inside))⟩

end Within

/-- The bytes of a header. -/
def InHeader (block addr : Nat) : Prop := block ≤ addr ∧ addr < block + sizeofBlock

theorem Within.setSize (within : Within region mem mid) (header : ∀ addr, InHeader block addr → region addr) :
    Within region mem (mid.setSize block value) :=
  within.store fun offset low => header _ ⟨by omega, by rw [sizeofBlock]; omega⟩

theorem Within.setUsed (within : Within region mem mid) (header : ∀ addr, InHeader block addr → region addr) :
    Within region mem (mid.setUsed block value) :=
  within.store fun offset low => header _ ⟨by omega, by rw [sizeofBlock]; omega⟩

theorem Within.setNext (within : Within region mem mid) (header : ∀ addr, InHeader block addr → region addr) :
    Within region mem (mid.setNext block value) :=
  within.store fun offset low => header _ ⟨by omega, by rw [sizeofBlock]; omega⟩

section Fields

variable {mem : Memory} {block other value : Nat}

@[simp] theorem Memory.size_setSize (small : value < 18446744073709551616) :
    (mem.setSize block value).size block = value :=
  (word_putWord_same mem.bytes block 8 value).trans (Nat.mod_eq_of_lt small)

@[simp] theorem Memory.next_setNext (small : value < 18446744073709551616) :
    (mem.setNext block value).next block = value :=
  (word_putWord_same mem.bytes (block + 16) 8 value).trans (Nat.mod_eq_of_lt small)

@[simp] theorem Memory.used_setUsed (small : value < 4294967296) :
    (mem.setUsed block value).used block = value :=
  (word_putWord_same mem.bytes (block + 8) 4 value).trans (Nat.mod_eq_of_lt small)

@[simp] theorem Memory.size_setUsed : (mem.setUsed block value).size block = mem.size block :=
  word_putWord_other mem.bytes value (.inl (by omega))

@[simp] theorem Memory.size_setNext : (mem.setNext block value).size block = mem.size block :=
  word_putWord_other mem.bytes value (.inl (by omega))

@[simp] theorem Memory.used_setSize : (mem.setSize block value).used block = mem.used block :=
  word_putWord_other mem.bytes value (.inr (by omega))

@[simp] theorem Memory.used_setNext : (mem.setNext block value).used block = mem.used block :=
  word_putWord_other mem.bytes value (.inl (by omega))

@[simp] theorem Memory.next_setSize : (mem.setSize block value).next block = mem.next block :=
  word_putWord_other mem.bytes value (.inr (by omega))

@[simp] theorem Memory.next_setUsed : (mem.setUsed block value).next block = mem.next block :=
  word_putWord_other mem.bytes value (.inr (by omega))

/-- A header that a run of stores does not touch keeps its fields. -/
theorem Within.fields (within : Within region mem mem')
    (apart : ∀ addr, InHeader block addr → ¬ region addr) :
    mem'.size block = mem.size block ∧ mem'.used block = mem.used block ∧
      mem'.next block = mem.next block := by
  refine ⟨word_congr ?_, word_congr ?_, word_congr ?_⟩ <;>
    exact fun addr above below =>
      within.frame addr (apart addr ⟨by omega, by rw [sizeofBlock]; omega⟩)

end Fields

theorem Within.held (within : Within region mem mem') (held : Held mem stop block)
    (apart : ∀ addr, InHeader block.addr addr → ¬ region addr) : Held mem' stop block := by
  obtain ⟨size, used, next⟩ := within.fields apart
  exact ⟨size.trans held.size, used.trans held.used, next.trans held.next⟩

/-- A heap from `start` to `stop`: its blocks lie one behind the other and their
headers say so. -/
structure Heap (mem : Memory) (start stop : Nat) (blocks : List HeapBlock) : Prop where
  positive : 0 < start
  room : start < stop
  small : stop < 18446744073709551616
  tiles : Tiles HeapBlock.addr HeapBlock.limit start blocks stop
  held : ∀ block ∈ blocks, Held mem stop block

theorem HeapBlock.tiles_singleton (block : HeapBlock) :
    Tiles HeapBlock.addr HeapBlock.limit low [block] high ↔ low = block.addr ∧ high = block.limit := by
  constructor
  · intro tiles
    cases tiles with
    | cons start ordered rest =>
      cases rest
      exact ⟨start.symm, rfl⟩
  · rintro ⟨rfl, rfl⟩
    exact .cons rfl (by rw [HeapBlock.limit]; omega) .nil

namespace Heap

theorem bounds (heap : Heap mem start stop blocks) (member : block ∈ blocks) :
    start ≤ block.addr ∧ block.addr + sizeofBlock + block.size ≤ stop := by
  obtain ⟨low, _, high⟩ := heap.tiles.inside member
  exact ⟨low, high⟩

theorem cons (heap : Heap mem start stop blocks) : ∃ block rest, blocks = block :: rest ∧ block.addr = start := by
  obtain ⟨_, room, _, tiles, _⟩ := heap
  cases tiles with
  | nil => exact absurd room (Nat.lt_irrefl _)
  | cons starts ordered rest => exact ⟨_, _, rfl, starts⟩

theorem edit (heap : Heap mem start stop (before ++ (old ++ after))) (within : Within region mem mem')
    (inside : ∀ low high, Tiles HeapBlock.addr HeapBlock.limit low old high →
      (∀ addr, region addr → low ≤ addr ∧ addr < high) ∧ Tiles HeapBlock.addr HeapBlock.limit low new high)
    (held : ∀ block ∈ new, Held mem' stop block) : Heap mem' start stop (before ++ (new ++ after)) := by
  obtain ⟨positive, room, small, tiles, before'⟩ := heap
  refine ⟨positive, room, small, tiles.exchange fun low high inner => (inside low high inner).2, ?_⟩
  obtain ⟨low, left, right⟩ := tiles.split
  obtain ⟨high, inner, right⟩ := right.split
  obtain ⟨touched, _⟩ := inside low high inner
  intro block member
  rcases List.mem_append.mp member with member | member
  · refine within.held (before' block (by simp [member])) fun addr header region => ?_
    have ends : block.addr + sizeofBlock + block.size ≤ low := (left.inside member).2.2
    have above := (touched addr region).1
    have below := header.2
    omega
  · rcases List.mem_append.mp member with member | member
    · exact held block member
    · refine within.held (before' block (by simp [member])) fun addr header region => ?_
      have starts := (right.inside member).1
      have below := (touched addr region).2
      have above := header.1
      omega

theorem editBlock (heap : Heap mem start stop (before ++ block :: after)) (within : Within region mem mem')
    (inside : ∀ addr, region addr → block.addr ≤ addr ∧ addr < block.limit)
    (tiles : Tiles HeapBlock.addr HeapBlock.limit block.addr new block.limit)
    (held : ∀ part ∈ new, Held mem' stop part) : Heap mem' start stop (before ++ (new ++ after)) := by
  have cut : Heap mem start stop (before ++ ([block] ++ after)) := heap
  refine cut.edit within (fun low high only => ?_) held
  obtain ⟨rfl, rfl⟩ := block.tiles_singleton.mp only
  exact ⟨inside, tiles⟩

/-- The first address of the rest of a heap, 0 behind the last block. -/
def firstAddr : List HeapBlock → Nat
  | [] => 0
  | block :: _ => block.addr

theorem next (heap : Heap mem start stop (before ++ block :: after)) :
    mem.next block.addr = firstAddr after := by
  rw [(heap.held block (by simp)).next]
  obtain ⟨middle, left, right⟩ := heap.tiles.split
  cases right with
  | cons place ordered rest =>
    cases rest with
    | nil => rw [if_pos rfl, firstAddr]
    | cons starts ordered' rest' =>
      have behind := rest'.le
      rw [firstAddr, starts, if_neg]
      rw [← starts]
      intro same
      rename_i tile tiles
      have wide : tile.addr + sizeofBlock ≤ tile.limit := by
        rw [HeapBlock.limit]
        omega
      rw [sizeofBlock] at wide
      omega

end Heap

/-- The blocks `kmalloc` may take for a request. -/
def HeapBlock.fits (size : Nat) (block : HeapBlock) : Bool := !block.used && decide (size ≤ block.size)

theorem HeapBlock.fits_iff {size : Nat} (block : HeapBlock) :
    block.fits size = true ↔ block.used = false ∧ size ≤ block.size := by
  simp [HeapBlock.fits]

/-- What becomes of a free block that `kmalloc` takes. -/
def HeapBlock.taken (size : Nat) (block : HeapBlock) : List HeapBlock :=
  if size + sizeofBlock < block.size then
    [⟨block.addr, size, true⟩,
      ⟨block.addr + sizeofBlock + size, block.size - size - sizeofBlock, false⟩]
  else [⟨block.addr, block.size, true⟩]

/-- The bytes that `kmalloc` writes when it takes a block. -/
def HeapBlock.Written (size : Nat) (block : HeapBlock) (addr : Nat) : Prop :=
  InHeader block.addr addr ∨
    (size + sizeofBlock < block.size ∧ InHeader (block.addr + sizeofBlock + size) addr)

theorem HeapBlock.taken_tiles (size : Nat) (block : HeapBlock) :
    Tiles HeapBlock.addr HeapBlock.limit block.addr (block.taken size) block.limit := by
  rw [HeapBlock.taken]
  split
  · rename_i larger
    refine .cons rfl ?_ ((HeapBlock.tiles_singleton _).mpr ⟨rfl, ?_⟩)
    · simp only [HeapBlock.limit]
      omega
    · simp only [HeapBlock.limit]
      omega
  · exact (HeapBlock.tiles_singleton _).mpr ⟨rfl, rfl⟩

theorem HeapBlock.Written.inside {size addr : Nat} {block : HeapBlock} (written : block.Written size addr) :
    block.addr ≤ addr ∧ addr < block.limit := by
  rw [HeapBlock.limit]
  rcases written with ⟨low, high⟩ | ⟨larger, low, high⟩ <;> omega

/-- The two headers that a split writes, for a place behind the first one. -/
theorem splitBlock_spec (place : u64 (behindHeader current + size) = neu) (apart : current + sizeofBlock ≤ neu)
    (smallSize : size < 18446744073709551616) (smallNeu : neu < 18446744073709551616) :
    let mem' := (splitBlock size current mem).setUsed current 1
    Within (fun addr => InHeader current addr ∨ InHeader neu addr) mem mem' ∧
      (mem'.size current = size ∧ mem'.used current = 1 ∧ mem'.next current = neu) ∧
      mem'.size neu = sub64 (sub64 (mem.size current) size) sizeofBlock ∧ mem'.used neu = 0 ∧
      mem'.next neu = mem.next current := by
  rw [splitBlock, place]
  dsimp only
  have behind : ∀ addr, InHeader neu addr → ¬ InHeader current addr := by
    intro addr there here
    have low := there.1
    have high := here.2
    omega
  have before : ∀ addr, InHeader current addr → ¬ InHeader neu addr := fun addr here there => behind addr there here
  generalize rest : sub64 (sub64 (mem.size current) size) sizeofBlock = value
  have smallRest : value < 18446744073709551616 := rest ▸ u64_lt _
  have upper : Within (InHeader neu) mem ((mem.setSize neu value).setUsed neu 0) :=
    Within.setUsed (.setSize .refl fun addr => id) fun addr => id
  obtain ⟨_, _, link⟩ := upper.fields before
  rw [link]
  have smallLink : mem.next current < 18446744073709551616 := word_lt mem.bytes (current + 16) 8
  have upper : Within (InHeader neu) mem (((mem.setSize neu value).setUsed neu 0).setNext neu (mem.next current)) :=
    .setNext upper fun addr => id
  generalize written : ((mem.setSize neu value).setUsed neu 0).setNext neu (mem.next current) = mid at upper ⊢
  have lower : Within (InHeader current) mid (((mid.setSize current size).setNext current neu).setUsed current 1) :=
    Within.setUsed (.setNext (.setSize .refl fun addr => id) fun addr => id) fun addr => id
  obtain ⟨size', used', next'⟩ := lower.fields behind
  refine ⟨(upper.mono fun addr => .inr).trans (lower.mono fun addr => .inl), ⟨?_, ?_, ?_⟩, ?_, ?_, ?_⟩
  · simp [smallSize]
  · simp
  · simp [smallNeu]
  · rw [size', ← written]
    simp [smallRest]
  · rw [used', ← written]
    simp
  · rw [next', ← written]
    simp [smallLink]

theorem takeBlock_spec (heap : Heap mem start stop (before ++ block :: after))
    (enough : size ≤ block.size) :
    (takeBlock size block.addr mem).1 = block.addr + sizeofBlock ∧
      Heap (takeBlock size block.addr mem).2 start stop (before ++ (block.taken size ++ after)) ∧
      Within (block.Written size) mem (takeBlock size block.addr mem).2 := by
  have held := heap.held block (by simp)
  obtain ⟨_, bound⟩ := heap.bounds (List.mem_append_right _ List.mem_cons_self)
  have small := heap.small
  have ptr : behindHeader block.addr = block.addr + sizeofBlock :=
    u64_of_lt (by omega)
  have header : ∀ addr, InHeader block.addr addr → block.Written size addr := fun addr inside => .inl inside
  have sum : u64 (size + sizeofBlock) = size + sizeofBlock := u64_of_lt (by rw [sizeofBlock] at bound ⊢; omega)
  refine ⟨ptr, ?_⟩
  suffices within : Within (block.Written size) mem (takeBlock size block.addr mem).2 ∧
      ∀ part ∈ block.taken size, Held (takeBlock size block.addr mem).2 stop part from
    ⟨heap.editBlock within.1 (fun addr written => written.inside) (block.taken_tiles size) within.2, within.1⟩
  rw [takeBlock, HeapBlock.taken, held.size, sum]
  split
  · rename_i larger
    have width : sizeofBlock = 32 := rfl
    have place : u64 (behindHeader block.addr + size) = block.addr + sizeofBlock + size := by
      rw [ptr]
      exact u64_of_lt (by omega)
    obtain ⟨within, ⟨size', used', next'⟩, restSize, restUsed, restNext⟩ :=
      @splitBlock_spec _ _ _ mem place (by omega) (by omega) (by omega)
    refine ⟨within.mono fun addr inside => inside.imp id fun there => ⟨larger, there⟩, fun part member => ?_⟩
    rcases List.mem_cons.mp member with rfl | member
    · have notLast : block.addr + sizeofBlock + size ≠ stop := by omega
      exact ⟨size', used', next'.trans (if_neg notLast).symm⟩
    · obtain rfl := List.mem_singleton.mp member
      have inner : sub64 block.size size = block.size - size := sub64_of_le (by omega) (by omega)
      have outer : sub64 (block.size - size) sizeofBlock = block.size - size - sizeofBlock :=
        sub64_of_le (by omega) (by omega)
      have same : HeapBlock.limit ⟨block.addr + sizeofBlock + size, block.size - size - sizeofBlock, false⟩ =
          block.limit := by
        simp only [HeapBlock.limit]
        omega
      refine ⟨?_, restUsed, ?_⟩
      · rw [restSize, held.size, inner, outer]
      · rw [restNext, held.next, same]
  · refine ⟨.setUsed .refl header, fun part only => ?_⟩
    obtain rfl := List.mem_singleton.mp only
    exact ⟨Memory.size_setUsed.trans held.size, Memory.used_setUsed (by decide),
      Memory.next_setUsed.trans held.next⟩

theorem search_spec (heap : Heap mem start stop (before ++ rest)) (enough : rest.length < fuel) :
    loop (searchTurn size mem) fuel (Heap.firstAddr rest) =
      some (match rest.find? (HeapBlock.fits size) with
        | none => (0, mem)
        | some block => takeBlock size block.addr mem) := by
  induction rest generalizing before fuel with
  | nil =>
    obtain ⟨fuel, rfl⟩ : ∃ more, fuel = more + 1 := ⟨fuel - 1, by omega⟩
    rw [List.find?_nil]
    apply loop_leave
    rw [Heap.firstAddr, searchTurn, if_pos rfl]
  | cons block rest ih =>
    rw [List.length_cons] at enough
    obtain ⟨fuel, rfl⟩ : ∃ more, fuel = more + 1 := ⟨fuel - 1, by omega⟩
    have held := heap.held block (by simp)
    have nonzero : block.addr ≠ 0 := by
      have positive := heap.positive
      have low := (heap.bounds (List.mem_append_right _ List.mem_cons_self)).1
      omega
    have guard : (mem.used block.addr = 0 ∧ size ≤ mem.size block.addr) ↔ block.fits size = true := by
      rw [held.used, held.size, HeapBlock.fits_iff]
      cases block.used <;> simp
    by_cases fits : block.fits size = true
    · rw [List.find?_cons_of_pos fits]
      apply loop_leave
      rw [Heap.firstAddr, searchTurn, if_neg nonzero, if_pos (guard.mpr fits)]
    · rw [List.find?_cons_of_neg fits]
      have turn : searchTurn size mem block.addr = .again (Heap.firstAddr rest) := by
        rw [searchTurn, if_neg nonzero, if_neg (fun both => fits (guard.mp both)), heap.next]
      have shifted : Heap mem start stop (before ++ [block] ++ rest) := by simpa using heap
      rw [Heap.firstAddr, loop_again turn]
      exact ih shifted (by omega)

/-- One turn of the merge takes in a free neighbour. -/
theorem mergeTurn_again (heap : Heap mem start stop (before ++ block :: neighbour :: after))
    (free : neighbour.used = false) :
    ∃ mem', mergeTurn block.addr mem = .again mem' ∧ Within (InHeader block.addr) mem mem' ∧
      Heap mem' start stop
        (before ++ { block with size := block.size + (sizeofBlock + neighbour.size) } :: after) := by
  have here := heap.held block (by simp)
  have there := heap.held neighbour (by simp)
  have next := heap.next
  obtain ⟨earlier, later⟩ := heap.tiles.around
  have behind : block.addr + sizeofBlock + block.size ≤ neighbour.addr := later neighbour List.mem_cons_self
  have bound : neighbour.addr + sizeofBlock + neighbour.size ≤ stop := (heap.bounds (by simp)).2
  have small := heap.small
  have width : sizeofBlock = 32 := rfl
  rw [Heap.firstAddr] at next
  have sum : u64 (block.size + u64 (sizeofBlock + neighbour.size)) =
      block.size + (sizeofBlock + neighbour.size) := by
    have inner : u64 (sizeofBlock + neighbour.size) = sizeofBlock + neighbour.size := u64_of_lt (by omega)
    rw [inner, u64_of_lt (by omega)]
  have grown : Within (InHeader block.addr) mem
      (mem.setSize block.addr (block.size + (sizeofBlock + neighbour.size))) := .setSize .refl fun addr => id
  have apart : ∀ addr, InHeader neighbour.addr addr → ¬ InHeader block.addr addr := by
    intro addr inside touched
    have low := inside.1
    have high := touched.2
    omega
  have link := (grown.fields apart).2.2
  refine ⟨(mem.setSize block.addr (block.size + (sizeofBlock + neighbour.size))).setNext block.addr
    (mem.next neighbour.addr), ?_, .setNext grown fun addr => id, ?_⟩
  · have guard : mem.next block.addr ≠ 0 ∧ mem.used (mem.next block.addr) = 0 := by
      rw [next, there.used, free]
      exact ⟨by omega, rfl⟩
    rw [mergeTurn, if_pos guard]
    simp only [next, Memory.next_setSize, here.size, there.size, sum, link]
  · have cut : Heap mem start stop (before ++ ([block, neighbour] ++ after)) := heap
    have range : ∀ low high, Tiles HeapBlock.addr HeapBlock.limit low [block, neighbour] high →
        low = block.addr ∧ block.limit = neighbour.addr ∧ high = neighbour.limit := by
      intro low high both
      obtain ⟨middle, first, second⟩ := @Tiles.split _ _ _ _ [block] [neighbour] _ both
      obtain ⟨starts, ends⟩ := block.tiles_singleton.mp first
      obtain ⟨starts', ends'⟩ := neighbour.tiles_singleton.mp second
      exact ⟨starts, ends.symm.trans starts', ends'⟩
    have joined : HeapBlock.limit { block with size := block.size + (sizeofBlock + neighbour.size) } =
        neighbour.limit := by
      obtain ⟨_, _, right⟩ := heap.tiles.split
      obtain ⟨_, inner, _⟩ := @Tiles.split _ _ _ _ [block, neighbour] after _ right
      have meets := (range _ _ inner).2.1
      simp only [HeapBlock.limit] at meets ⊢
      omega
    change Heap _ start stop (before ++ ([_] ++ after))
    refine cut.edit (.setNext grown fun addr => id) (fun low high both => ?_) fun part only => ?_
    · obtain ⟨rfl, meets, rfl⟩ := range low high both
      refine ⟨fun addr inside => ⟨inside.1, ?_⟩, (HeapBlock.tiles_singleton _).mpr ⟨rfl, joined.symm⟩⟩
      have above := inside.2
      rw [HeapBlock.limit]
      omega
    · obtain rfl := List.mem_singleton.mp only
      have smallLink : mem.next neighbour.addr < 18446744073709551616 := word_lt mem.bytes (neighbour.addr + 16) 8
      refine ⟨Memory.size_setNext.trans (Memory.size_setSize (by omega)),
        Memory.used_setNext.trans (Memory.used_setSize.trans here.used),
        (Memory.next_setNext smallLink).trans ?_⟩
      rw [there.next, joined]

/-- Merging takes in every free block up to the next one in use. -/
theorem mergeBlocks_spec (heap : Heap mem start stop (before ++ block :: after)) (enough : after.length < fuel) :
    ∃ mem' size, mergeBlocks fuel block.addr mem = some mem' ∧
      Heap mem' start stop (before ++ { block with size } :: after.dropWhile fun next => !next.used) ∧
      Within (InHeader block.addr) mem mem' := by
  induction after generalizing block mem fuel with
  | nil =>
    obtain ⟨fuel, rfl⟩ : ∃ more, fuel = more + 1 := ⟨fuel - 1, by omega⟩
    refine ⟨mem, block.size, loop_leave ?_ fuel, heap, .refl⟩
    rw [mergeTurn, heap.next, if_neg]
    exact fun both => both.1 rfl
  | cons neighbour after ih =>
    rw [List.length_cons] at enough
    obtain ⟨fuel, rfl⟩ : ∃ more, fuel = more + 1 := ⟨fuel - 1, by omega⟩
    by_cases used : neighbour.used = true
    · refine ⟨mem, block.size, loop_leave ?_ fuel, ?_, .refl⟩
      · rw [mergeTurn, if_neg]
        rw [heap.next, Heap.firstAddr, (heap.held neighbour (by simp)).used, used]
        simp
      · simpa [used] using heap
    · have free : neighbour.used = false := by simpa using used
      obtain ⟨mid, turn, within, heap'⟩ := mergeTurn_again heap free
      obtain ⟨mem', size, merged, heap'', within'⟩ := ih heap' (by omega : after.length < fuel)
      refine ⟨mem', size, ?_, ?_, within.trans within'⟩
      · rw [mergeBlocks, loop_again turn]
        exact merged
      · simpa [free] using heap''

theorem kmallocInit_spec (positive : 0 < pmmBitmapEnd)
    (fits : pmmBitmapEnd + heapSize < 18446744073709551616) (mem : Memory) :
    Heap (kmallocInit pmmBitmapEnd mem).mem pmmBitmapEnd (pmmBitmapEnd + heapSize)
      [⟨pmmBitmapEnd, heapSize - sizeofBlock, false⟩] := by
  have whole : HeapBlock.limit ⟨pmmBitmapEnd, heapSize - sizeofBlock, false⟩ = pmmBitmapEnd + heapSize := by
    have sum : sizeofBlock + (heapSize - sizeofBlock) = heapSize := by decide
    rw [HeapBlock.limit, Nat.add_assoc, sum]
  have room : pmmBitmapEnd < pmmBitmapEnd + heapSize := Nat.lt_add_of_pos_right (by decide)
  refine ⟨positive, room, fits, (HeapBlock.tiles_singleton _).mpr ⟨rfl, whole.symm⟩, fun block only => ?_⟩
  obtain rfl := List.mem_singleton.mp only
  refine ⟨?_, ?_, ?_⟩
  · exact Memory.size_setNext.trans (Memory.size_setUsed.trans (Memory.size_setSize (by decide)))
  · exact Memory.used_setNext.trans (Memory.used_setUsed (by decide))
  · rw [if_pos whole]
    exact Memory.next_setNext (by decide)

/-- `kmalloc` finds no block and changes nothing, or takes the first one that fits. -/
theorem kmalloc_spec {st : HeapState} (heap : Heap st.mem st.heapStart stop blocks)
    (enough : blocks.length < fuel) (size : UInt64) :
    (kmalloc fuel size st = some (0, st) ∧ ∀ block ∈ blocks, block.fits size.toNat = false) ∨
      ∃ before block after mem', blocks = before ++ block :: after ∧ block.fits size.toNat = true ∧
        kmalloc fuel size st = some (block.addr + sizeofBlock, { st with mem := mem' }) ∧
        Heap mem' st.heapStart stop (before ++ (block.taken size.toNat ++ after)) ∧
        Within (block.Written size.toNat) st.mem mem' := by
  have first : st.heapStart = Heap.firstAddr blocks := by
    obtain ⟨block, rest, rfl, starts⟩ := heap.cons
    exact starts.symm
  have search := @search_spec _ _ _ [] _ _ size.toNat heap enough
  rw [← first] at search
  rw [kmalloc, if_neg (Nat.pos_iff_ne_zero.mp heap.positive), search]
  rcases found : blocks.find? (HeapBlock.fits size.toNat) with _ | block
  · refine .inl ⟨rfl, fun block member => ?_⟩
    simpa using List.find?_eq_none.mp found block member
  · have fits := List.find?_some found
    obtain ⟨before, after, rfl⟩ := List.append_of_mem (List.mem_of_find?_eq_some found)
    obtain ⟨ptr, heap', within⟩ := takeBlock_spec heap ((HeapBlock.fits_iff block).mp fits).2
    refine .inr ⟨before, block, after, _, rfl, fits, ?_, heap', within⟩
    simp only [Option.map_some, ptr]

/-- `kfree` turns a block in use into a free one and merges it with the free ones
behind it. -/
theorem kfree_spec {st : HeapState} (heap : Heap st.mem st.heapStart stop (before ++ block :: after))
    (enough : after.length < fuel) :
    ∃ mem' size, kfree fuel (block.addr + sizeofBlock) st = some { st with mem := mem' } ∧
      Heap mem' st.heapStart stop
        (before ++ ⟨block.addr, size, false⟩ :: after.dropWhile fun next => !next.used) ∧
      Within (InHeader block.addr) st.mem mem' := by
  have bound := (heap.bounds (List.mem_append_right _ List.mem_cons_self)).2
  have small := heap.small
  have width : sizeofBlock = 32 := rfl
  have place : sub64 (block.addr + sizeofBlock) sizeofBlock = block.addr := by
    rw [sub64_of_le (by omega) (by omega)]
    omega
  have marked : Within (InHeader block.addr) st.mem (st.mem.setUsed block.addr 0) := .setUsed .refl fun addr => id
  have held := heap.held block (by simp)
  have heap' : Heap (st.mem.setUsed block.addr 0) st.heapStart stop
      (before ++ { block with used := false } :: after) := by
    change Heap _ _ stop (before ++ ([_] ++ after))
    refine heap.editBlock marked (fun addr inside => ⟨inside.1, ?_⟩)
      ((HeapBlock.tiles_singleton _).mpr ⟨rfl, rfl⟩) fun part only => ?_
    · have above := inside.2
      rw [HeapBlock.limit]
      omega
    · obtain rfl := List.mem_singleton.mp only
      exact ⟨Memory.size_setUsed.trans held.size, Memory.used_setUsed (by decide),
        Memory.next_setUsed.trans held.next⟩
  obtain ⟨mem', size, merged, heap'', within⟩ := mergeBlocks_spec heap' enough
  refine ⟨mem', size, ?_, heap'', marked.trans within⟩
  rw [kfree, if_neg (by omega), place]
  simp only [merged, Option.map_some]

end LivlyOS.Mm
