import LivlyOS.Mm.PageOwnership

namespace LivlyOS.Mm

open LivlyOS.Lib

namespace E820Entry

variable {entry : E820Entry}

/-- The range ends in front of the last page of the address space. -/
def Ends (entry : E820Entry) : Prop := entry.base.toNat + entry.length.toNat + pageSize ≤ 18446744073709551616

/-- The page is part of free memory. -/
def Holds (entry : E820Entry) (page : Nat) : Prop :=
  entry.type = e820Free ∧ entry.base.toNat ≤ page * pageSize ∧
    (page + 1) * pageSize ≤ entry.base.toNat + entry.length.toNat

theorem Ends.limit (ends : entry.Ends) : entry.limit = entry.base.toNat + entry.length.toNat := by
  rw [Ends, pageSize] at ends
  exact u64_of_lt (by omega)

theorem Ends.opens_iff (ends : entry.Ends) : entry.Opens page ↔ entry.Holds page := by
  have limit := ends.limit
  rw [Ends, pageSize] at ends
  rw [Opens, Holds, limit, padPage_of_lt (by omega), pageSize]
  refine and_congr_right fun _ => ?_
  omega

end E820Entry

theorem highestAddr_le (map : List E820Entry) (start : Nat) (low : start ≤ bound)
    (limits : ∀ entry ∈ map, entry.limit ≤ bound) :
    map.foldl (fun highest entry => if highest ≤ entry.limit then entry.limit else highest) start ≤ bound := by
  induction map generalizing start with
  | nil => exact low
  | cons first rest ih =>
    apply ih
    · dsimp only
      split
      · exact limits first List.mem_cons_self
      · exact low
    · exact fun entry member => limits entry (List.mem_cons_of_mem _ member)

theorem opened_iff {map : List E820Entry} (ends : ∀ entry ∈ map, entry.Ends) :
    Opened map page ↔ ∃ entry ∈ map, entry.Holds page := by
  constructor
  · rintro ⟨_, entry, member, opens⟩
    exact ⟨entry, member, (ends entry member).opens_iff.mp opens⟩
  · rintro ⟨entry, member, holds⟩
    refine ⟨?_, entry, member, (ends entry member).opens_iff.mpr holds⟩
    have above : entry.limit ≤ highestAddr map := (highest_spec map 0 (Nat.succ_pos _)).2.2 entry member
    have below : highestAddr map ≤ 18446744073709547520 := by
      apply highestAddr_le map 0 (Nat.zero_le _)
      intro entry member
      have room := ends entry member
      rw [room.limit]
      rw [E820Entry.Ends, pageSize] at room
      omega
    have top := holds.2.2
    rw [← (ends entry member).limit] at top
    rw [pageCount, padPage_of_lt (by omega)]
    rw [pageSize] at top ⊢
    omega

/-- In the runs of page calls after `pmm_init` every page that `pmm_alloc` returns has the property, is not reserved and
not in use; and each such page that is not reserved is returned in some run. -/
def HandsOut (info : BootInfo) (kernelEnd : Nat) (behind : Bytes) (usable : Nat → Prop) : Prop :=
  (∀ st, PageReach info kernelEnd behind st → (pmmAlloc st.pmm).1 ≠ outOfMemory →
    ∃ page, (pmmAlloc st.pmm).1 = page * pageSize ∧ usable page ∧ ¬Reserved info kernelEnd page ∧
      (pmmAlloc st.pmm).1 ∉ st.outstanding) ∧
  ∀ page, usable page → ¬Reserved info kernelEnd page →
    ∃ st, PageReach info kernelEnd behind st ∧ (pmmAlloc st.pmm).1 = page * pageSize

theorem handsOut_of_ends (info : BootInfo) (kernelEnd : Nat) (behind : Bytes) (ends : ∀ entry ∈ info.e820Map, entry.Ends)
    (usable : ∀ page, (∃ entry ∈ info.e820Map, entry.Holds page) ↔ p page) : HandsOut info kernelEnd behind p := by
  constructor
  · intro st reach returned
    obtain ⟨page, address, opened, free, fresh⟩ := reach.alloc returned
    exact ⟨page, address, (usable page).mp ((opened_iff ends).mp opened), free, fresh⟩
  · intro page holds free
    have opened : Opened info.e820Map page := (opened_iff ends).mpr ((usable page).mpr holds)
    obtain ⟨st, reach, _, address⟩ : ∃ st, PageReach info kernelEnd behind st ∧ (pmmAlloc st.pmm).1 ≠ outOfMemory ∧
      (pmmAlloc st.pmm).1 = page * pageSize := PageReach.hands_out opened free
    exact ⟨st, reach, address⟩

/-- `map[i]` at its address. -/
def e820Entry (mem : Bytes) (address : Nat) : E820Entry :=
  ⟨.ofNat (word mem address 8), .ofNat (word mem (address + 8) 8), .ofNat (word mem (address + 16) 4)⟩

/-- The map as `pmm_init` reads it. -/
def e820Entries (mem : Bytes) (address count : Nat) : List E820Entry :=
  (List.range count).map fun index => e820Entry mem (address + 24 * index)

theorem e820Entry_congr {left right : Bytes} {address : Nat}
    (same : ∀ position, address ≤ position → position < address + 24 → left position = right position) :
    e820Entry left address = e820Entry right address := by
  have base : word left address 8 = word right address 8 :=
    word_congr fun position above below => same position above (by omega)
  have length : word left (address + 8) 8 = word right (address + 8) 8 :=
    word_congr fun position above below => same position (by omega) (by omega)
  have type : word left (address + 16) 4 = word right (address + 16) 4 :=
    word_congr fun position above below => same position (by omega) (by omega)
  rw [e820Entry, e820Entry, base, length, type]

/-- Entries are read the same wherever nothing changes. -/
theorem e820Entries_congr {left right : Bytes} {address count : Nat}
    (same : ∀ position, address ≤ position → position < address + 24 * count → left position = right position) :
    e820Entries left address count = e820Entries right address count := by
  apply List.map_congr_left
  intro index inside
  have last := List.mem_range.mp inside
  exact e820Entry_congr fun position above below => same position (by omega) (by omega)

theorem e820Entries_succ (mem : Bytes) (address count : Nat) : e820Entries mem address (count + 1) =
    e820Entries mem address count ++ [e820Entry mem (address + 24 * count)] := by
  rw [e820Entries, List.range_succ, List.map_append, List.map_singleton]
  rfl

theorem e820Entries_cons (mem : Bytes) (address count : Nat) : e820Entries mem address (count + 1) =
    e820Entry mem address :: e820Entries mem (address + 24) count := by
  have step : ∀ index, address + 24 * (index + 1) = address + 24 + 24 * index := fun index => by omega
  rw [e820Entries, List.range_succ_eq_map, List.map_cons, List.map_map, Nat.mul_zero, Nat.add_zero]
  simp only [Function.comp_def, step]
  rfl

section StoredMap

variable {mem : Bytes} {address count size : Nat} {st : PmmState}

/-- The memory with the first `size` bytes of the bitmap in it. -/
def PmmState.memory (st : PmmState) (size : Nat) (mem : Bytes) : Bytes := fun position =>
  if st.bitmapAddr ≤ position ∧ position < st.bitmapAddr + size then st.bitmap (position - st.bitmapAddr) else mem position

/-- Stage 2a, which reads every entry from the memory in which the bitmap changes. -/
def openStored (mem : Bytes) (size : Nat) : (count address : Nat) → PmmState → PmmState
  | 0, _, st => st
  | count + 1, address, st =>
    openStored mem size count (address + 24) (openEntry (e820Entry (st.memory size mem) address) st)

/-- `pmm_init` with the map at `address`, in the memory that it fills. -/
def pmmInitStored (mem : Bytes) (address count : Nat) (kernelSize : UInt32) (kernelEnd : Nat) : PmmState :=
  let map := e820Entries mem address count
  reserveKnown kernelSize (openStored mem (bitmapBytes map) count address
    (pmmBlank map kernelEnd fun place => mem (bitmapStart kernelEnd + place)))

/-- The map and the bitmap lie apart. -/
def MapApart (address count bitmapAddr size : Nat) : Prop :=
  address + 24 * count ≤ bitmapAddr ∨ bitmapAddr + size ≤ address

theorem openStored_eq (apart : MapApart address count st.bitmapAddr size) :
    openStored mem size count address st = openEntries (e820Entries mem address count) st := by
  induction count generalizing address st with
  | zero => rfl
  | succ count ih =>
    rw [MapApart] at apart
    have read : e820Entry (st.memory size mem) address = e820Entry mem address :=
      e820Entry_congr fun position above below => if_neg (by omega)
    have layout := (openEntry_spec (e820Entry mem address) st).1
    rw [openStored, read, e820Entries_cons, openEntries]
    apply ih
    rw [MapApart, layout.bitmapAddr]
    omega

/-- Then `pmm_init` takes the entries that lie there when it starts. -/
theorem pmmInitStored_eq (apart : MapApart address count (bitmapStart kernelEnd) (bitmapBytes (e820Entries mem address count))) :
    pmmInitStored mem address count kernelSize kernelEnd =
      pmmInit ⟨e820Entries mem address count, kernelSize⟩ kernelEnd fun place => mem (bitmapStart kernelEnd + place) := by
  have apart' : MapApart address count (pmmBlank (e820Entries mem address count) kernelEnd fun place =>
    mem (bitmapStart kernelEnd + place)).bitmapAddr (bitmapBytes (e820Entries mem address count)) := apart
  rw [pmmInitStored, pmmInit, openStored_eq apart']

end StoredMap

end LivlyOS.Mm
