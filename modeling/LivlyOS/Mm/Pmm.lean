import LivlyOS.Lib.Bitmap

/-! The physical memory manager: a bitmap of pages behind the kernel image,
built from the E820 map. A set bit means a taken page. -/

namespace LivlyOS.Mm

open LivlyOS.Lib

def pageSize : Nat := 4096

/-- One megabyte, `HEAP_SIZE`. -/
def heapSize : Nat := 0x100000

/-- `value + PAGE_SIZE - 1` in a `uint64_t`. -/
def padPage (value : Nat) : Nat := sub64 (u64 (value + pageSize)) 1

/-- `value & ~(uint64_t)(PAGE_SIZE - 1)`. -/
def alignPage (value : Nat) : Nat := value &&& 0xFFFFFFFFFFFFF000

structure E820Entry where
  base : UInt64
  length : UInt64
  type : UInt32
deriving DecidableEq

def e820Free : UInt32 := 1

/-- The fields of `BootInfo` that `pmm_init` uses, with the map they point to. -/
structure BootInfo where
  e820Map : List E820Entry
  kernelSize : UInt32

/-- `map[i].base + map[i].length`. -/
def E820Entry.limit (entry : E820Entry) : Nat := u64 (entry.base.toNat + entry.length.toNat)

/-- The static variables of `pmm.c` and the bytes behind the bitmap pointer. -/
structure PmmState where
  bitmapAddr : Nat
  bitmap : Bytes
  maxPages : Nat
  totalPages : Nat
  freePages : Nat
  pmmBitmapEnd : Nat

def bitSetzen (page : Nat) (st : PmmState) : PmmState :=
  if st.maxPages ≤ page then st else { st with bitmap := setBit st.bitmap page }

def bitLoeschen (page : Nat) (st : PmmState) : PmmState :=
  if st.maxPages ≤ page then st else { st with bitmap := clearBit st.bitmap page }

def bitLesen (page : Nat) (st : PmmState) : Nat :=
  if st.maxPages ≤ page then 1 else readBit st.bitmap page

/-- The loop of `pmm_reserve_range` with `count` pages to go. -/
def reservePages : (count p : Nat) → PmmState → PmmState
  | 0, _, st => st
  | count + 1, p, st =>
    let st := if bitLesen p st = 0 then { st with freePages := sub64 st.freePages 1 } else st
    reservePages count (p + 1) (bitSetzen p st)

def pmmReserveRange (addr length : Nat) (st : PmmState) : PmmState :=
  let start := addr / pageSize
  let limit := padPage (u64 (addr + length)) / pageSize
  reservePages (min limit st.maxPages - start) start st

/-- `0xFFFFFFFFFFFFFFFF`: out of memory. -/
def outOfMemory : Nat := 0xFFFFFFFFFFFFFFFF

/-- The search of `pmm_alloc` with `count` pages to go. -/
def allocPages : (count i : Nat) → PmmState → Nat × PmmState
  | 0, _, st => (outOfMemory, st)
  | count + 1, i, st =>
    if bitLesen i st = 0 then
      (u64 (i * pageSize), { bitSetzen i st with freePages := sub64 st.freePages 1 })
    else allocPages count (i + 1) st

def pmmAlloc (st : PmmState) : Nat × PmmState := allocPages (st.maxPages - 1) 1 st

def pmmFree (adresse : Nat) (st : PmmState) : PmmState :=
  let page := adresse / pageSize
  if page = 0 ∨ st.maxPages ≤ page then st
  else if bitLesen page st = 0 then st
  else { bitLoeschen page st with freePages := u64 (st.freePages + 1) }

/-- Stage 1: the highest address of the map. -/
def highestAddr (map : List E820Entry) : Nat :=
  map.foldl (fun highest entry => if highest ≤ entry.limit then entry.limit else highest) 0

/-- Stage 2a, the pages of one entry, `count` to go. -/
def openPages : (count p : Nat) → PmmState → PmmState
  | 0, _, st => st
  | count + 1, p, st =>
    let st := bitLoeschen p st
    openPages count (p + 1)
      { st with totalPages := u64 (st.totalPages + 1), freePages := u64 (st.freePages + 1) }

def openEntry (entry : E820Entry) (st : PmmState) : PmmState :=
  if entry.type ≠ e820Free then st
  else
    let start := padPage entry.base.toNat / pageSize
    let limit := entry.limit / pageSize
    if st.maxPages ≤ start then st else openPages (min limit st.maxPages - start) start st

def openEntries : (map : List E820Entry) → PmmState → PmmState
  | [], st => st
  | entry :: rest, st => openEntries rest (openEntry entry st)

/-- `max_pages` of a map. -/
def pageCount (map : List E820Entry) : Nat := padPage (highestAddr map) / pageSize

def bitmapBytes (map : List E820Entry) : Nat := u64 (pageCount map + 7) / 8

/-- `bitmap_addr`, the first page behind the linker symbol `__kernel_end`. -/
def bitmapStart (kernelEnd : Nat) : Nat := alignPage (padPage kernelEnd)

/-- `pmm_bitmap_end`, where the heap starts. -/
def bitmapEnd (map : List E820Entry) (kernelEnd : Nat) : Nat :=
  alignPage (padPage (u64 (bitmapStart kernelEnd + bitmapBytes map)))

/-- `kernel_size_aligned`: the sum is a `uint32_t`, the mask a `uint64_t`. -/
def kernelSizeAligned (kernelSize : UInt32) : Nat :=
  alignPage (sub32 (u32 (kernelSize.toNat + pageSize)) 1)

/-- The state before stage 2a: every page of the bitmap is taken. `behind` is the
memory at the new bitmap address. -/
def pmmBlank (map : List E820Entry) (kernelEnd : Nat) (behind : Bytes) : PmmState where
  bitmapAddr := bitmapStart kernelEnd
  bitmap := fun i => if i < bitmapBytes map then 0xFF else behind i
  maxPages := pageCount map
  totalPages := 0
  freePages := 0
  pmmBitmapEnd := bitmapEnd map kernelEnd

/-- The five reservations of stage 2. -/
def reserveKnown (kernelSize : UInt32) (st : PmmState) : PmmState :=
  let st := pmmReserveRange 0x0 pageSize st
  let st := pmmReserveRange 0x1000 (3 * pageSize) st
  let st := pmmReserveRange 0x100000 (kernelSizeAligned kernelSize) st
  let st := pmmReserveRange st.bitmapAddr (sub64 st.pmmBitmapEnd st.bitmapAddr) st
  pmmReserveRange st.pmmBitmapEnd heapSize st

def pmmInit (info : BootInfo) (kernelEnd : Nat) (behind : Bytes) : PmmState :=
  reserveKnown info.kernelSize (openEntries info.e820Map (pmmBlank info.e820Map kernelEnd behind))

/-- A page `pmm_alloc` may return. -/
def PmmState.IsFree (st : PmmState) (page : Nat) : Prop :=
  page < st.maxPages ∧ readBit st.bitmap page = 0

/-- The pages that `pmm_reserve_range(addr, length)` takes. -/
def InRange (addr length page : Nat) : Prop :=
  addr / pageSize ≤ page ∧ page < padPage (u64 (addr + length)) / pageSize

/-- The pages that stage 2a frees for an entry. -/
def E820Entry.Opens (entry : E820Entry) (page : Nat) : Prop :=
  entry.type = e820Free ∧ padPage entry.base.toNat / pageSize ≤ page ∧ page < entry.limit / pageSize

def Opened (map : List E820Entry) (page : Nat) : Prop :=
  page < pageCount map ∧ ∃ entry ∈ map, entry.Opens page

/-- The pages of the five reservations. -/
def Reserved (info : BootInfo) (kernelEnd page : Nat) : Prop :=
  InRange 0x0 pageSize page ∨ InRange 0x1000 (3 * pageSize) page ∨
    InRange 0x100000 (kernelSizeAligned info.kernelSize) page ∨
    InRange (bitmapStart kernelEnd)
      (sub64 (bitmapEnd info.e820Map kernelEnd) (bitmapStart kernelEnd)) page ∨
    InRange (bitmapEnd info.e820Map kernelEnd) heapSize page

/-- Two states with the same bitmap layout and the same memory where the bitmap has no page. -/
structure SameLayout (st st' : PmmState) : Prop where
  maxPages : st'.maxPages = st.maxPages
  bitmapAddr : st'.bitmapAddr = st.bitmapAddr
  pmmBitmapEnd : st'.pmmBitmapEnd = st.pmmBitmapEnd
  bits : ∀ page, st.maxPages ≤ page → readBit st'.bitmap page = readBit st.bitmap page
  bytes : ∀ place, (st.maxPages + 7) / 8 ≤ place → st'.bitmap place = st.bitmap place

theorem SameLayout.refl (st : PmmState) : SameLayout st st := ⟨rfl, rfl, rfl, fun _ _ => rfl, fun _ _ => rfl⟩

theorem SameLayout.trans (first : SameLayout st mid) (second : SameLayout mid st') : SameLayout st st' where
  maxPages := second.maxPages.trans first.maxPages
  bitmapAddr := second.bitmapAddr.trans first.bitmapAddr
  pmmBitmapEnd := second.pmmBitmapEnd.trans first.pmmBitmapEnd
  bits := fun page above => (second.bits page (first.maxPages ▸ above)).trans (first.bits page above)
  bytes := fun place above => (second.bytes place (first.maxPages ▸ above)).trans (first.bytes place above)

theorem SameLayout.counted (layout : SameLayout st st') (total free : Nat) :
    SameLayout st { st' with totalPages := total, freePages := free } := by
  obtain ⟨maxPages, bitmapAddr, pmmBitmapEnd, bits, bytes⟩ := layout
  exact ⟨maxPages, bitmapAddr, pmmBitmapEnd, bits, bytes⟩

theorem bitLesen_free : bitLesen page st = 0 ↔ st.IsFree page := by
  rw [bitLesen, PmmState.IsFree]
  split
  · omega
  · rename_i inside
    exact ⟨fun clear => ⟨Nat.not_le.mp inside, clear⟩, fun free => free.2⟩

theorem bitSetzen_layout (page : Nat) (st : PmmState) : SameLayout st (bitSetzen page st) := by
  rw [bitSetzen]
  split
  · exact .refl st
  · refine ⟨rfl, rfl, rfl, fun other above => ?_, fun place above => Function.update_of_ne (by omega) _ _⟩
    rw [readBit_setBit, if_neg (by omega)]

theorem bitSetzen_free : (bitSetzen page st).IsFree other ↔ st.IsFree other ∧ other ≠ page := by
  rw [bitSetzen]
  split
  · rename_i outside
    refine ⟨fun free => ⟨free, ?_⟩, fun free => free.1⟩
    rintro rfl
    exact absurd free.1 (Nat.not_lt.mpr outside)
  · rw [PmmState.IsFree, readBit_setBit, PmmState.IsFree]
    by_cases same : other = page
    · simp [same]
    · simp [same]

theorem bitLoeschen_layout (page : Nat) (st : PmmState) : SameLayout st (bitLoeschen page st) := by
  rw [bitLoeschen]
  split
  · exact .refl st
  · refine ⟨rfl, rfl, rfl, fun other above => ?_, fun place above => Function.update_of_ne (by omega) _ _⟩
    rw [readBit_clearBit, if_neg (by omega)]

theorem bitLoeschen_free :
    (bitLoeschen page st).IsFree other ↔ st.IsFree other ∨ (other = page ∧ page < st.maxPages) := by
  rw [bitLoeschen]
  split
  · rename_i outside
    exact ⟨Or.inl, fun free => free.resolve_right (fun inside => by omega)⟩
  · rename_i inside
    rw [PmmState.IsFree, readBit_clearBit, PmmState.IsFree]
    by_cases same : other = page
    · simp [same, Nat.not_le.mp inside]
    · simp [same]

theorem reservePages_spec (count p : Nat) (st : PmmState) :
    SameLayout st (reservePages count p st) ∧ ∀ page,
      (reservePages count p st).IsFree page ↔ st.IsFree page ∧ ¬ (p ≤ page ∧ page < p + count) := by
  induction count generalizing p st with
  | zero =>
    refine ⟨.refl st, fun page => ?_⟩
    rw [reservePages]
    exact ⟨fun free => ⟨free, by omega⟩, fun free => free.1⟩
  | succ count ih =>
    simp only [reservePages]
    generalize counted : (if bitLesen p st = 0 then { st with freePages := sub64 st.freePages 1 } else st) = mid
    have same : SameLayout st mid ∧ ∀ page, mid.IsFree page ↔ st.IsFree page := by
      rw [← counted]
      split
      · exact ⟨(SameLayout.refl st).counted _ _, fun _ => Iff.rfl⟩
      · exact ⟨.refl st, fun _ => Iff.rfl⟩
    obtain ⟨layout, free⟩ := ih (p + 1) (bitSetzen p mid)
    refine ⟨(same.1.trans (bitSetzen_layout p mid)).trans layout, fun page => ?_⟩
    rw [free, bitSetzen_free, same.2, and_assoc]
    refine and_congr_right (fun _ => ?_)
    omega

theorem pmmReserveRange_spec (addr length : Nat) (st : PmmState) :
    SameLayout st (pmmReserveRange addr length st) ∧ ∀ page,
      (pmmReserveRange addr length st).IsFree page ↔ st.IsFree page ∧ ¬ InRange addr length page := by
  obtain ⟨layout, free⟩ := reservePages_spec
    (min (padPage (u64 (addr + length)) / pageSize) st.maxPages - addr / pageSize) (addr / pageSize) st
  refine ⟨layout, fun page => (free page).trans ?_⟩
  refine and_congr_right (fun inside => ?_)
  have bound := inside.1
  rw [InRange]
  omega

theorem openPages_spec (count p : Nat) (st : PmmState) :
    SameLayout st (openPages count p st) ∧ ∀ page, (openPages count p st).IsFree page ↔
      st.IsFree page ∨ (p ≤ page ∧ page < p + count ∧ page < st.maxPages) := by
  induction count generalizing p st with
  | zero =>
    refine ⟨.refl st, fun page => ?_⟩
    rw [openPages]
    exact ⟨Or.inl, fun free => free.resolve_right (by omega)⟩
  | succ count ih =>
    simp only [openPages]
    obtain ⟨layout, free⟩ := ih (p + 1) { bitLoeschen p st with
      totalPages := u64 ((bitLoeschen p st).totalPages + 1)
      freePages := u64 ((bitLoeschen p st).freePages + 1) }
    have opened := bitLoeschen_layout p st
    have before : ∀ page, PmmState.IsFree { bitLoeschen p st with
        totalPages := u64 ((bitLoeschen p st).totalPages + 1)
        freePages := u64 ((bitLoeschen p st).freePages + 1) } page ↔
          st.IsFree page ∨ (page = p ∧ p < st.maxPages) := fun page => bitLoeschen_free
    refine ⟨(opened.counted _ _).trans layout, fun page => ?_⟩
    rw [free, before, or_assoc]
    refine or_congr_right ?_
    dsimp only
    rw [opened.maxPages]
    omega

theorem openEntry_spec (entry : E820Entry) (st : PmmState) :
    SameLayout st (openEntry entry st) ∧ ∀ page, (openEntry entry st).IsFree page ↔
      st.IsFree page ∨ (page < st.maxPages ∧ entry.Opens page) := by
  simp only [openEntry, E820Entry.Opens]
  split
  · rename_i taken
    exact ⟨.refl st, fun page => ⟨Or.inl, fun free => free.resolve_right (fun opens => taken opens.2.1)⟩⟩
  · rename_i free
    have type : entry.type = e820Free := not_not.mp free
    split
    · exact ⟨.refl st, fun page => ⟨Or.inl, fun opens => opens.resolve_right (by omega)⟩⟩
    · obtain ⟨layout, free⟩ := openPages_spec
        (min (entry.limit / pageSize) st.maxPages - padPage entry.base.toNat / pageSize)
        (padPage entry.base.toNat / pageSize) st
      refine ⟨layout, fun page => (free page).trans (or_congr_right ?_)⟩
      rw [eq_true type, true_and]
      omega

theorem openEntries_spec (map : List E820Entry) (st : PmmState) :
    SameLayout st (openEntries map st) ∧ ∀ page, (openEntries map st).IsFree page ↔
      st.IsFree page ∨ (page < st.maxPages ∧ ∃ entry ∈ map, entry.Opens page) := by
  induction map generalizing st with
  | nil => exact ⟨.refl st, fun page => by simp [openEntries]⟩
  | cons entry rest ih =>
    obtain ⟨first, opens⟩ := openEntry_spec entry st
    obtain ⟨layout, free⟩ := ih (openEntry entry st)
    refine ⟨first.trans layout, fun page => ?_⟩
    rw [openEntries, free, opens, first.maxPages, or_assoc, ← and_or_left]
    simp only [List.mem_cons, exists_eq_or_imp]

theorem pageCount_lt (map : List E820Entry) : pageCount map < 4503599627370496 := by
  have bound : padPage (highestAddr map) < 18446744073709551616 := u64_lt _
  rw [pageCount, pageSize]
  omega

theorem pmmBlank_free (map : List E820Entry) (kernelEnd : Nat) (behind : Bytes) (page : Nat) :
    ¬ (pmmBlank map kernelEnd behind).IsFree page := by
  rintro ⟨inside, clear⟩
  have small := pageCount_lt map
  have below : page < pageCount map := inside
  have covered : page / 8 < bitmapBytes map := by
    rw [bitmapBytes, u64_of_lt (by omega)]
    omega
  rw [readBit_full (if_pos covered)] at clear
  cases clear

/-- After `pmm_init` the free pages are those that stage 2a frees and no
reservation takes. -/
theorem pmmInit_spec (info : BootInfo) (kernelEnd : Nat) (behind : Bytes) :
    SameLayout (pmmBlank info.e820Map kernelEnd behind) (pmmInit info kernelEnd behind) ∧
      ∀ page, (pmmInit info kernelEnd behind).IsFree page ↔
        Opened info.e820Map page ∧ ¬ Reserved info kernelEnd page := by
  obtain ⟨layout, opened⟩ := openEntries_spec info.e820Map (pmmBlank info.e820Map kernelEnd behind)
  have start : ∀ page, (openEntries info.e820Map (pmmBlank info.e820Map kernelEnd behind)).IsFree page ↔
      Opened info.e820Map page := by
    intro page
    rw [opened, or_iff_right (pmmBlank_free _ _ _ page)]
    rfl
  simp only [pmmInit, reserveKnown]
  generalize openEntries info.e820Map (pmmBlank info.e820Map kernelEnd behind) = st₀ at layout start
  obtain ⟨layout₁, free₁⟩ := pmmReserveRange_spec 0x0 pageSize st₀
  generalize pmmReserveRange 0x0 pageSize st₀ = st₁ at layout₁ free₁
  obtain ⟨layout₂, free₂⟩ := pmmReserveRange_spec 0x1000 (3 * pageSize) st₁
  generalize pmmReserveRange 0x1000 (3 * pageSize) st₁ = st₂ at layout₂ free₂
  obtain ⟨layout₃, free₃⟩ := pmmReserveRange_spec 0x100000 (kernelSizeAligned info.kernelSize) st₂
  generalize pmmReserveRange 0x100000 (kernelSizeAligned info.kernelSize) st₂ = st₃ at layout₃ free₃
  have whole₃ := ((layout.trans layout₁).trans layout₂).trans layout₃
  have address : st₃.bitmapAddr = bitmapStart kernelEnd := whole₃.bitmapAddr
  have limit : st₃.pmmBitmapEnd = bitmapEnd info.e820Map kernelEnd := whole₃.pmmBitmapEnd
  rw [address, limit]
  obtain ⟨layout₄, free₄⟩ := pmmReserveRange_spec (bitmapStart kernelEnd)
    (sub64 (bitmapEnd info.e820Map kernelEnd) (bitmapStart kernelEnd)) st₃
  generalize pmmReserveRange (bitmapStart kernelEnd)
    (sub64 (bitmapEnd info.e820Map kernelEnd) (bitmapStart kernelEnd)) st₃ = st₄ at layout₄ free₄
  rw [layout₄.pmmBitmapEnd, limit]
  obtain ⟨layout₅, free₅⟩ := pmmReserveRange_spec (bitmapEnd info.e820Map kernelEnd) heapSize st₄
  refine ⟨(whole₃.trans layout₄).trans layout₅, fun page => ?_⟩
  rw [free₅, free₄, free₃, free₂, free₁, start, Reserved]
  simp only [not_or, and_assoc]

theorem allocPages_spec (count i : Nat) (st : PmmState) :
    ((∀ page, i ≤ page → page < i + count → ¬ st.IsFree page) ∧
        allocPages count i st = (outOfMemory, st)) ∨
      ∃ page, i ≤ page ∧ st.IsFree page ∧ (∀ other, i ≤ other → other < page → ¬ st.IsFree other) ∧
        allocPages count i st =
          (u64 (page * pageSize), { bitSetzen page st with freePages := sub64 st.freePages 1 }) := by
  induction count generalizing i with
  | zero => exact .inl ⟨fun page low high => absurd high (by omega), rfl⟩
  | succ count ih =>
    rw [allocPages]
    split
    · rename_i free
      exact .inr ⟨i, Nat.le_refl _, bitLesen_free.mp free, fun other low high => absurd high (by omega), rfl⟩
    · rename_i taken
      rw [bitLesen_free] at taken
      rcases ih (i + 1) with ⟨none, result⟩ | ⟨page, low, free, first, result⟩
      · refine .inl ⟨fun page low high => ?_, result⟩
        by_cases here : page = i
        · exact here ▸ taken
        · exact none page (by omega) (by omega)
      · refine .inr ⟨page, by omega, free, fun other otherLow high => ?_, result⟩
        by_cases here : other = i
        · exact here ▸ taken
        · exact first other (by omega) high

/-- `pmm_alloc` takes the first free page behind page 0. -/
theorem pmmAlloc_spec (st : PmmState) :
    ((∀ page, 1 ≤ page → ¬ st.IsFree page) ∧ pmmAlloc st = (outOfMemory, st)) ∨
      ∃ page, 1 ≤ page ∧ st.IsFree page ∧ (∀ other, 1 ≤ other → other < page → ¬ st.IsFree other) ∧
        (pmmAlloc st).1 = u64 (page * pageSize) ∧ SameLayout st (pmmAlloc st).2 ∧
        ∀ other, (pmmAlloc st).2.IsFree other ↔ st.IsFree other ∧ other ≠ page := by
  rcases allocPages_spec (st.maxPages - 1) 1 st with ⟨none, result⟩ | ⟨page, low, free, first, result⟩
  · refine .inl ⟨fun page low free => none page low ?_ free, result⟩
    have inside := free.1
    omega
  · refine .inr ⟨page, low, free, first, ?_, ?_, fun other => ?_⟩
    · rw [pmmAlloc, result]
    · rw [pmmAlloc, result]
      exact (bitSetzen_layout page st).counted _ _
    · rw [pmmAlloc, result]
      exact bitSetzen_free

theorem pmmFree_spec (adresse : Nat) (st : PmmState) :
    SameLayout st (pmmFree adresse st) ∧ ∀ page, (pmmFree adresse st).IsFree page ↔
      st.IsFree page ∨ (page = adresse / pageSize ∧ page ≠ 0 ∧ page < st.maxPages) := by
  rw [pmmFree]
  dsimp only
  split
  · rename_i invalid
    exact ⟨.refl st, fun page => ⟨Or.inl, fun free => free.resolve_right (by omega)⟩⟩
  · rename_i valid
    split
    · rename_i free
      rw [bitLesen_free] at free
      refine ⟨.refl st, fun page => ⟨Or.inl, ?_⟩⟩
      rintro (before | ⟨rfl, _⟩)
      · exact before
      · exact free
    · refine ⟨(bitLoeschen_layout (adresse / pageSize) st).counted _ _, fun page => ?_⟩
      refine bitLoeschen_free.trans (or_congr_right ?_)
      omega

end LivlyOS.Mm
