import LivlyOS.Mm.PageCount

namespace LivlyOS.Mm

open LivlyOS.Lib

/-- A byte of usable memory. -/
def InRam (map : List E820Entry) (byte : Nat) : Prop := ∃ entry ∈ map, entry.type = e820Free ∧ entry.Covers byte

def RangeInRam (map : List E820Entry) (low high : Nat) : Prop := ∀ byte, low ≤ byte → byte < high → InRam map byte

/-- The bytes that `pmm_init` fills and the first heap are usable memory. -/
def ClaimsRam (map : List E820Entry) (st : PmmState) : Prop :=
  RangeInRam map st.bitmapAddr (st.bitmapAddr + bitmapBytes map) ∧
    RangeInRam map st.pmmBitmapEnd (st.pmmBitmapEnd + heapSize)

/-- The first page boundary that is not in front of an address. -/
def pageBehind (address : Nat) : Nat := (address + 4095) / 4096 * 4096

/-- One bit for each page up to the highest address of the map. -/
def bitmapSize (map : List E820Entry) : Nat := (pageCount map + 7) / 8

theorem bitmapBytes_eq (map : List E820Entry) : bitmapBytes map = bitmapSize map := by
  have pages := pageCount_lt map
  rw [bitmapBytes, u64_of_lt (by omega), bitmapSize]

theorem bitmapSize_le (map : List E820Entry) : bitmapSize map ≤ 562949953421312 := by
  have pages := pageCount_lt map
  unfold bitmapSize
  omega

theorem alignPage_padPage (small : address + 4095 < 18446744073709551616) :
    alignPage (padPage address) = pageBehind address := by
  rw [padPage_of_lt small, alignPage_eq small, pageBehind]

/-- The bitmap starts on the first page behind the kernel, the heap on the first page behind the
bitmap. -/
def PlacedBehind (map : List E820Entry) (kernelEnd : Nat) (st : PmmState) : Prop :=
  st.bitmapAddr = pageBehind kernelEnd ∧ st.pmmBitmapEnd = pageBehind (pageBehind kernelEnd + bitmapSize map)

theorem pmmInit_placed (info : BootInfo) (behind : Bytes) (small : kernelEnd < 281474976710656) :
    PlacedBehind info.e820Map kernelEnd (pmmInit info kernelEnd behind) := by
  obtain ⟨layout, _⟩ := pmmInit_spec info kernelEnd behind
  have bytes := bitmapSize_le info.e820Map
  have start : bitmapStart kernelEnd = pageBehind kernelEnd := alignPage_padPage (by omega)
  have bound : pageBehind kernelEnd ≤ kernelEnd + 4095 := Nat.div_mul_le_self _ _
  refine ⟨layout.bitmapAddr.trans start, layout.pmmBitmapEnd.trans ?_⟩
  change bitmapEnd info.e820Map kernelEnd = _
  rw [bitmapEnd, start, bitmapBytes_eq, u64_of_lt (by omega), alignPage_padPage (by omega)]

/-- Every byte of the bitmap is filled, with a zero bit for each page that may be handed out, and no byte
behind it. -/
structure Fills (info : BootInfo) (kernelEnd : Nat) (behind : Bytes) (st : PmmState) : Prop where
  inside : ∀ page, page / 8 < bitmapSize info.e820Map →
    (readBit st.bitmap page = 0 ↔ Opened info.e820Map page ∧ ¬Reserved info kernelEnd page)
  outside : ∀ place, bitmapSize info.e820Map ≤ place → st.bitmap place = behind place

theorem pmmInit_fills (info : BootInfo) (kernelEnd : Nat) (behind : Bytes) :
    Fills info kernelEnd behind (pmmInit info kernelEnd behind) := by
  obtain ⟨layout, free⟩ := pmmInit_spec info kernelEnd behind
  have blank : ∀ place, (pmmBlank info.e820Map kernelEnd behind).bitmap place =
      if place < bitmapSize info.e820Map then 0xFF else behind place := by
    intro place
    rw [← bitmapBytes_eq]
    rfl
  constructor
  · intro page below
    by_cases inside : page < pageCount info.e820Map
    · rw [← free page, PmmState.IsFree, layout.maxPages]
      exact (and_iff_right inside).symm
    · rw [layout.bits page (Nat.not_lt.mp inside), readBit_full (by rw [blank, if_pos below])]
      exact iff_of_false (by decide) fun both => inside both.1.1
  · intro place above
    rw [layout.bytes place above, blank, if_neg (Nat.not_lt.mpr above)]

/-- `pmm_init` takes the memory behind the kernel: it fills as many bytes as the bitmap needs for the highest
address of the map, and no others. They and the megabyte of the heap from the next page on are usable exactly if
the map says so. -/
theorem pmm_claims_iff (info : BootInfo) (kernelEnd : Nat) (behind : Bytes) (small : kernelEnd < 281474976710656) :
    PlacedBehind info.e820Map kernelEnd (pmmInit info kernelEnd behind) ∧
      Fills info kernelEnd behind (pmmInit info kernelEnd behind) ∧
      (ClaimsRam info.e820Map (pmmInit info kernelEnd behind) ↔
        RangeInRam info.e820Map (pageBehind kernelEnd) (pageBehind kernelEnd + bitmapSize info.e820Map) ∧
          RangeInRam info.e820Map (pageBehind (pageBehind kernelEnd + bitmapSize info.e820Map))
            (pageBehind (pageBehind kernelEnd + bitmapSize info.e820Map) + heapSize)) := by
  have placed := pmmInit_placed info behind small
  refine ⟨placed, pmmInit_fills info kernelEnd behind, ?_⟩
  obtain ⟨start, limit⟩ := placed
  rw [ClaimsRam, start, limit, bitmapBytes_eq]

theorem rangeInRam_of_entry (member : entry ∈ map) (free : entry.type = e820Free) (low' : entry.base.toNat ≤ low)
    (high' : high ≤ entry.base.toNat + entry.length.toNat) : RangeInRam map low high := by
  intro byte above below
  exact ⟨entry, member, free, by omega, by omega⟩

/-- A machine with 128 megabytes: low memory, the ROMs, and the rest. -/
def smallMachine : List E820Entry :=
  [⟨0x0, 0x9F000, e820Free⟩, ⟨0xF0000, 0x10000, 2⟩, ⟨0x100000, 0x7F00000, e820Free⟩]

/-- With a kernel of 256 KiB the bitmap takes `0x1000` bytes from `0x140000` on. -/
theorem pmm_claims_room :
    Fills ⟨smallMachine, 0x40000⟩ 0x140000 (fun _ => 0) (pmmInit ⟨smallMachine, 0x40000⟩ 0x140000 fun _ => 0) ∧
      ClaimsRam smallMachine (pmmInit ⟨smallMachine, 0x40000⟩ 0x140000 fun _ => 0) := by
  obtain ⟨_, fills, claims⟩ := pmm_claims_iff ⟨smallMachine, 0x40000⟩ 0x140000 (fun _ => 0) (by decide)
  have member : ⟨0x100000, 0x7F00000, e820Free⟩ ∈ smallMachine :=
    List.mem_cons_of_mem _ (List.mem_cons_of_mem _ List.mem_cons_self)
  exact ⟨fills, claims.mpr ⟨rangeInRam_of_entry member rfl (by decide) (by decide),
    rangeInRam_of_entry member rfl (by decide) (by decide)⟩⟩

/-- The same with 128 KiB of firmware data right behind the kernel. -/
def firmwareBehind : List E820Entry :=
  [⟨0x0, 0x9F000, e820Free⟩, ⟨0x100000, 0x40000, e820Free⟩, ⟨0x140000, 0x20000, 2⟩, ⟨0x160000, 0x7EA0000, e820Free⟩]

/-- There the kernel lies in usable memory and the bitmap on the firmware data. -/
theorem pmm_claims_outside :
    RangeInRam firmwareBehind 0x100000 0x140000 ∧
      ¬InRam firmwareBehind (pmmInit ⟨firmwareBehind, 0x40000⟩ 0x140000 fun _ => 0).bitmapAddr ∧
      ¬∀ (info : BootInfo) (kernelEnd : Nat) (behind : Bytes),
        RangeInRam info.e820Map 0x100000 kernelEnd → ClaimsRam info.e820Map (pmmInit info kernelEnd behind) := by
  have member : ⟨0x100000, 0x40000, e820Free⟩ ∈ firmwareBehind := List.mem_cons_of_mem _ List.mem_cons_self
  have kernel : RangeInRam firmwareBehind 0x100000 0x140000 :=
    rangeInRam_of_entry member rfl (by decide) (by decide)
  have place : (pmmInit ⟨firmwareBehind, 0x40000⟩ 0x140000 fun _ => 0).bitmapAddr = 0x140000 :=
    (pmmInit_placed ⟨firmwareBehind, 0x40000⟩ (fun _ => 0) (by decide)).1
  have apart : ∀ entry ∈ firmwareBehind, entry.type = e820Free →
      0x140000 < entry.base.toNat ∨ entry.base.toNat + entry.length.toNat ≤ 0x140000 := by
    decide
  have outside : ¬InRam firmwareBehind 0x140000 := by
    rintro ⟨entry, member, free, above, below⟩
    rcases apart entry member free with behind | before
    · exact absurd above (Nat.not_le.mpr behind)
    · exact absurd below (Nat.not_lt.mpr before)
  refine ⟨kernel, by rwa [place], fun claims => outside ?_⟩
  apply (claims ⟨firmwareBehind, 0x40000⟩ 0x140000 (fun _ => 0) kernel).1
  · exact Nat.le_of_eq place
  · rw [place]
    decide

end LivlyOS.Mm
