import LivlyOS.Mm.OpenedPages

namespace LivlyOS.Boot

open LivlyOS.Lib LivlyOS.Mm

/-- E820_MAX_ENTRIES -/
abbrev e820MaxEntries : Nat := 128

/-- The fields of an `EFI_MEMORY_DESCRIPTOR` that the loader reads. -/
structure EfiMemoryDescriptor where
  type : Nat
  physicalStart : Nat
  numberOfPages : Nat
deriving DecidableEq

def efiDescriptor (mem : Bytes) (address : Nat) : EfiMemoryDescriptor :=
  ⟨word mem address 4, word mem (address + 8) 8, word mem (address + 24) 8⟩

/-- Conventional, ACPI reclaim, ACPI NVS and unusable memory; the rest is reserved. -/
def uefiTypeToE820 (type : Nat) : Nat :=
  if type = 7 then 1 else if type = 9 then 3 else if type = 10 then 4 else if type = 8 then 5 else 2

/-- The memory and the variables of the loop of `efi_main`. -/
structure MapState where
  mem : Bytes
  off : Nat
  nent : Nat
  totalKb : Nat

/-- `d->NumberOfPages * 4096ULL` -/
def EfiMemoryDescriptor.length (descriptor : EfiMemoryDescriptor) : Nat := u64 (descriptor.numberOfPages * 4096)

/-- `emap[nent]` for a descriptor. -/
def storeEntry (mem : Bytes) (entry : Nat) (descriptor : EfiMemoryDescriptor) : Bytes :=
  let mem := putWord mem entry 8 descriptor.physicalStart
  let mem := putWord mem (entry + 8) 8 descriptor.length
  let mem := putWord mem (entry + 16) 4 (uefiTypeToE820 descriptor.type)
  putWord mem (entry + 20) 4 0

/-- The loop with room for some more entries. -/
def convertMap (mmapBuf emap mmapSz descSz : Nat) : (room : Nat) → MapState → MapState
  | 0, st => st
  | room + 1, st =>
    if u64 (st.off + descSz) ≤ mmapSz then
      let d := efiDescriptor st.mem (mmapBuf + st.off)
      convertMap mmapBuf emap mmapSz descSz room
        { mem := storeEntry st.mem (emap + 24 * st.nent) d
          off := u64 (st.off + descSz)
          nent := st.nent + 1
          totalKb := if uefiTypeToE820 d.type = 1 then u64 (st.totalKb + d.length / 1024) else st.totalKb }
    else st

/-- The memory and the fields of `BootInfo` behind the loop. -/
structure BootMap where
  mem : Bytes
  e820Count : Nat
  e820MapAddr : Nat
  totalRamKb : Nat

/-- `efi_main` from the map of the firmware to the fields of `BootInfo`. -/
def efiMap (mem : Bytes) (mmapBuf emap mmapSz descSz : Nat) : BootMap :=
  let st := convertMap mmapBuf emap mmapSz descSz e820MaxEntries ⟨mem, 0, 0, 0⟩
  ⟨st.mem, st.nent % 65536, u32 emap, if st.totalKb > 0xFFFFFFFF then 0xFFFFFFFF else st.totalKb⟩

def EfiMemoryDescriptor.entry (descriptor : EfiMemoryDescriptor) : Mm.E820Entry :=
  ⟨.ofNat descriptor.physicalStart, .ofNat descriptor.length, .ofNat (uefiTypeToE820 descriptor.type)⟩

/-- The first descriptors of the map. -/
def descriptors (mem : Bytes) (mmapBuf descSz count : Nat) : List EfiMemoryDescriptor :=
  (List.range count).map fun index => efiDescriptor mem (mmapBuf + index * descSz)

/-- The descriptors that get an entry. -/
def entryCount (mmapSz descSz : Nat) : Nat := min e820MaxEntries (mmapSz / descSz)

theorem uefiTypeToE820_lt (type : Nat) : uefiTypeToE820 type < 4294967296 := by
  unfold uefiTypeToE820
  split_ifs <;> decide

theorem storeEntry_outside (mem : Bytes) {entry : Nat} (descriptor : EfiMemoryDescriptor)
    (outside : position < entry ∨ entry + 24 ≤ position) : storeEntry mem entry descriptor position = mem position := by
  rw [storeEntry, putWord_outside _ _ (by omega), putWord_outside _ _ (by omega), putWord_outside _ _ (by omega),
    putWord_outside _ _ (by omega)]

/-- What is written for a descriptor is read as its entry. -/
theorem storeEntry_reads (mem : Bytes) (entry : Nat) (small : descriptor.physicalStart < 18446744073709551616) :
    word (storeEntry mem entry descriptor) entry 8 = descriptor.physicalStart ∧
      word (storeEntry mem entry descriptor) (entry + 8) 8 = descriptor.length ∧
      word (storeEntry mem entry descriptor) (entry + 16) 4 = uefiTypeToE820 descriptor.type := by
  refine ⟨?_, ?_, ?_⟩
  · rw [storeEntry, word_putWord_other _ _ (by omega), word_putWord_other _ _ (by omega), word_putWord_other _ _ (by omega),
      word_putWord_same]
    exact Nat.mod_eq_of_lt small
  · rw [storeEntry, word_putWord_other _ _ (by omega), word_putWord_other _ _ (by omega), word_putWord_same]
    exact Nat.mod_eq_of_lt (u64_lt _)
  · rw [storeEntry, word_putWord_other _ _ (by omega), word_putWord_same]
    exact Nat.mod_eq_of_lt (uefiTypeToE820_lt _)

/-- The free memory of the descriptors. -/
def freeKb (list : List EfiMemoryDescriptor) : Nat :=
  (list.map fun d => if uefiTypeToE820 d.type = 1 then d.length / 1024 else 0).sum

/-- The first descriptors are converted; the map of the firmware is as it was. -/
structure Converted (before : Bytes) (mmapBuf emap descSz done : Nat) (st : MapState) : Prop where
  off : st.off = done * descSz
  nent : st.nent = done
  frame : ∀ position, position < emap ∨ emap + 24 * done ≤ position → st.mem position = before position
  entries : e820Entries st.mem emap done = (descriptors before mmapBuf descSz done).map EfiMemoryDescriptor.entry
  total : st.totalKb = u64 (freeKb (descriptors before mmapBuf descSz done))

section Loop

variable {before : Bytes} {mmapBuf emap mmapSz descSz : Nat}

theorem efiDescriptor_congr {left right : Bytes} {address : Nat}
    (same : ∀ position, address ≤ position → position < address + 32 → left position = right position) :
    efiDescriptor left address = efiDescriptor right address := by
  have type : word left address 4 = word right address 4 := word_congr fun position above below => same position above (by omega)
  have start : word left (address + 8) 8 = word right (address + 8) 8 :=
    word_congr fun position above below => same position (by omega) (by omega)
  have pages : word left (address + 24) 8 = word right (address + 24) 8 :=
    word_congr fun position above below => same position (by omega) (by omega)
  rw [efiDescriptor, efiDescriptor, type, start, pages]

theorem descriptors_succ (mem : Bytes) (mmapBuf descSz count : Nat) : descriptors mem mmapBuf descSz (count + 1) =
    descriptors mem mmapBuf descSz count ++ [efiDescriptor mem (mmapBuf + count * descSz)] := by
  rw [descriptors, List.range_succ, List.map_append, List.map_singleton]
  rfl

theorem freeKb_append (list : List EfiMemoryDescriptor) (d : EfiMemoryDescriptor) :
    freeKb (list ++ [d]) = freeKb list + if uefiTypeToE820 d.type = 1 then d.length / 1024 else 0 := by
  rw [freeKb, freeKb, List.map_append, List.sum_append, List.map_singleton, List.sum_singleton]

theorem Converted.next (converted : Converted before mmapBuf emap descSz done st) (wide : 40 ≤ descSz)
    (apart : emap + 24 * e820MaxEntries ≤ mmapBuf ∨ mmapBuf + mmapSz ≤ emap) (room : done < e820MaxEntries)
    (inside : (done + 1) * descSz ≤ mmapSz) (small : mmapSz < 18446744073709551616) :
    Converted before mmapBuf emap descSz (done + 1)
      { mem := storeEntry st.mem (emap + 24 * st.nent) (efiDescriptor st.mem (mmapBuf + st.off))
        off := u64 (st.off + descSz)
        nent := st.nent + 1
        totalKb := if uefiTypeToE820 (efiDescriptor st.mem (mmapBuf + st.off)).type = 1
          then u64 (st.totalKb + (efiDescriptor st.mem (mmapBuf + st.off)).length / 1024) else st.totalKb } := by
  obtain ⟨off, nent, frame, entries, total⟩ := converted
  rw [Nat.succ_mul] at inside
  have same : efiDescriptor st.mem (mmapBuf + st.off) = efiDescriptor before (mmapBuf + done * descSz) := by
    rw [off]
    exact efiDescriptor_congr fun position above below => frame position (by omega)
  rw [same, nent, off, total]
  generalize read : efiDescriptor before (mmapBuf + done * descSz) = d
  have start : d.physicalStart < 18446744073709551616 := by
    rw [← read]
    exact word_lt before _ 8
  have offset : u64 (done * descSz + descSz) = (done + 1) * descSz := by
    rw [Nat.succ_mul]
    exact u64_of_lt (by omega)
  have kept : e820Entries (storeEntry st.mem (emap + 24 * done) d) emap done = e820Entries st.mem emap done :=
    e820Entries_congr fun position above below => storeEntry_outside _ _ (.inl below)
  have stored : e820Entries (storeEntry st.mem (emap + 24 * done) d) emap (done + 1) =
      (descriptors before mmapBuf descSz (done + 1)).map EfiMemoryDescriptor.entry := by
    obtain ⟨base, length, type⟩ := storeEntry_reads st.mem (emap + 24 * done) start
    rw [e820Entries_succ, e820Entry, base, length, type, kept, entries, descriptors_succ, read, List.map_append, List.map_singleton,
      EfiMemoryDescriptor.entry]
  have summed : (if uefiTypeToE820 d.type = 1 then u64 (u64 (freeKb (descriptors before mmapBuf descSz done)) + d.length / 1024)
      else u64 (freeKb (descriptors before mmapBuf descSz done))) = u64 (freeKb (descriptors before mmapBuf descSz (done + 1))) := by
    rw [descriptors_succ, read, freeKb_append]
    split
    · exact Nat.mod_add_mod _ _ _
    · rfl
  refine ⟨offset, rfl, fun position outside => ?_, stored, summed⟩
  change storeEntry st.mem (emap + 24 * done) d position = before position
  rw [storeEntry_outside _ _ (by omega)]
  exact frame position (by omega)

/-- The loop ends behind the last whole descriptor or when the array is full. -/
theorem Converted.finish (wide : 40 ≤ descSz)
    (apart : emap + 24 * e820MaxEntries ≤ mmapBuf ∨ mmapBuf + mmapSz ≤ emap)
    (small : mmapSz + descSz < 18446744073709551616) (room : Nat) {done : Nat} {st : MapState}
    (converted : Converted before mmapBuf emap descSz done st) (left : done + room = e820MaxEntries)
    (inside : done ≤ entryCount mmapSz descSz) :
    Converted before mmapBuf emap descSz (entryCount mmapSz descSz) (convertMap mmapBuf emap mmapSz descSz room st) := by
  induction room generalizing done st with
  | zero =>
    have full : entryCount mmapSz descSz = done := by
      have most : entryCount mmapSz descSz ≤ e820MaxEntries := Nat.min_le_left _ _
      omega
    rw [convertMap, full]
    exact converted
  | succ room ih =>
    have behind : done * descSz ≤ mmapSz :=
      (Nat.le_div_iff_mul_le (by omega)).mp (Nat.le_trans inside (Nat.min_le_right _ _))
    have next : u64 (st.off + descSz) = (done + 1) * descSz := by
      rw [converted.off, Nat.succ_mul]
      exact u64_of_lt (by omega)
    rw [convertMap]
    split
    · next more =>
      rw [next] at more
      have fits : done + 1 ≤ mmapSz / descSz := (Nat.le_div_iff_mul_le (by omega)).mpr more
      exact ih (converted.next wide apart (by omega) more (by omega)) (by omega) (Nat.le_min.mpr ⟨by omega, fits⟩)
    · next ends =>
      rw [next] at ends
      have last : ¬ done + 1 ≤ mmapSz / descSz := fun fits => ends ((Nat.le_div_iff_mul_le (by omega)).mp fits)
      have all : entryCount mmapSz descSz = done :=
        Nat.le_antisymm (Nat.le_trans (Nat.min_le_right _ _) (by omega)) inside
      rw [all]
      exact converted

theorem convertMap_spec (wide : 40 ≤ descSz)
    (apart : emap + 24 * e820MaxEntries ≤ mmapBuf ∨ mmapBuf + mmapSz ≤ emap)
    (small : mmapSz + descSz < 18446744073709551616) :
    Converted before mmapBuf emap descSz (entryCount mmapSz descSz)
      (convertMap mmapBuf emap mmapSz descSz e820MaxEntries ⟨before, 0, 0, 0⟩) :=
  Converted.finish wide apart small e820MaxEntries
    ⟨(Nat.zero_mul _).symm, rfl, fun _ _ => rfl, rfl, rfl⟩ (Nat.zero_add _) (Nat.zero_le _)

end Loop

/-- The page is part of a descriptor of conventional memory. -/
def EfiMemoryDescriptor.Holds (descriptor : EfiMemoryDescriptor) (page : Nat) : Prop :=
  descriptor.type = 7 ∧ descriptor.physicalStart ≤ page * pageSize ∧
    (page + 1) * pageSize ≤ descriptor.physicalStart + descriptor.numberOfPages * pageSize

/-- The memory of a descriptor ends in front of the last page of the address space. -/
def EfiMemoryDescriptor.Ends (descriptor : EfiMemoryDescriptor) : Prop :=
  descriptor.physicalStart + descriptor.numberOfPages * pageSize + pageSize ≤ 18446744073709551616

theorem uefiTypeToE820_free (type : Nat) : uefiTypeToE820 type = 1 ↔ type = 7 := by
  unfold uefiTypeToE820
  split_ifs with conventional <;> simp [conventional]

theorem entry_free (descriptor : EfiMemoryDescriptor) : descriptor.entry.type = e820Free ↔ descriptor.type = 7 := by
  rw [← uefiTypeToE820_free]
  constructor
  · intro same
    have number : descriptor.entry.type.toNat = uefiTypeToE820 descriptor.type :=
      UInt32.toNat_ofNat_of_lt' (uefiTypeToE820_lt _)
    rw [← number, same]
    rfl
  · exact fun free => congrArg UInt32.ofNat free

namespace EfiMemoryDescriptor

variable {descriptor : EfiMemoryDescriptor}

theorem Ends.entry (ends : descriptor.Ends) :
    descriptor.entry.base.toNat = descriptor.physicalStart ∧
      descriptor.entry.length.toNat = descriptor.numberOfPages * pageSize := by
  rw [Ends, pageSize] at ends
  have length : descriptor.length = descriptor.numberOfPages * 4096 := u64_of_lt (by omega)
  refine ⟨UInt64.toNat_ofNat_of_lt' (by rw [UInt64.size]; omega), ?_⟩
  rw [pageSize, ← length]
  exact UInt64.toNat_ofNat_of_lt' (u64_lt _)

theorem Ends.entry_ends (ends : descriptor.Ends) : descriptor.entry.Ends := by
  rw [E820Entry.Ends, ends.entry.1, ends.entry.2]
  exact ends

theorem Ends.entry_holds (ends : descriptor.Ends) : descriptor.entry.Holds page ↔ descriptor.Holds page := by
  rw [E820Entry.Holds, Holds, entry_free, ends.entry.1, ends.entry.2]

end EfiMemoryDescriptor

/-- The conventional memory in KB. -/
def conventionalKb (list : List EfiMemoryDescriptor) : Nat :=
  (list.map fun d => if d.type = 7 then d.numberOfPages * 4 else 0).sum

theorem freeKb_spec {list : List EfiMemoryDescriptor} (ends : ∀ descriptor ∈ list, descriptor.Ends) :
    freeKb list = conventionalKb list ∧ conventionalKb list ≤ list.length * 18014398509481984 := by
  induction list with
  | nil => exact ⟨rfl, Nat.zero_le _⟩
  | cons first rest ih =>
    obtain ⟨same, bound⟩ := ih fun descriptor member => ends descriptor (List.mem_cons_of_mem _ member)
    have room := ends first List.mem_cons_self
    rw [EfiMemoryDescriptor.Ends, pageSize] at room
    have length : first.length / 1024 = first.numberOfPages * 4 := by
      rw [EfiMemoryDescriptor.length, u64_of_lt (by omega)]
      omega
    rw [freeKb, conventionalKb] at same
    rw [conventionalKb] at bound
    rw [freeKb, conventionalKb, List.map_cons, List.sum_cons, List.map_cons, List.sum_cons, same, length, List.length_cons]
    simp only [uefiTypeToE820_free, true_and]
    split <;> omega

section Kernel

variable {mem : Bytes} {mmapBuf emap mmapSz descSz : Nat}
  (wide : 40 ≤ descSz) (small : mmapSz + descSz < 18446744073709551616)
  (apart : emap + 24 * e820MaxEntries ≤ mmapBuf ∨ mmapBuf + mmapSz ≤ emap)
  (low : emap + 24 * e820MaxEntries ≤ 4294967296)
include wide small apart low

/-- The kernel finds the entries of the descriptors. -/
theorem efiMap_entries : (efiMap mem mmapBuf emap mmapSz descSz).e820MapAddr = emap ∧
    (efiMap mem mmapBuf emap mmapSz descSz).e820Count = entryCount mmapSz descSz ∧
    e820Entries (efiMap mem mmapBuf emap mmapSz descSz).mem emap (entryCount mmapSz descSz) =
      (descriptors mem mmapBuf descSz (entryCount mmapSz descSz)).map EfiMemoryDescriptor.entry := by
  have converted : Converted mem mmapBuf emap descSz (entryCount mmapSz descSz)
      (convertMap mmapBuf emap mmapSz descSz e820MaxEntries ⟨mem, 0, 0, 0⟩) := convertMap_spec wide apart small
  have few : entryCount mmapSz descSz ≤ 128 := Nat.min_le_left _ _
  refine ⟨u32_of_lt (by rw [e820MaxEntries] at low; omega), ?_, converted.entries⟩
  change (convertMap mmapBuf emap mmapSz descSz e820MaxEntries ⟨mem, 0, 0, 0⟩).nent % 65536 = _
  rw [converted.nent]
  omega

omit low in
theorem efiMap_total (ends : ∀ descriptor ∈ descriptors mem mmapBuf descSz (entryCount mmapSz descSz), descriptor.Ends) :
    (efiMap mem mmapBuf emap mmapSz descSz).totalRamKb =
      min 0xFFFFFFFF (conventionalKb (descriptors mem mmapBuf descSz (entryCount mmapSz descSz))) := by
  obtain ⟨same, bound⟩ := freeKb_spec ends
  have few : entryCount mmapSz descSz ≤ 128 := Nat.min_le_left _ _
  have count : (descriptors mem mmapBuf descSz (entryCount mmapSz descSz)).length = entryCount mmapSz descSz := by
    rw [descriptors, List.length_map, List.length_range]
  have total : (convertMap mmapBuf emap mmapSz descSz e820MaxEntries ⟨mem, 0, 0, 0⟩).totalKb =
      conventionalKb (descriptors mem mmapBuf descSz (entryCount mmapSz descSz)) := by
    rw [(convertMap_spec wide apart small).total, same]
    exact u64_of_lt (by rw [count] at bound; omega)
  change (if _ > 0xFFFFFFFF then _ else _) = _
  rw [total]
  split <;> omega

end Kernel

/-- The kernel gets its memory from the firmware. If the array of entries lies below 4 GiB, away from the bitmap, and
is still there when `pmm_init` runs, then every page that `pmm_alloc` returns afterwards is conventional memory of one of the
descriptors, and each such page that `pmm_init` does not reserve is handed out in some run; and `total_ram_kb` is the
size of the conventional memory, cut at 32 bits. -/
theorem uefiMap_pages (mem now : Bytes) (mmapBuf emap mmapSz descSz kernelEnd : Nat) (kernelSize : UInt32)
    (wide : 40 ≤ descSz) (small : mmapSz + descSz < 18446744073709551616)
    (apart : emap + 24 * e820MaxEntries ≤ mmapBuf ∨ mmapBuf + mmapSz ≤ emap)
    (low : emap + 24 * e820MaxEntries ≤ 4294967296)
    (ends : ∀ descriptor ∈ descriptors mem mmapBuf descSz (entryCount mmapSz descSz), descriptor.Ends)
    (kept : ∀ position, emap ≤ position → position < emap + 24 * e820MaxEntries →
      now position = (efiMap mem mmapBuf emap mmapSz descSz).mem position)
    (clear : MapApart emap e820MaxEntries (bitmapStart kernelEnd)
      (bitmapBytes ((descriptors mem mmapBuf descSz (entryCount mmapSz descSz)).map EfiMemoryDescriptor.entry))) :
    let out := efiMap mem mmapBuf emap mmapSz descSz
    let info : Mm.BootInfo := ⟨e820Entries now out.e820MapAddr out.e820Count, kernelSize⟩
    let behind : Bytes := fun place => now (bitmapStart kernelEnd + place)
    let list := descriptors mem mmapBuf descSz (entryCount mmapSz descSz)
    pmmInitStored now out.e820MapAddr out.e820Count kernelSize kernelEnd = pmmInit info kernelEnd behind ∧
    HandsOut info kernelEnd behind (fun page => ∃ descriptor ∈ list, descriptor.Holds page) ∧
    out.totalRamKb = min 0xFFFFFFFF (conventionalKb list) := by
  intro out info behind list
  have few : entryCount mmapSz descSz ≤ 128 := Nat.min_le_left _ _
  obtain ⟨address, count, written⟩ := @efiMap_entries mem mmapBuf emap mmapSz descSz wide small apart low
  have map : info.e820Map = list.map EfiMemoryDescriptor.entry := by
    change e820Entries now out.e820MapAddr out.e820Count = _
    rw [address, count, ← written]
    exact e820Entries_congr fun position above below => kept position above (by rw [e820MaxEntries]; omega)
  refine ⟨pmmInitStored_eq ?_, ?_, efiMap_total wide small apart ends⟩
  · change MapApart out.e820MapAddr out.e820Count _ (bitmapBytes info.e820Map)
    rw [map, address, count]
    exact clear.imp_left fun below => by rw [e820MaxEntries] at below; omega
  · apply handsOut_of_ends
    · rw [map]
      exact List.forall_mem_map.mpr fun descriptor member => (ends descriptor member).entry_ends
    · intro page
      rw [map]
      constructor
      · rintro ⟨entry, member, holds⟩
        obtain ⟨descriptor, inside, rfl⟩ := List.mem_map.mp member
        exact ⟨descriptor, inside, (ends descriptor inside).entry_holds.mp holds⟩
      · rintro ⟨descriptor, inside, holds⟩
        exact ⟨_, List.mem_map_of_mem inside, (ends descriptor inside).entry_holds.mpr holds⟩

/-- A map with three descriptors: 256 pages of boot services, 259 pages of conventional memory behind them and a
page of the runtime. -/
def firmwareMap : Bytes :=
  let mem := putWord (putWord (fun _ => 0) 0x20000 4 3) 0x20018 8 0x100
  let mem := putWord (putWord (putWord mem 0x20030 4 7) 0x20038 8 0x100000) 0x20048 8 0x103
  putWord (putWord (putWord mem 0x20060 4 6) 0x20068 8 0x203000) 0x20078 8 1

theorem firmwareMap_descriptors : descriptors firmwareMap 0x20000 48 (entryCount 144 48) =
    [⟨3, 0, 0x100⟩, ⟨7, 0x100000, 0x103⟩, ⟨6, 0x203000, 1⟩] := by decide +kernel

theorem uefiMap_pages_firmware :
    let out := efiMap firmwareMap 0x20000 0x10000 144 48
    out.totalRamKb = 1036 ∧
    ∃ st, PageReach ⟨e820Entries out.mem out.e820MapAddr out.e820Count, 0x1000⟩ 0x101000
        (fun place => out.mem (bitmapStart 0x101000 + place)) st ∧
      (pmmAlloc st.pmm).1 = 0x202 * pageSize := by
  obtain ⟨_, ⟨_, returned⟩, total⟩ := uefiMap_pages firmwareMap (efiMap firmwareMap 0x20000 0x10000 144 48).mem
    0x20000 0x10000 144 48 0x101000 0x1000 (by decide) (by decide) (by decide) (by decide)
    (by
      rw [firmwareMap_descriptors]
      unfold EfiMemoryDescriptor.Ends
      decide)
    (fun _ _ _ => rfl) (by
      rw [firmwareMap_descriptors]
      unfold MapApart
      decide)
  rw [firmwareMap_descriptors] at returned total
  refine ⟨total, returned 0x202 ⟨⟨7, 0x100000, 0x103⟩, by decide, by unfold EfiMemoryDescriptor.Holds; decide⟩ ?_⟩
  unfold Reserved InRange
  decide +kernel

end LivlyOS.Boot
