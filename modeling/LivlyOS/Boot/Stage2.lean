import LivlyOS.Boot.KernelLoad
import LivlyOS.Boot.MemoryMap
import LivlyOS.Mm.BootPaging
import LivlyOS.Mm.OpenedPages

/-! Stage 2 as a whole: from the firmware, the processor and the disk to the kernel, and what the
kernel finds in memory. -/

namespace LivlyOS.Boot

open LivlyOS.Lib LivlyOS.Mm

/-- What CPUID tells: the highest function numbers and EDX of the functions 1 and 80000001h. -/
structure Cpu where
  cpuid : Bool
  maxFunc : Nat
  maxExtFunc : Nat
  edx : Nat
  extEdx : Nat

/-- `cpu_flags`, or the code for `fatal_halt`. -/
def checkCPU (cpu : Cpu) : Except UInt8 Nat :=
  if cpu.cpuid = false then .error 0x01
  else if cpu.maxFunc < 1 then .error 0x02
  else if cpu.maxExtFunc < 0x80000001 then .error 0x03
  else if cpu.extEdx.testBit 29 = false then .error 0x03
  else
    let flags := if cpu.extEdx.testBit 20 then 0x01 ||| 0x02 else 0x01
    -- .check_sse
    if cpu.maxFunc < 1 then .ok flags
    else if cpu.edx.testBit 25 = false then .ok flags
    else if cpu.edx.testBit 26 then .ok (flags ||| 0x04 ||| 0x08)
    else .ok (flags ||| 0x04)

/-- How stage 2 ends: in `fatal_halt`, in `lm_fatal`, or with the jump to the kernel. -/
inductive Stage2End where
  | halts (code : UInt8)
  | noEntry
  | kernel (mem : Bytes) (entry : Nat)

/-- `BREADCRUMB` -/
def breadcrumb (mem : Bytes) (step : Nat) : Bytes := putWord mem 0x7FF0 1 step

/-- From `setupGDT` to `lm_entry`. -/
def enterKernel (mem : Bytes) (kernelEntry : Nat) : Stage2End :=
  let mem := breadcrumb (breadcrumb (breadcrumb mem 0x05) 0x06) 0x07
  let mem := breadcrumb (setupPaging mem) 0x08
  let mem := putWord mem (bootInfo + 32) 1 0
  if kernelEntry = 0 then .noEntry else .kernel mem kernelEntry

/-- Behind `getE820map`. -/
def loadAndEnter (cpu : Cpu) (drive : BiosDrive) (mem : Bytes) : Stage2End :=
  let mem := breadcrumb mem 0x02
  match checkCPU cpu with
  | .error code => .halts code
  | .ok flags =>
    let mem := breadcrumb (putWord mem (bootInfo + 16) 1 flags) 0x03
    match loadKernel drive mem with
    | .error code => .halts code
    | .ok (mem, kernelEntry) => enterKernel mem kernelEntry

/-- `start`; nothing when the firmware delivers more entries than the fuel allows. -/
def stage2 (bios : Bios) (cpu : Cpu) (drive : BiosDrive) (fuel : Nat) (mem : Bytes) : Option Stage2End :=
  (getE820map bios fuel (breadcrumb mem 0x01)).map fun
    | (_, .halts code) => .halts code
    | (mem, .returns) => loadAndEnter cpu drive mem

/-- CPUID knows the functions that stage 2 asks, and tells that there is long mode. -/
def Cpu.LongMode (cpu : Cpu) : Prop :=
  cpu.cpuid = true ∧ 1 ≤ cpu.maxFunc ∧ 0x80000001 ≤ cpu.maxExtFunc ∧ cpu.extEdx.testBit 29 = true

instance (cpu : Cpu) : Decidable cpu.LongMode := inferInstanceAs (Decidable (_ ∧ _))

/-- The kernel on the disk is whole, every read of it works, and it has an entry. -/
def BiosDrive.Bootable (drive : BiosDrive) : Prop :=
  HasMagic (kernelImage drive.disk) ∧ drive.Serves ∧ SumsUp (kernelImage drive.disk) ∧ word (kernelImage drive.disk) 8 4 ≠ 0

/-- The memory at the jump to the kernel: its image, BOOT_INFO, the memory map and the page tables. -/
structure Handover (cpu : Cpu) (drive : BiosDrive) (address : Nat) (entries : List E820Entry) (mem : Bytes) : Prop where
  image : ∀ index, index < kernelSize (kernelImage drive.disk) → mem (kernelDst + index) = kernelImage drive.disk index
  size : word mem (bootInfo + 17) 4 = kernelSize (kernelImage drive.disk)
  count : word mem bootInfo 2 = entries.length
  address : word mem (bootInfo + 2) 4 = address
  total : word mem (bootInfo + 6) 4 = u32 (lowKb entries)
  flags : ∃ flags, checkCPU cpu = .ok flags ∧ word mem (bootInfo + 16) 1 = flags
  bootType : word mem (bootInfo + 32) 1 = 0
  entries : StoresEntries mem e820Buffer entries
  tables : ∀ position, 0x1000 ≤ position → position < 0x4000 → mem position = setupPaging (fun _ => 0) position

theorem checkCPU_iff (cpu : Cpu) : (∃ flags, checkCPU cpu = .ok flags) ↔ cpu.LongMode := by
  unfold checkCPU Cpu.LongMode
  constructor
  · rintro ⟨flags, checked⟩
    split_ifs at checked with missing old short without
    all_goals exact ⟨Bool.eq_true_of_not_eq_false missing, Nat.not_lt.mp old, Nat.not_lt.mp short,
      Bool.eq_true_of_not_eq_false without⟩
  · rintro ⟨cpuid, functions, extended, long⟩
    rw [if_neg (by rw [cpuid]; decide), if_neg (Nat.not_lt.mpr functions), if_neg (Nat.not_lt.mpr extended),
      if_neg (by rw [long]; decide)]
    split_ifs <;> exact ⟨_, rfl⟩

theorem checkCPU_small (checked : checkCPU cpu = .ok flags) : flags < 16 := by
  unfold checkCPU at checked
  split_ifs at checked <;> cases checked <;> decide

theorem pdFill_pointwise (ecx : Nat) {edi eax : Nat} {mem mem' : Bytes} (same : mem position = mem' position) :
    pdFill ecx edi eax mem position = pdFill ecx edi eax mem' position := by
  induction ecx generalizing edi eax mem mem' with
  | zero => exact same
  | succ ecx ih => exact ih (putWord_pointwise (putWord_pointwise same _ _ _) _ _ _)

theorem setupPaging_same (mem mem' : Bytes) (low : 0x1000 ≤ position) (high : position < 0x4000) :
    setupPaging mem position = setupPaging mem' position := by
  have start : pml4 = 0x1000 := rfl
  have zero : ∀ bytes, repStosd (3 * 1024) pml4 0 bytes position = 0 :=
    fun bytes => repStosd_zero _ _ _ (by omega) (by omega)
  have zeros : repStosd (3 * 1024) pml4 0 mem position = repStosd (3 * 1024) pml4 0 mem' position :=
    (zero mem).trans (zero mem').symm
  rw [setupPaging, setupPaging]
  apply pdFill_pointwise
  apply putWord_pointwise
  exact putWord_pointwise zeros _ _ _

theorem breadcrumb_outside (mem : Bytes) (step : Nat) (other : position ≠ 0x7FF0) : breadcrumb mem step position = mem position :=
  putWord_outside _ _ (by omega)

/-- Apart from the tables, the breadcrumb and the boot type, the kernel finds the memory as `loadKernel` left it. -/
theorem enterKernel_eq (enters : enterKernel loaded kernelEntry = .kernel mem entry) :
    entry = kernelEntry ∧ kernelEntry ≠ 0 ∧ word mem (bootInfo + 32) 1 = 0 ∧
      (∀ position, 0x1000 ≤ position → position < 0x4000 → mem position = setupPaging (fun _ => 0) position) ∧
      ∀ position, (position < 0x1000 ∨ 0x4000 ≤ position) → position ≠ 0x7FF0 → position ≠ bootInfo + 32 →
        mem position = loaded position := by
  have info : bootInfo = 0x8F00 := rfl
  unfold enterKernel at enters
  split_ifs at enters with none
  cases enters
  refine ⟨rfl, none, word_putWord_same .., fun position low high => ?_, fun position outside other type => ?_⟩
  · rw [putWord_outside _ _ (by omega), breadcrumb_outside _ _ (by omega)]
    exact setupPaging_same _ _ low high
  · rw [putWord_outside _ _ (by omega), breadcrumb_outside _ _ other, setupPaging_outside _ outside, breadcrumb_outside _ _ other,
      breadcrumb_outside _ _ other, breadcrumb_outside _ _ other]

theorem enterKernel_enters (mem : Bytes) (entryPoint : kernelEntry ≠ 0) :
    ∃ out, enterKernel mem kernelEntry = .kernel out kernelEntry := by
  unfold enterKernel
  exact ⟨_, if_neg entryPoint⟩

/-- Behind the map everything else must be right, and then the kernel finds it so. -/
theorem loadAndEnter_spec (cpu : Cpu) {drive : BiosDrive} {before mem : Bytes} {entries : List E820Entry}
    (positive : 0 < kernelSize (kernelImage drive.disk)) (small : kernelSize (kernelImage drive.disk) ≤ 33553920)
    (few : entries.length ≤ 1194) (stored : MapStored before source address entries mem) :
    ((∃ out entry, loadAndEnter cpu drive mem = .kernel out entry) ↔ cpu.LongMode ∧ drive.Bootable) ∧
      ∀ out entry, loadAndEnter cpu drive mem = .kernel out entry →
        entry = word (kernelImage drive.disk) 8 4 ∧ Handover cpu drive address entries out := by
  have info : bootInfo = 0x8F00 := rfl
  have buffer : sectorBuffer = 0x7E00 := rfl
  have map : e820Buffer = 0x9000 := rfl
  have kernel : kernelDst = 0x100000 := rfl
  unfold loadAndEnter
  cases checked : checkCPU cpu with
  | error code =>
    have none : ¬cpu.LongMode := fun mode => by
      obtain ⟨flags, right⟩ := (checkCPU_iff cpu).mpr mode
      exact nomatch checked.symm.trans right
    exact ⟨iff_of_false nofun fun all => none all.1, nofun⟩
  | ok flags =>
    have mode : cpu.LongMode := (checkCPU_iff cpu).mp ⟨flags, checked⟩
    dsimp only
    generalize ready : breadcrumb (putWord (breadcrumb mem 0x02) (bootInfo + 16) 1 flags) 0x03 = begin
    have ends := loadKernel_ends drive begin positive small
    generalize loadKernel drive begin = result at ends ⊢
    cases ends with
    | unread stops =>
      have none : ¬drive.Bootable := fun all => all.2.1 0 (by unfold sectorsRead; split <;> omega) stops
      exact ⟨iff_of_false nofun fun all => none all.2, nofun⟩
    | magic served wrong => exact ⟨iff_of_false nofun fun all => wrong all.2.1, nofun⟩
    | stopped right stops => exact ⟨iff_of_false nofun fun all => stops all.2.2.1, nofun⟩
    | checksum right serves wrong => exact ⟨iff_of_false nofun fun all => wrong all.2.2.2.1, nofun⟩
    | @loaded after right serves sum loaded =>
      refine ⟨?_, fun out entry enters => ?_⟩
      · constructor
        · rintro ⟨out, entry, enters⟩
          obtain ⟨_, entryPoint, _⟩ := enterKernel_eq enters
          exact ⟨mode, right, serves, sum, entryPoint⟩
        · rintro ⟨_, _, _, _, entryPoint⟩
          obtain ⟨out, enters⟩ := enterKernel_enters after entryPoint
          exact ⟨out, _, enters⟩
      · obtain ⟨same, _, bootType, tables, kept⟩ := enterKernel_eq enters
        have far : ∀ position, bootInfo ≤ position → position < 65536 → position ≠ bootInfo + 16 → position ≠ bootInfo + 32 →
            (position < bootInfo + 17 ∨ bootInfo + 21 ≤ position) → out position = mem position := by
          intro position low high cpuFlags type size
          rw [kept position (by omega) (by omega) type, loaded.frame position (by omega) size (by omega), ← ready,
            breadcrumb_outside _ _ (by omega), putWord_outside _ _ (by omega), breadcrumb_outside _ _ (by omega)]
        refine ⟨same, ?_, ?_, ?_, ?_, ?_, ⟨flags, checked, ?_⟩, bootType, ?_, tables⟩
        · intro index inside
          rw [kept _ (by omega) (by omega) (by omega)]
          exact loaded.image index inside
        · rw [word_congr fun position low high => kept position (by omega) (by omega) (by omega)]
          exact loaded.stored
        · rw [word_congr fun position low high => far position (by omega) (by omega) (by omega) (by omega) (by omega)]
          exact stored.count
        · rw [word_congr fun position low high => far position (by omega) (by omega) (by omega) (by omega) (by omega)]
          exact stored.address
        · rw [word_congr fun position low high => far position (by omega) (by omega) (by omega) (by omega) (by omega)]
          exact stored.total
        · have set : word begin (bootInfo + 16) 1 = flags := by
            rw [← ready, breadcrumb, word_putWord_other _ _ (by omega), word_putWord_same]
            exact Nat.mod_eq_of_lt (Nat.lt_trans (checkCPU_small checked) (by decide))
          rw [← set]
          refine word_congr fun position low high => ?_
          rw [kept position (by omega) (by omega) (by omega), loaded.frame position (by omega) (by omega) (by omega)]
        · exact stored.entries.near fun position low high => far position (by omega) (by omega) (by omega) (by omega) (by omega)

theorem stage2_of_map {bios : Bios} {cpu : Cpu} {drive : BiosDrive} {before : Bytes} {entries : List E820Entry} {outcome : E820Outcome}
    (positive : 0 < kernelSize (kernelImage drive.disk)) (small : kernelSize (kernelImage drive.disk) ≤ 33553920)
    (few : entries.length ≤ 1194) (map : getE820map bios fuel (breadcrumb before 0x01) = some (mem, outcome))
    (stored : MapStored (breadcrumb before 0x01) source address entries mem) (returns : outcome = .returns ↔ PassesMap entries) :
    ((∃ out entry, stage2 bios cpu drive fuel before = some (.kernel out entry)) ↔
        PassesMap entries ∧ cpu.LongMode ∧ drive.Bootable) ∧
      ∀ out entry, stage2 bios cpu drive fuel before = some (.kernel out entry) →
        entry = word (kernelImage drive.disk) 8 4 ∧ Handover cpu drive address entries out := by
  rw [stage2, map]
  cases outcome with
  | halts code =>
    have none : ¬PassesMap entries := fun passes => nomatch returns.mpr passes
    exact ⟨iff_of_false nofun fun all => none all.1, nofun⟩
  | returns =>
    have passes : PassesMap entries := returns.mp rfl
    obtain ⟨enters, hands⟩ := loadAndEnter_spec cpu positive small few stored
    refine ⟨?_, fun out entry boots => hands out entry (Option.some.inj boots)⟩
    rw [and_iff_right passes, ← enters]
    exact exists_congr fun out => exists_congr fun entry => ⟨fun boots => Option.some.inj boots, fun boots => congrArg some boots⟩

/-- With E820h: stage 2 gets to the kernel exactly when the map of the firmware passes its check, the processor has long mode
and the kernel on the disk can be loaded; and the kernel finds its image, that map and the page tables. -/
theorem stage2_kernel (bios : Bios) (cpu : Cpu) (drive : BiosDrive) (before : Bytes) (fuel : Nat) (entries : List E820Entry)
    (answers : bios.Answers 0 entries) (few : entries.length ≤ 1194) (enough : entries.length ≤ fuel)
    (positive : 0 < kernelSize (kernelImage drive.disk)) (small : kernelSize (kernelImage drive.disk) ≤ 33553920) :
    ((∃ mem entry, stage2 bios cpu drive fuel before = some (.kernel mem entry)) ↔
        PassesMap entries ∧ cpu.LongMode ∧ drive.Bootable) ∧
      ∀ mem entry, stage2 bios cpu drive fuel before = some (.kernel mem entry) →
        entry = word (kernelImage drive.disk) 8 4 ∧ Handover cpu drive e820Buffer entries mem := by
  obtain ⟨mem, outcome, map, stored, returns⟩ := getE820map_reads (breadcrumb before 0x01) answers few enough
  exact stage2_of_map positive small few map stored returns

/-- The memory below 639 KB, the ROM of the firmware, and a gigabyte from the first megabyte on. -/
def firmwareBios : Bios where
  e820 call :=
    if call = 0 then ⟨false, 0x534D4150, 1, 0, 0x9FC00, 1, none⟩
    else if call = 1 then ⟨false, 0x534D4150, 2, 0xF0000, 0x10000, 2, none⟩
    else ⟨false, 0x534D4150, 0, 0x100000, 0x40000000, 1, some 1⟩
  e801Carry := true
  e801Ax := 0
  e801Cx := 0
  int12Ax := 0

def firmwareEntries : List E820Entry :=
  [⟨0, 0x9FC00, 1, by decide⟩, ⟨0xF0000, 0x10000, 2, by decide⟩, ⟨0x100000, 0x40000000, 1, by decide⟩]

theorem firmwareBios_answers : firmwareBios.Answers 0 firmwareEntries :=
  .next ⟨by decide, rfl, rfl, rfl, by decide⟩ (by decide) <|
    .next ⟨by decide, rfl, rfl, rfl, by decide⟩ (by decide) <|
      .last ⟨by decide, rfl, rfl, rfl, by decide⟩ (.inl rfl)

theorem firmwareEntries_passes : PassesMap firmwareEntries := by
  refine ⟨⟨⟨0x100000, 0x40000000, 1, by decide⟩, ?_, by decide⟩, by decide⟩
  exact List.mem_cons_of_mem _ (List.mem_cons_of_mem _ (List.mem_singleton_self _))

def longModeCpu : Cpu := ⟨true, 1, 0x80000001, 0, 0x20000000⟩

theorem sampleDrive_bootable : sampleDrive.Bootable := ⟨by decide, by decide, by decide +kernel, by decide⟩

theorem stage2_kernel_firmware :
    ∃ mem entry, stage2 firmwareBios longModeCpu sampleDrive 3 (fun _ => 0) = some (.kernel mem entry) :=
  (stage2_kernel firmwareBios longModeCpu sampleDrive (fun _ => 0) 3 firmwareEntries firmwareBios_answers (by decide) (by decide)
    (by decide) (by decide)).1.mpr ⟨firmwareEntries_passes, by decide, sampleDrive_bootable⟩

/-- Without E820h the kernel gets the number of the entries in front, but not where they are: the address of the map is what the
memory held there before. -/
theorem stage2_fallback (bios : Bios) (cpu : Cpu) (drive : BiosDrive) (before : Bytes) (fuel : Nat)
    (fails : ¬(bios.e820 0).Succeeds) (positive : 0 < kernelSize (kernelImage drive.disk))
    (small : kernelSize (kernelImage drive.disk) ≤ 33553920) :
    ((∃ mem entry, stage2 bios cpu drive fuel before = some (.kernel mem entry)) ↔
        (if bios.e801Carry then 1025 ≤ bios.int12Ax % 65536 else 388 ≤ bios.highKb) ∧ cpu.LongMode ∧ drive.Bootable) ∧
      ∀ mem entry, stage2 bios cpu drive fuel before = some (.kernel mem entry) →
        entry = word (kernelImage drive.disk) 8 4 ∧
          Handover cpu drive (word before (bootInfo + 2) 4) (fallbackEntries bios) mem := by
  have info : bootInfo = 0x8F00 := rfl
  have map : getE820map bios fuel (breadcrumb before 0x01) = some (fallbackE801 bios (breadcrumb before 0x01)) := by
    rw [getE820map]
    exact if_pos fails
  obtain ⟨stored, returns⟩ := fallbackE801_spec bios (breadcrumb before 0x01)
  have few : (fallbackEntries bios).length ≤ 1194 := by
    unfold fallbackEntries
    split <;> exact Nat.le_of_ble_eq_true rfl
  have same : word (breadcrumb before 0x01) (bootInfo + 2) 4 = word before (bootInfo + 2) 4 :=
    word_putWord_other _ _ (by omega)
  rw [same] at stored
  rw [← fallback_passes_iff]
  exact stage2_of_map positive small few map stored returns

/-- A firmware with E801h only. -/
def e801Bios : Bios := ⟨fun _ => ⟨true, 0, 0, 0, 0, 0, none⟩, false, 0x3C00, 0, 640⟩

/-- In an empty memory the kernel takes the interrupt table for its map. -/
theorem stage2_fallback_e801 : ∃ mem entry,
    stage2 e801Bios longModeCpu sampleDrive 1 (fun _ => 0) = some (.kernel mem entry) ∧ word mem (bootInfo + 2) 4 = 0 := by
  obtain ⟨boots, finds⟩ := stage2_fallback e801Bios longModeCpu sampleDrive (fun _ => 0) 1 (by decide) (by decide) (by decide)
  obtain ⟨mem, entry, done⟩ := boots.mpr ⟨by decide, by decide, sampleDrive_bootable⟩
  exact ⟨mem, entry, done, (finds mem entry done).2.address⟩

/-- The map and the size of the kernel as `pmm_init` takes them from BOOT_INFO. -/
def kernelInfo (mem : Bytes) : Mm.BootInfo :=
  ⟨e820Entries mem (word mem (bootInfo + 2) 4) (word mem bootInfo 2), .ofNat (word mem (bootInfo + 17) 4)⟩

/-- The page is part of free memory. -/
def E820Entry.HasPage (entry : E820Entry) (page : Nat) : Prop :=
  entry.type = 1 ∧ entry.base ≤ page * pageSize ∧ (page + 1) * pageSize ≤ entry.base + entry.length

/-- The entry as the kernel reads it. -/
def E820Entry.forKernel (entry : E820Entry) : Mm.E820Entry := ⟨.ofNat entry.base, .ofNat entry.length, .ofNat entry.type⟩

theorem E820Entry.forKernel_eq (entry : E820Entry) :
    entry.forKernel.base.toNat = entry.base ∧ entry.forKernel.length.toNat = entry.length := by
  have noWrap := entry.noWrap
  exact ⟨UInt64.toNat_ofNat_of_lt' (by rw [UInt64.size]; omega), UInt64.toNat_ofNat_of_lt' (by rw [UInt64.size]; omega)⟩

theorem StoresEntry.small (stores : StoresEntry mem position entry) : entry.type < 2 ^ 32 := by
  rw [← stores.2.2]
  exact word_lt _ _ 4

theorem StoresEntry.forKernel_holds (stores : StoresEntry mem position entry) :
    entry.forKernel.Holds page ↔ entry.HasPage page := by
  have type : entry.forKernel.type = e820Free ↔ entry.type = 1 := by
    rw [← UInt32.toNat_inj, E820Entry.forKernel, UInt32.toNat_ofNat_of_lt' stores.small]
    exact Iff.rfl
  rw [Mm.E820Entry.Holds, E820Entry.HasPage, type, entry.forKernel_eq.1, entry.forKernel_eq.2]

theorem StoresEntries.read {entries : List E820Entry} (stores : StoresEntries mem address entries) :
    e820Entries mem address entries.length = entries.map E820Entry.forKernel := by
  induction entries generalizing address with
  | nil => rfl
  | cons entry rest ih =>
    obtain ⟨⟨base, length, type⟩, later⟩ := stores
    rw [List.length_cons, e820Entries_cons, ih later, e820Entry, base, length, type, List.map_cons, E820Entry.forKernel]

theorem StoresEntries.member {entries : List E820Entry} (stores : StoresEntries mem address entries) (inside : entry ∈ entries) :
    ∃ position, StoresEntry mem position entry := by
  induction entries generalizing address with
  | nil => exact absurd inside List.not_mem_nil
  | cons first rest ih =>
    rcases List.mem_cons.mp inside with rfl | later
    · exact ⟨address, stores.1⟩
    · exact ih stores.2 later

theorem Handover.info {drive : BiosDrive} {entries : List E820Entry} (handover : Handover cpu drive e820Buffer entries mem)
    (small : kernelSize (kernelImage drive.disk) ≤ 33553920) :
    (kernelInfo mem).e820Map = entries.map E820Entry.forKernel ∧
      (kernelInfo mem).kernelSize.toNat = kernelSize (kernelImage drive.disk) := by
  rw [kernelInfo, handover.address, handover.count, handover.entries.read, handover.size]
  exact ⟨rfl, UInt32.toNat_ofNat_of_lt' (by rw [UInt32.size]; omega)⟩

/-- After the boot the kernel gives out the free pages of the map of the firmware and no others, and none of them is part of the
kernel that stage 2 has loaded, of the page tables, of the bitmap or of the heap. -/
theorem stage2_pages (bios : Bios) (cpu : Cpu) (drive : BiosDrive) (before : Bytes) (fuel : Nat) (entries : List E820Entry)
    (answers : bios.Answers 0 entries) (few : entries.length ≤ 1194) (enough : entries.length ≤ fuel)
    (positive : 0 < kernelSize (kernelImage drive.disk)) (small : kernelSize (kernelImage drive.disk) ≤ 33553920)
    (ends : ∀ entry ∈ entries, entry.base + entry.length + pageSize ≤ 18446744073709551616)
    (kernelEnd : Nat) (low : kernelEnd < 281474976710656) (behind mem : Bytes) (kernelEntry : Nat)
    (boots : stage2 bios cpu drive fuel before = some (.kernel mem kernelEntry)) :
    HandsOut (kernelInfo mem) kernelEnd behind (fun page => ∃ entry ∈ entries, entry.HasPage page) ∧
      ∀ st, PageReach (kernelInfo mem) kernelEnd behind st → Exclusive (kernelInfo mem) kernelEnd st := by
  obtain ⟨read, outcome, map, stored, returns⟩ := getE820map_reads (breadcrumb before 0x01) answers few enough
  obtain ⟨_, handover⟩ := (stage2_of_map positive small few map stored returns).2 mem kernelEntry boots
  obtain ⟨sameMap, sameSize⟩ := handover.info small
  have range : ∀ entry ∈ (kernelInfo mem).e820Map, entry.Ends := by
    rw [sameMap]
    refine List.forall_mem_map.mpr fun entry member => ?_
    rw [Mm.E820Entry.Ends, entry.forKernel_eq.1, entry.forKernel_eq.2]
    exact ends entry member
  refine ⟨handsOut_of_ends _ _ _ range fun page => ?_, fun st reach => ?_⟩
  · rw [sameMap]
    constructor
    · rintro ⟨_, member, holds⟩
      obtain ⟨entry, inside, rfl⟩ := List.mem_map.mp member
      obtain ⟨position, one⟩ := handover.entries.member inside
      exact ⟨entry, inside, one.forKernel_holds.mp holds⟩
    · rintro ⟨entry, inside, has⟩
      obtain ⟨position, one⟩ := handover.entries.member inside
      exact ⟨_, List.mem_map_of_mem inside, one.forKernel_holds.mpr has⟩
  · refine exclusive_of_reserved (fun entry member => ?_) low ?_ reach
    · have room := range entry member
      rw [Mm.E820Entry.Ends] at room
      omega
    · intro page _ meets
      rw [sameSize] at meets
      obtain ⟨covers, bound⟩ := kernelSizeAligned_le (by omega : (kernelInfo mem).kernelSize.toNat ≤ 0xFFFFF000)
      exact .inr (.inr (.inl (.of_intersects (by omega) (by omega) meets)))

theorem stage2_pages_firmware :
    ∃ mem entry, stage2 firmwareBios longModeCpu sampleDrive 3 (fun _ => 0) = some (.kernel mem entry) ∧
      HandsOut (kernelInfo mem) 0x200000 (fun _ => 0) fun page => ∃ entry ∈ firmwareEntries, entry.HasPage page := by
  obtain ⟨read, outcome, map, stored, returns⟩ :=
    getE820map_reads (breadcrumb (fun _ => 0) 0x01) firmwareBios_answers (by decide) (Nat.le_refl 3)
  have boots : ∃ mem entry, stage2 firmwareBios longModeCpu sampleDrive 3 (fun _ => 0) = some (.kernel mem entry) :=
    (stage2_of_map (by decide) (by decide) (by decide) map stored returns).1.mpr
      ⟨firmwareEntries_passes, by decide, sampleDrive_bootable⟩
  obtain ⟨mem, entry, done⟩ := boots
  exact ⟨mem, entry, done, (stage2_pages firmwareBios longModeCpu sampleDrive (fun _ => 0) 3 firmwareEntries firmwareBios_answers
    (by decide) (by decide) (by decide) (by decide) (by decide) 0x200000 (by decide) (fun _ => 0) mem entry done).1⟩

end LivlyOS.Boot
