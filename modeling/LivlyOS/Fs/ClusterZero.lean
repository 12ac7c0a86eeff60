import LivlyOS.Fs.ChainAlloc
import LivlyOS.Fs.MissingFile
import LivlyOS.Fs.Ownership
import LivlyOS.Fs.Renaming

/-! Entries without a cluster: other drivers store an empty file with first cluster 0, and the
loops of the driver take that for a cluster like any other. -/

namespace LivlyOS.Fs

open LivlyOS.Lib

/-- An entry in use that is no directory and no label, of size 0 and without a cluster. -/
structure Place.EmptyFile (boot : FAT32BootSector) (disk : Disk) (place : Place) : Prop where
  used : place.Used boot disk
  regular : (place.buf boot disk).attributes place.slot &&& 0x18 = 0
  size : (place.buf boot disk).slotSize place.slot = 0
  cluster : (place.buf boot disk).slotCluster place.slot = 0

/-- Below the data area only sectors of the FATs change, and the first two entries do not. -/
structure SparesReserved (boot : FAT32BootSector) (disk disk' : Disk) : Prop where
  sectors : ∀ lba < boot.dataStart, lba < boot.fatStart → disk' lba = disk lba
  entries : ∀ cluster < 2, fatEntry boot disk' cluster = fatEntry boot disk cluster

/-- Reading the file gives these bytes. -/
def ReadsBack (name : CString) (buf : Bytes) (size : Nat) (st : FatState) : Prop :=
  ∃ enough, ∀ fuel, enough ≤ fuel → ∀ out, ∃ out' after,
    fatReadFile fuel name out st = some (size, out', after) ∧ ∀ index < size, out' index = buf index

/-- Writing to the empty file spares what is reserved, and reading gives back what had room. -/
def WriteHandled (name : CString) (st : FatState) : Prop :=
  ∀ buf size, size < 4294967296 → ∃ fuel st', fatWriteData fuel name buf size st = some st' ∧
    SparesReserved st.boot st.disk st'.disk ∧
    (0 < size → neededClusters st.boot size ≤ (freeClusters st.boot st.disk).card → ReadsBack name buf size st')

/-- So does deleting it. -/
def DeleteHandled (name : CString) (st : FatState) : Prop :=
  ∃ fuel st', fatDeleteFile fuel name st = some st' ∧ SparesReserved st.boot st.disk st'.disk

/-- The cache holds no change and the first FAT entry is zero. -/
structure FirstEntryZero (boot : FAT32BootSector) (st : FatState) : Prop where
  same : st.boot = boot
  clean : st.fatCacheDirty = false
  zero : fatEntry boot st.disk 0 = 0

variable {boot : FAT32BootSector}

/-- Clearing an entry does not bring another one back. -/
theorem fatEntry_clear (cluster : Nat) (zero : fatEntry boot disk 0 = 0) :
    fatEntry boot (setFatEntry boot cluster 0 disk) 0 = 0 := by
  rw [fatEntry, setFatEntry]
  by_cases sector : boot.fatSector cluster = boot.fatSector 0
  · rw [sector, ataReadSector_same _ _ rfl]
    by_cases index : entryIndex cluster = entryIndex 0
    · rw [index, Sector.entry_setEntry_same _ (entryIndex_lt _) (by decide)]
    · rw [Sector.entry_setEntry_other _ (entryIndex_lt _) (Ne.symm index)]
      exact zero
  · rw [ataReadSector_other]
    · exact zero
    · rw [boot.ataLba_fatSector, boot.ataLba_fatSector]
      exact Ne.symm sector

theorem fatEntry_clear_first (disk : Disk) : fatEntry boot (setFatEntry boot 0 0 disk) 0 = 0 := by
  rw [fatEntry, setFatEntry, ataReadSector_same _ _ rfl,
    Sector.entry_setEntry_same _ (entryIndex_lt _) (by decide)]

/-- However far the loop that frees a chain goes, the first entry stays zero. -/
theorem FirstEntryZero.freeLoop (cleared : FirstEntryZero boot st)
    (finished : loop freeTurn fuel (cluster, st) = some st') : FirstEntryZero boot st' := by
  refine loop_ends (fun point : Nat × FatState => FirstEntryZero boot point.2) (FirstEntryZero boot) ?_ cleared finished
  rintro ⟨cluster, st⟩ cleared
  by_cases going : cluster < endOfChain
  · obtain ⟨rfl, clean, zero⟩ := cleared
    obtain ⟨mid, loaded, again⟩ := freeTurn_again clean going
    have same := loaded.kept.boot
    rw [again]
    refine ⟨same, loaded.clean, ?_⟩
    dsimp only
    rw [same, loaded.disk]
    exact fatEntry_clear cluster zero
  · rw [freeTurn, if_pos (Nat.not_lt.mp going)]
    exact cleared

/-- Freeing the chain of cluster 0 starts with the first entry. -/
theorem freeLoop_zero (clean : st.fatCacheDirty = false) (finished : loop freeTurn fuel (0, st) = some st') :
    FirstEntryZero st.boot st' := by
  cases fuel with
  | zero => cases finished
  | succ fuel =>
    obtain ⟨mid, loaded, again⟩ := freeTurn_again clean (by decide : 0 < endOfChain)
    rw [loop_again again] at finished
    have cleared : FirstEntryZero st.boot { mid with disk := setFatEntry mid.boot 0 0 mid.disk } := by
      refine ⟨loaded.kept.boot, loaded.clean, ?_⟩
      rw [loaded.kept.boot]
      exact fatEntry_clear_first mid.disk
    exact cleared.freeLoop finished

/-- The other matches of the sector clear further entries. -/
theorem FirstEntryZero.deleteSlots (wf : boot.WellFormed) (data : boot.DataCluster owner) (inside : s < boot.spc)
    (cleared : FirstEntryZero boot st) (finished : deleteSlots fuel name (boot.clusterLba owner s) slots buf st = some st') :
    FirstEntryZero boot st' := by
  induction slots generalizing buf st with
  | nil => exact Option.some.inj finished ▸ cleared
  | cons slot rest ih =>
    rw [Fs.deleteSlots] at finished
    split at finished
    · dsimp only at finished
      split at finished
      · cases finished
      · rename_i freed
        have marked : FirstEntryZero boot { st with
            disk := ataWriteSector st.disk (boot.clusterLba owner s) (buf.putByte slot 0 0xE5) } := by
          refine ⟨cleared.same, cleared.clean, ?_⟩
          rw [fatEntry_congr wf.layout (fun lba fat => readFat_writeData wf _ _ data inside fat) (Nat.succ_pos _)]
          exact cleared.zero
        exact ih (marked.freeLoop freed) finished
    · exact ih cleared finished

theorem deleteSlots_append {before : List Nat} {buf : Sector}
    (missed : ∀ slot ∈ before, buf.slotMatches name slot = false) :
    deleteSlots fuel name lba (before ++ slots) buf st = deleteSlots fuel name lba slots buf st := by
  induction before with
  | nil => rfl
  | cons slot rest ih =>
    rw [List.cons_append, deleteSlots, if_neg (by rw [missed slot List.mem_cons_self]; decide)]
    exact ih fun other member => missed other (List.mem_cons_of_mem _ member)

/-- Deleting an entry without a cluster clears the first entry of the FAT. -/
theorem fatDeleteFile_clusterZero {st : FatState} (wf : st.boot.WellFormed) (lagging : Lagging st)
    (directory : FatChain st.boot st.disk st.cwdCluster dirs) (found : FirstMatch st.boot st.disk dirs name place)
    (cluster : (place.buf st.boot st.disk).slotCluster place.slot = 0)
    (finished : fatDeleteFile fuel name st = some st') : fatEntry st.boot st'.disk 0 = 0 := by
  rcases fatDeleteFile_cases finished with ⟨mid, _, located, rfl⟩ | ⟨hit, mid, located, deleted⟩
  · have first := (locate_result lagging directory located).1
    rw [found.firstHit] at first
    cases first
  · obtain ⟨first, loaded⟩ := locate_result lagging directory located
    obtain ⟨_, _, inSector⟩ := firstHit_some first
    obtain ⟨hits, before, after, split, missed⟩ := List.find?_eq_some_iff_append.mp inSector.found
    rw [found.firstHit] at first
    cases first
    obtain ⟨member, inside, _⟩ := mem_places.mp found.member
    have data := directory.data place.cluster member
    have boot := loaded.kept.boot
    rw [split, deleteSlots_append (fun slot early => by simpa using missed slot early), deleteSlots, if_pos hits] at deleted
    dsimp only at deleted
    rw [Place.hit] at deleted
    rw [cluster] at deleted
    split at deleted
    · cases deleted
    · rename_i freed
      have cleared := freeLoop_zero (by exact loaded.clean) freed
      have same : FirstEntryZero st.boot _ := ⟨cleared.same.trans boot, cleared.clean, boot ▸ cleared.zero⟩
      exact (same.deleteSlots wf data inside deleted).zero

/-- The content of an entry without a cluster goes to the sectors in front of the data area. What
does not fit there has no place, or the first entry of the FAT gets the number of a cluster for it. -/
theorem fatWriteData_clusterZero {st : FatState} (wf : st.boot.WellFormed) (lagging : Lagging st)
    (directory : FatChain st.boot st.disk st.cwdCluster dirs) (found : FirstMatch st.boot st.disk dirs name place)
    (cluster : (place.buf st.boot st.disk).slotCluster place.slot = 0) (buf : Bytes) (size : Nat)
    (enough : dirs.length + st.boot.totalClusters + 4 < fuel) :
    ∃ st', fatWriteData fuel name buf size st = some st' ∧
      (st'.disk = writtenDisk st.boot buf size 0 0 (sizedDisk st.disk (place.hit st.boot st.disk) size) ∨
        (st.boot.clusterSize < size ∧ st.boot.DataCluster (fatEntry st.boot st'.disk 0))) := by
  obtain ⟨⟨_, _, _, _, nr, cached, dirty, console⟩, located, loaded⟩ :=
    locate_eq lagging directory (by omega : dirs.length ≤ fuel) name
  rw [found.firstHit] at located
  have clean := loaded.clean
  obtain ⟨⟨rfl, rfl, rfl⟩, rfl, -, -⟩ := loaded
  rw [fatWriteData, located]
  dsimp only
  rw [← sizedDisk, show (place.hit st.boot st.disk).buf.slotCluster (place.hit st.boot st.disk).slot = 0 from cluster]
  let sized : FatState := ⟨sizedDisk st.disk (place.hit st.boot st.disk) size, st.boot, st.cwdCluster, st.cwdPath, nr,
    cached, dirty, console⟩
  rcases Nat.lt_or_ge st.boot.clusterSize size with long | last
  · obtain ⟨st', result, outcome⟩ := @writeLoop_zeroChain size fuel sized wf clean buf long
      (by change st.boot.totalClusters + 4 < fuel; omega)
    refine ⟨st', result, ?_⟩
    rcases outcome with ⟨_, disk⟩ | ⟨_, grown⟩
    · exact .inl disk
    · exact .inr ⟨long, grown⟩
  · obtain ⟨fuel, rfl⟩ : ∃ more, fuel = more + 1 := ⟨fuel - 1, by omega⟩
    have short : size ≤ 0 + sized.boot.clusterSize := by
      rw [Nat.zero_add]
      exact last
    have leave := writeTurn_leave buf 0 (by decide) sized (clusterSize_small st.boot) short
    exact ⟨_, loop_leave leave _, .inl rfl⟩

/-- No file that another driver left empty is handled: deleting it clears the first entry of the FAT. -/
theorem emptyFile_unhandled {st : FatState} (wf : st.boot.WellFormed) (lagging : Lagging st)
    (media : fatEntry st.boot st.disk 0 ≠ 0) (directory : FatChain st.boot st.disk st.cwdCluster dirs)
    (found : FirstMatch st.boot st.disk dirs name place) (empty : place.EmptyFile st.boot st.disk) :
    (∀ fuel st', fatDeleteFile fuel name st = some st' → fatEntry st.boot st'.disk 0 = 0) ∧
      ¬(WriteHandled name st ∧ DeleteHandled name st) := by
  have cleared : ∀ fuel st', fatDeleteFile fuel name st = some st' → fatEntry st.boot st'.disk 0 = 0 :=
    fun _ _ finished => fatDeleteFile_clusterZero wf lagging directory found empty.cluster finished
  refine ⟨cleared, ?_⟩
  rintro ⟨_, fuel, st', finished, spares⟩
  exact media ((spares.entries 0 (by decide)).symm.trans (cleared fuel st' finished))

/-- The empty file `A` in the root directory. -/
def emptyFileVolume : Disk :=
  image sampleBoot (assigned 0 [(0, 0x0FFFFFF8), (1, 0x0FFFFFFF), (2, 0x0FFFFFFF)])
    (fun cluster _ => if cluster = 2 then createdSlot [0x41] [] 0x20 Sector.zero 0 0 else Sector.zero)

theorem emptyFileVolume_chain : FatChain sampleBoot emptyFileVolume 2 [2] :=
  ⟨.last (nextOf_last (by decide +kernel)), by decide⟩

theorem emptyFileVolume_match : FirstMatch sampleBoot emptyFileVolume [2] [0x41] ⟨2, 0, 0⟩ :=
  firstMatch_iff.mpr (by decide +kernel)

theorem emptyFileVolume_entry : Place.EmptyFile sampleBoot emptyFileVolume ⟨2, 0, 0⟩ :=
  ⟨by decide +kernel, by decide +kernel, by decide +kernel, by decide +kernel⟩

theorem emptyFile_unhandled_sample :
    (∀ fuel st', fatDeleteFile fuel [0x41] (mounted emptyFileVolume) = some st' → fatEntry sampleBoot st'.disk 0 = 0) ∧
      ¬(WriteHandled [0x41] (mounted emptyFileVolume) ∧ DeleteHandled [0x41] (mounted emptyFileVolume)) := by
  have boot : (mounted emptyFileVolume).boot = sampleBoot := (mounted_image _ _ _).1
  have unhandled := @emptyFile_unhandled [2] [0x41] ⟨2, 0, 0⟩ (mounted emptyFileVolume)
  rw [boot] at unhandled
  exact unhandled sampleBoot_wellFormed ((mounted_coherent _).lagging (boot ▸ sampleBoot_wellFormed.layout))
    (by decide +kernel) emptyFileVolume_chain emptyFileVolume_match emptyFileVolume_entry

/-- Writing one byte to the empty file replaces the boot sector, writing 600 bytes changes the first
entry of the FAT, and deleting the file clears it. -/
theorem emptyFile_overwrites :
    sampleBoot.WellFormed ∧ (mounted emptyFileVolume).boot = sampleBoot ∧
      FatChain sampleBoot emptyFileVolume (mounted emptyFileVolume).cwdCluster [2] ∧
      FirstMatch sampleBoot emptyFileVolume [2] [0x41] ⟨2, 0, 0⟩ ∧
      Place.EmptyFile sampleBoot emptyFileVolume ⟨2, 0, 0⟩ ∧
      (fatWriteData 2 [0x41] (fun _ => 0x58) 1 (mounted emptyFileVolume)).map (fun st => st.disk fat32PartitionStart 0) =
        some 0x58 ∧ emptyFileVolume fat32PartitionStart 0 = 0 ∧
      (fatWriteData 3 [0x41] (fun _ => 0x58) 600 (mounted emptyFileVolume)).map (fun st => fatEntry sampleBoot st.disk 0) =
        some 3 ∧
      (fatDeleteFile 2 [0x41] (mounted emptyFileVolume)).map (fun st => fatEntry sampleBoot st.disk 0) = some 0 ∧
      fatEntry sampleBoot emptyFileVolume 0 = 0x0FFFFFF8 ∧
      ¬(WriteHandled [0x41] (mounted emptyFileVolume) ∧ DeleteHandled [0x41] (mounted emptyFileVolume)) := by
  have boot : (mounted emptyFileVolume).boot = sampleBoot := (mounted_image _ _ _).1
  have media : fatEntry sampleBoot emptyFileVolume 0 = 0x0FFFFFF8 := by decide +kernel
  have deleted : (fatDeleteFile 2 [0x41] (mounted emptyFileVolume)).map (fun st => fatEntry sampleBoot st.disk 0) = some 0 := by
    decide +kernel
  refine ⟨sampleBoot_wellFormed, boot, emptyFileVolume_chain, emptyFileVolume_match, emptyFileVolume_entry,
    by decide +kernel, by decide +kernel, by decide +kernel, deleted, media, ?_⟩
  rintro ⟨_, fuel, st', finished, spares⟩
  have kept := spares.entries 0 (by decide)
  obtain ⟨st'', ran, zero⟩ := Option.map_eq_some_iff.mp deleted
  have cleared := @fatDeleteFile_clusterZero [2] [0x41] ⟨2, 0, 0⟩ fuel st' (mounted emptyFileVolume)
  rw [boot] at cleared kept
  have now := cleared sampleBoot_wellFormed ((mounted_coherent _).lagging (boot ▸ sampleBoot_wellFormed.layout))
    emptyFileVolume_chain emptyFileVolume_match emptyFileVolume_entry.cluster finished
  have before : fatEntry sampleBoot (mounted emptyFileVolume).disk 0 = 0x0FFFFFF8 := media
  rw [now, before] at kept
  exact absurd kept (by decide)

end LivlyOS.Fs
