import LivlyOS.Fs.FreeSearch
import LivlyOS.Fs.WriteLoop

namespace LivlyOS.Fs

open LivlyOS.Lib

theorem clusterSize_small (boot : FAT32BootSector) : 0 + boot.clusterSize < 4294967296 := by
  have spc : boot.spc < 256 := UInt8.toNat_lt _
  rw [clusterSize_eq]
  omega

section WellFormed

variable {boot : FAT32BootSector} (wf : boot.WellFormed)
include wf

/-- The sectors the loop takes for cluster 0: two clusters in front of cluster 2. -/
theorem clusterLba_missing (inside : s < boot.spc) :
    boot.clusterLba 0 s = boot.dataStart - 2 * boot.spc + s ∧ boot.clusterLba 0 s < boot.dataStart := by
  have spc : boot.spc < 256 := UInt8.toNat_lt _
  have data := wf.dataStart_eq
  have fits := wf.data_fits
  have minus : sub32 0 2 = 4294967294 := by decide
  have product : u32 (4294967294 * boot.spc) = 4294967296 - 2 * boot.spc := by
    unfold u32
    omega
  have sector : boot.clusterSector 0 = boot.dataStart - 2 * boot.spc := by
    rw [FAT32BootSector.clusterSector, minus, product, u32]
    omega
  rw [FAT32BootSector.clusterLba, sector, u32_of_lt (by omega)]
  omega

theorem ataLba_missing (inside : s < boot.spc) :
    ataLba (boot.clusterLba 0 s) = boot.clusterLba 0 s := by
  have place := (clusterLba_missing wf inside).2
  have fits := wf.data_fits
  exact ataLba_of_lt (by omega)

/-- The sectors in front of the data area already hold the padded data. -/
def AlreadyStored (boot : FAT32BootSector) (buf : Bytes) (size : Nat) (disk : Disk) : Prop :=
  ∀ s < boot.spc, s * 512 < size →
    ataReadSector disk (boot.clusterLba 0 s) = dataSector buf size (s * 512)

theorem writtenDisk_missing (buf : Bytes) (size : Nat) (disk : Disk) :
    writtenDisk boot buf size 0 0 disk = disk ↔ AlreadyStored boot buf size disk := by
  have small := clusterSize_small boot
  constructor
  · intro unchanged s inside below
    have distinct : ∀ t t', 0 ≤ t → t < t' → t' < 0 + boot.spc →
        ataLba (u32 (boot.clusterSector 0 + t)) ≠ ataLba (u32 (boot.clusterSector 0 + t')) := by
      intro t t' _ less high same
      have left := ataLba_missing wf (by omega : t < boot.spc)
      have right := ataLba_missing wf (by omega : t' < boot.spc)
      rw [FAT32BootSector.clusterLba] at left right
      rw [left, right] at same
      have place := (clusterLba_missing wf (by omega : t < boot.spc)).1
      have place' := (clusterLba_missing wf (by omega : t' < boot.spc)).1
      rw [FAT32BootSector.clusterLba] at place place'
      omega
    have sector := writeSectors_contents buf disk distinct small (Nat.zero_le s)
      (by rw [Nat.zero_add]; exact inside) (by rw [Nat.sub_zero, Nat.zero_add]; exact below)
    rw [Nat.sub_zero, Nat.zero_add] at sector
    rw [writtenDisk] at unchanged
    rw [unchanged] at sector
    exact sector
  · intro stored
    apply writeSectors_unchanged buf disk small
    intro s _ high below
    rw [Nat.sub_zero, Nat.zero_add] at below ⊢
    exact stored s (by rw [Nat.zero_add] at high; exact high) below

end WellFormed

theorem freeClusters_card_le (boot : FAT32BootSector) (disk : Disk) :
    (freeClusters boot disk).card ≤ boot.totalClusters + 2 := by
  have all := Finset.card_filter_le (Finset.range (boot.totalClusters + 2))
    (fun cluster => 2 ≤ cluster ∧ fatEntry boot disk cluster = 0)
  rwa [Finset.card_range] at all

/-- A content that does not fit the sectors of cluster 0: no cluster is found for the rest, or the
first FAT entry ends up with the number of one. -/
theorem writeLoop_zeroChain (wf : st.boot.WellFormed) (clean : st.fatCacheDirty = false) (buf : Bytes)
    (long : st.boot.clusterSize < size) (enough : st.boot.totalClusters + 4 < fuel) :
    ∃ st', loop (writeTurn buf size) fuel ⟨0, 0, st⟩ = some st' ∧
      (((fatExtendChain 0 { st with disk := writtenDisk st.boot buf size 0 0 st.disk }).1 = 0x0FFFFFFF ∧
          st'.disk = writtenDisk st.boot buf size 0 0 st.disk) ∨
        ((fatExtendChain 0 { st with disk := writtenDisk st.boot buf size 0 0 st.disk }).1 ≠ 0x0FFFFFFF ∧
          st.boot.DataCluster (fatEntry st.boot st'.disk 0))) := by
  obtain ⟨fuel, rfl⟩ : ∃ more, fuel = more + 2 := ⟨fuel - 2, by omega⟩
  have again := writeTurn_again buf 0 (by decide) st (clusterSize_small st.boot) (by rw [Nat.zero_add]; exact long)
  rw [Nat.zero_add] at again
  have outcome := @fatExtendChain_clean 0
    { st with disk := writtenDisk st.boot buf size 0 0 st.disk } clean wf (Nat.succ_pos _)
  have boot := (fatExtendChain_kept 0 { st with disk := writtenDisk st.boot buf size 0 0 st.disk }).boot
  generalize fatExtendChain 0 { st with disk := writtenDisk st.boot buf size 0 0 st.disk } = extended
    at again outcome boot ⊢
  obtain ⟨n, mid⟩ := extended
  simp only at again outcome boot ⊢
  rcases outcome with ⟨failed, loaded⟩ | ⟨m, marked, data, _, nr, _, rfl, after, disk⟩
  · have leave := writeTurn_end buf size st.boot.clusterSize (by rw [failed]; decide : endOfChain ≤ n) mid
    exact ⟨mid, (loop_again again _).trans (loop_leave leave _), .inl ⟨failed, loaded.disk⟩⟩
  · -- the chain of cluster 0 has grown: its entry keeps the new cluster from here on
    have low := data.1
    have high := data.2
    have bound := wf.totalClusters_lt
    have entries : ∀ cluster, cluster < st.boot.totalClusters + 2 → fatEntry st.boot mid.disk cluster =
        if cluster = 0 then n else fatEntry st.boot (flushMark n marked).disk cluster := by
      intro cluster inRange
      rw [disk]
      exact fatEntry_linkedDisk wf (Nat.succ_pos _) data _ inRange
    have zero : fatEntry st.boot mid.disk 0 = n := by
      rw [entries 0 (Nat.succ_pos _), if_pos rfl]
    have end' : fatEntry st.boot mid.disk n = 0x0FFFFFFF := by
      rw [entries n data.2, if_neg (by omega)]
      exact fatEntry_flushMark st.boot nr
    have single : FatChain st.boot mid.disk n [n] :=
      ⟨.last (nextOf_last end'), fun cluster present => List.mem_singleton.mp present ▸ data⟩
    have bounded := freeClusters_card_le st.boot mid.disk
    have rest := @writeLoop_total mid n [n] (fuel + 1)
    rw [boot] at rest
    obtain ⟨st', tail, result, _, _, _, rewrites⟩ := rest wf
      (after.lagging (by rw [boot]; exact wf.layout)) buf single size st.boot.clusterSize
      (st.boot.totalClusters + 2) bounded (by omega)
    have kept := rewrites.entries 0 (Nat.succ_pos _) (by simp; omega) (by rw [zero]; omega)
    rw [zero] at kept
    exact ⟨st', (loop_again again _).trans result, .inr ⟨by omega, kept ▸ data⟩⟩

theorem writeLoop_missing (wf : st.boot.WellFormed) (lagging : Lagging st)
    (reserved : ¬ st.boot.DataCluster (fatEntry st.boot st.disk 0)) (buf : Bytes) (size : Nat)
    (enough : st.boot.totalClusters + 4 < fuel) :
    ∃ st', loop (writeTurn buf size) fuel ⟨0, 0, st⟩ = some st' ∧
      (st'.disk = st.disk ↔ AlreadyStored st.boot buf size st.disk ∧
        (size ≤ st.boot.clusterSize ∨ seenFree st = ∅)) := by
  have stored := writtenDisk_missing wf buf size st.disk
  rcases Nat.lt_or_ge st.boot.clusterSize size with long | last
  · have full : AlreadyStored st.boot buf size st.disk →
        ((fatExtendChain 0 { st with disk := writtenDisk st.boot buf size 0 0 st.disk }).1 = 0x0FFFFFFF ↔
          seenFree st = ∅) := by
      intro already
      rw [stored.mpr already]
      exact fatExtendChain_full lagging wf 0
    obtain ⟨st', result, outcome⟩ := writeLoop_zeroChain wf lagging.clean buf long enough
    refine ⟨st', result, ?_⟩
    rcases outcome with ⟨failed, disk⟩ | ⟨found, grown⟩
    · rw [disk, stored]
      exact ⟨fun already => ⟨already, .inr ((full already).mp failed)⟩, fun both => both.1⟩
    · constructor
      · intro unchanged
        rw [unchanged] at grown
        exact absurd grown reserved
      · rintro ⟨already, short | empty⟩
        · exact absurd short (Nat.not_le.mpr long)
        · exact absurd ((full already).mpr empty) found
  · obtain ⟨fuel, rfl⟩ : ∃ more, fuel = more + 1 := ⟨fuel - 1, by omega⟩
    refine ⟨_, loop_leave (writeTurn_leave buf 0 (by decide) st (clusterSize_small st.boot) (by omega)) _, ?_⟩
    simp only [stored, last, true_or, and_true]

/-- A save to a missing file leaves the disk unchanged exactly when the sectors in front of the data area
already hold the data and the chain of cluster 0 does not grow, for lack of data or of a cluster that the driver
sees as free. -/
theorem fatWriteData_missing (wf : st.boot.WellFormed) (lagging : Lagging st)
    (reserved : ¬ st.boot.DataCluster (fatEntry st.boot st.disk 0))
    (directory : FatChain st.boot st.disk st.cwdCluster dirs)
    (absent : firstHit st.boot st.disk (Sector.slotMatches name) dirs = none)
    (buf : Bytes) (size : Nat) :
    ∃ enough, ∀ fuel, enough ≤ fuel → ∃ st', fatWriteData fuel name buf size st = some st' ∧
      (st'.disk = st.disk ↔ AlreadyStored st.boot buf size st.disk ∧
        (size ≤ st.boot.clusterSize ∨ seenFree (searched name dirs st) = ∅)) := by
  refine ⟨dirs.length + st.boot.totalClusters + 5, fun fuel enough => ?_⟩
  have walk := locate_searched lagging directory (by omega : dirs.length ≤ fuel) name
  have loaded := searched_loaded lagging.clean name dirs
  have lagging' := lagging.loaded (loaded.kprintf "Nicht genügend Speicherplatz!\n")
  have seen := seenFree_kprintf "Nicht genügend Speicherplatz!\n" (searched name dirs st)
  rw [fatWriteData, walk, absent]
  generalize searched name dirs st = mid at loaded lagging' seen ⊢
  obtain ⟨_, _, _, _, nr, cached, dirty, console⟩ := mid
  obtain ⟨⟨rfl, rfl, rfl⟩, rfl, -, -⟩ := loaded
  rw [← seen]
  exact writeLoop_missing (by exact wf) lagging' reserved buf size (by simp only [FatState.kprintf]; omega)

theorem emptyVolume_directory : FatChain sampleBoot emptyVolume 2 [2] :=
  ⟨.last (nextOf_last (by decide +kernel)), by decide⟩

theorem emptyVolume_absent : firstHit sampleBoot emptyVolume (Sector.slotMatches [0x41]) [2] = none :=
  Option.map_eq_none_iff.mp (by decide +kernel :
    (firstHit sampleBoot emptyVolume (Sector.slotMatches [0x41]) [2]).map Hit.slot = none)

theorem fatWriteData_missing_emptyVolume :
    ∃ enough, ∀ fuel, enough ≤ fuel → ∃ st',
      fatWriteData fuel [0x41] UInt8.ofNat 600 (mounted emptyVolume) = some st' ∧
        (st'.disk = (mounted emptyVolume).disk ↔
          AlreadyStored (mounted emptyVolume).boot UInt8.ofNat 600 (mounted emptyVolume).disk ∧
            (600 ≤ (mounted emptyVolume).boot.clusterSize ∨
              seenFree (searched [0x41] [2] (mounted emptyVolume)) = ∅)) := by
  have boot : (mounted emptyVolume).boot = sampleBoot := (mounted_image _ _ _).1
  have directory := emptyVolume_directory
  have absent := emptyVolume_absent
  rw [← boot] at directory absent
  have wf : (mounted emptyVolume).boot.WellFormed := by
    rw [boot]
    exact sampleBoot_wellFormed
  exact fatWriteData_missing wf ((mounted_coherent emptyVolume).lagging wf.layout) (by decide +kernel) directory absent UInt8.ofNat 600

/-- Saving five bytes under a name the root directory does not have overwrites
the boot sector of the partition, which lies two sectors in front of cluster 2. -/
theorem fatWriteData_missing_overwrites :
    FatChain sampleBoot emptyVolume (mounted emptyVolume).cwdCluster [2] ∧
      firstHit sampleBoot emptyVolume (Sector.slotMatches [0x41]) [2] = none ∧
      ∃ st', fatWriteData 2 [0x41] (fun _ => 0x58) 5 (mounted emptyVolume) = some st' ∧
        st'.disk fat32PartitionStart ≠ emptyVolume fat32PartitionStart := by
  refine ⟨emptyVolume_directory, emptyVolume_absent, ?_⟩
  obtain ⟨st', result, byte⟩ : ∃ st',
      fatWriteData 2 [0x41] (fun _ => 0x58) 5 (mounted emptyVolume) = some st' ∧
        st'.disk fat32PartitionStart 0 = 0x58 := Option.map_eq_some_iff.mp (by decide +kernel)
  refine ⟨st', result, ?_⟩
  intro same
  rw [same] at byte
  exact absurd byte (by decide +kernel)

end LivlyOS.Fs
