import LivlyOS.Fs.Fat
import Mathlib.Tactic.Ring
import Mathlib.Tactic.NormNum

/-! Where the FAT and the clusters lie on the disk, and what a well-formed
volume guarantees about these places. -/

namespace LivlyOS.Fs

open LivlyOS.Lib

theorem ataLba_of_lt (small : lba < 268435456) : ataLba lba = lba := Nat.mod_eq_of_lt small

namespace FAT32BootSector

variable (boot : FAT32BootSector)

theorem fatStart_eq : boot.fatStart = 2048 + boot.reservedSectors.toNat := by
  have bound : boot.reservedSectors.toNat < 65536 := UInt16.toNat_lt _
  rw [fatStart, fat32PartitionStart, u32_of_lt (by omega)]

theorem fatSector_eq (cluster : Nat) :
    boot.fatSector cluster = boot.fatStart + u32 (cluster * 4) / 512 := by
  have bound : boot.reservedSectors.toNat < 65536 := UInt16.toNat_lt _
  have low := u32_lt (cluster * 4)
  have start := boot.fatStart_eq
  rw [fatSector, u32_of_lt (by omega)]

theorem fatSector_lt (cluster : Nat) : boot.fatSector cluster < 268435456 := by
  have bound : boot.reservedSectors.toNat < 65536 := UInt16.toNat_lt _
  have low := u32_lt (cluster * 4)
  have start := boot.fatStart_eq
  have place := boot.fatSector_eq cluster
  omega

theorem ataLba_fatSector (cluster : Nat) : ataLba (boot.fatSector cluster) = boot.fatSector cluster :=
  ataLba_of_lt (boot.fatSector_lt cluster)

/-- Sectors of the first copy of the FAT, the one the driver uses. -/
def IsFatSector (lba : Nat) : Prop :=
  boot.fatStart ≤ lba ∧ lba < boot.fatStart + boot.fatSize32.toNat ∧ lba < 268435456

/-- Clusters 2 .. total_clusters + 1. -/
def DataCluster (cluster : Nat) : Prop := 2 ≤ cluster ∧ cluster < boot.totalClusters + 2

instance (lba : Nat) : Decidable (boot.IsFatSector lba) :=
  inferInstanceAs (Decidable (_ ∧ _ ∧ _))

instance (cluster : Nat) : Decidable (boot.DataCluster cluster) :=
  inferInstanceAs (Decidable (_ ∧ _))

/-- The `s`-th sector of a cluster. -/
def clusterLba (cluster s : Nat) : Nat := u32 (boot.clusterSector cluster + s)

theorem clusterSector_lt (cluster : Nat) : boot.clusterSector cluster < 4294967296 := by
  rw [clusterSector]
  exact u32_lt _

theorem clusterLba_zero (cluster : Nat) : boot.clusterLba cluster 0 = boot.clusterSector cluster := by
  rw [clusterLba, Nat.add_zero, u32_of_lt (boot.clusterSector_lt cluster)]

/-- The FAT has an entry for every data cluster and lies outside the data area. -/
structure FatLayout : Prop where
  spc_pos : 1 ≤ boot.spc
  covers : (boot.totalClusters + 2) * 4 ≤ boot.fatSize32.toNat * 512
  disjoint : ∀ lba cluster s, boot.IsFatSector lba → boot.DataCluster cluster → s < boot.spc →
    ataLba (boot.clusterLba cluster s) ≠ lba

/-- A FAT32 volume inside the sectors the drive can address. -/
structure WellFormed : Prop where
  spc_pos : 1 ≤ boot.spc
  copies : 1 ≤ boot.fatCount.toNat
  metadata : boot.reservedSectors.toNat + boot.fatCount.toNat * boot.fatSize32.toNat ≤
    boot.totalSectors32.toNat
  onDisk : fat32PartitionStart + boot.totalSectors32.toNat ≤ 268435456
  covers : (boot.totalClusters + 2) * 4 ≤ boot.fatSize32.toNat * 512

variable {boot}

theorem FatLayout.fatSector_isFat (layout : boot.FatLayout) {cluster : Nat}
    (inRange : cluster < boot.totalClusters + 2) : boot.IsFatSector (boot.fatSector cluster) := by
  have covers := layout.covers
  have cut : u32 (cluster * 4) ≤ cluster * 4 := Nat.mod_le _ _
  have place := boot.fatSector_eq cluster
  exact ⟨by omega, by omega, boot.fatSector_lt cluster⟩

namespace WellFormed

variable (wf : boot.WellFormed)
include wf

theorem dataStart_eq : boot.dataStart =
    2048 + boot.reservedSectors.toNat + boot.fatCount.toNat * boot.fatSize32.toNat := by
  have start := boot.fatStart_eq
  have metadata := wf.metadata
  have onDisk := wf.onDisk
  rw [fat32PartitionStart] at onDisk
  rw [dataStart, u32_of_lt (by omega : boot.fatCount.toNat * boot.fatSize32.toNat < _), start,
    u32_of_lt (by omega)]

theorem fat_before_data : boot.fatStart + boot.fatSize32.toNat ≤ boot.dataStart := by
  have single : 1 * boot.fatSize32.toNat ≤ boot.fatCount.toNat * boot.fatSize32.toNat :=
    Nat.mul_le_mul_right _ wf.copies
  have start := boot.fatStart_eq
  have data := wf.dataStart_eq
  omega

theorem data_fits : boot.dataStart + boot.totalClusters * boot.spc ≤ 268435456 := by
  have data := wf.dataStart_eq
  have metadata := wf.metadata
  have onDisk := wf.onDisk
  rw [fat32PartitionStart] at onDisk
  have inner : sub32 boot.dataStart fat32PartitionStart =
      boot.reservedSectors.toNat + boot.fatCount.toNat * boot.fatSize32.toNat := by
    rw [fat32PartitionStart, sub32_of_le (by omega) (by omega)]
    omega
  have outer := sub32_of_le metadata (by omega : boot.totalSectors32.toNat < 4294967296)
  have product : boot.totalClusters * boot.spc ≤ boot.totalSectors32.toNat -
      (boot.reservedSectors.toNat + boot.fatCount.toNat * boot.fatSize32.toNat) := by
    rw [totalClusters, inner, outer]
    exact Nat.div_mul_le_self _ _
  omega

theorem totalClusters_lt : boot.totalClusters + 2 < 268435447 := by
  have fits := wf.data_fits
  have data := wf.dataStart_eq
  have single : boot.totalClusters * 1 ≤ boot.totalClusters * boot.spc :=
    Nat.mul_le_mul_left _ wf.spc_pos
  omega

theorem scanLength_eq : boot.scanLength = boot.totalClusters := by
  have small := wf.totalClusters_lt
  rw [scanLength, u32_of_lt (by omega)]
  omega

/-- Data clusters lie one after the other behind the start of the data area. -/
theorem clusterLba_eq {cluster s : Nat} (data : boot.DataCluster cluster) (inside : s < boot.spc) :
    boot.clusterLba cluster s = boot.dataStart + (cluster - 2) * boot.spc + s ∧
      boot.clusterLba cluster s < boot.dataStart + boot.totalClusters * boot.spc := by
  obtain ⟨low, high⟩ := data
  have fits := wf.data_fits
  have block : (cluster - 2 + 1) * boot.spc ≤ boot.totalClusters * boot.spc :=
    Nat.mul_le_mul_right _ (by omega)
  rw [Nat.add_mul, Nat.one_mul] at block
  have small := wf.totalClusters_lt
  have minus := sub32_of_le low (by omega : cluster < 4294967296)
  have sector : boot.clusterSector cluster = boot.dataStart + (cluster - 2) * boot.spc := by
    rw [clusterSector, minus, u32_of_lt (by omega : (cluster - 2) * boot.spc < _), u32_of_lt (by omega)]
  rw [clusterLba, sector, u32_of_lt (by omega)]
  exact ⟨rfl, by omega⟩

theorem clusterLba_lt {cluster s : Nat} (data : boot.DataCluster cluster) (inside : s < boot.spc) :
    boot.clusterLba cluster s < 268435456 := by
  have place := (wf.clusterLba_eq data inside).2
  have fits := wf.data_fits
  omega

theorem ataLba_clusterLba {cluster s : Nat} (data : boot.DataCluster cluster)
    (inside : s < boot.spc) : ataLba (boot.clusterLba cluster s) = boot.clusterLba cluster s :=
  ataLba_of_lt (wf.clusterLba_lt data inside)

/-- Different clusters or different positions are different sectors. -/
theorem clusterLba_inj {cluster other s t : Nat} (data : boot.DataCluster cluster)
    (otherData : boot.DataCluster other) (inside : s < boot.spc) (otherInside : t < boot.spc)
    (same : boot.clusterLba cluster s = boot.clusterLba other t) : cluster = other ∧ s = t := by
  have left := (wf.clusterLba_eq data inside).1
  have right := (wf.clusterLba_eq otherData otherInside).1
  have sum : s + boot.spc * (cluster - 2) = t + boot.spc * (other - 2) := by
    rw [Nat.mul_comm boot.spc, Nat.mul_comm boot.spc]
    omega
  have quotient : cluster - 2 = other - 2 := by
    have divided := congrArg (· / boot.spc) sum
    simpa only [Nat.add_mul_div_left _ _ wf.spc_pos, Nat.div_eq_of_lt inside,
      Nat.div_eq_of_lt otherInside, Nat.zero_add] using divided
  obtain ⟨low, _⟩ := data
  obtain ⟨otherLow, _⟩ := otherData
  rw [quotient] at sum
  exact ⟨by omega, by omega⟩

theorem layout : boot.FatLayout where
  spc_pos := wf.spc_pos
  covers := wf.covers
  disjoint := by
    intro lba cluster s fat data inside
    have place := (wf.clusterLba_eq data inside).1
    have before := wf.fat_before_data
    obtain ⟨_, below, _⟩ := fat
    rw [wf.ataLba_clusterLba data inside]
    omega

theorem fatSector_isFat {cluster : Nat} (inRange : cluster < boot.totalClusters + 2) :
    boot.IsFatSector (boot.fatSector cluster) :=
  wf.layout.fatSector_isFat inRange

/-- A cluster number of the volume determines its FAT entry. -/
theorem entry_inj {cluster other : Nat} (inRange : cluster < boot.totalClusters + 2)
    (otherInRange : other < boot.totalClusters + 2)
    (sector : boot.fatSector cluster = boot.fatSector other)
    (index : entryIndex cluster = entryIndex other) : cluster = other := by
  have small := wf.totalClusters_lt
  rw [boot.fatSector_eq, boot.fatSector_eq, u32_of_lt (by omega), u32_of_lt (by omega)] at sector
  rw [entryIndex, entryIndex, u32_of_lt (by omega), u32_of_lt (by omega)] at index
  omega

end WellFormed

end FAT32BootSector

end LivlyOS.Fs
