import LivlyOS.Fs.FatTable

namespace LivlyOS.Fs

open LivlyOS.Lib

/-- Every byte that changes is one of the given ones. -/
def ChangesOnly (touched : Nat → Nat → Prop) (disk disk' : Disk) : Prop :=
  ∀ lba (position : Fin 512), ¬touched lba position → disk' lba position = disk lba position

namespace ChangesOnly

variable {touched touched' : Nat → Nat → Prop} {disk mid disk' : Disk}

theorem refl (touched : Nat → Nat → Prop) (disk : Disk) : ChangesOnly touched disk disk := fun _ _ _ => rfl

theorem trans (first : ChangesOnly touched disk mid) (second : ChangesOnly touched mid disk') :
    ChangesOnly touched disk disk' :=
  fun lba position outside => (second lba position outside).trans (first lba position outside)

theorem mono (changes : ChangesOnly touched disk disk') (more : ∀ lba position, touched lba position → touched' lba position) :
    ChangesOnly touched' disk disk' :=
  fun lba position outside => changes lba position (mt (more lba position) outside)

/-- A sector write changes the bytes in which the buffer differs. -/
theorem write (lba : Nat) {buf : Sector}
    (same : ∀ position : Fin 512, ¬touched (ataLba lba) position → buf position = ataReadSector disk lba position) :
    ChangesOnly touched disk (ataWriteSector disk lba buf) := by
  intro other position outside
  unfold ataWriteSector
  by_cases here : other = ataLba lba
  · subst here
    rw [Function.update_self]
    exact same position outside
  · rw [Function.update_of_ne here]

theorem read (changes : ChangesOnly touched disk disk') (lba : Nat)
    (outside : ∀ position < 512, ¬touched (ataLba lba) position) : ataReadSector disk' lba = ataReadSector disk lba := by
  funext position
  exact changes (ataLba lba) position (outside position position.isLt)

end ChangesOnly

/-- The four bytes of the FAT entry of a cluster. -/
def EntryBytes (boot : FAT32BootSector) (cluster lba position : Nat) : Prop :=
  lba = boot.fatSector cluster ∧ 4 * entryIndex cluster ≤ position ∧ position < 4 * entryIndex cluster + 4

/-- The 32 bytes of a directory slot. -/
def SlotBytes (boot : FAT32BootSector) (cluster s slot lba position : Nat) : Prop :=
  lba = ataLba (boot.clusterLba cluster s) ∧ 32 * slot ≤ position ∧ position < 32 * slot + 32

/-- The sectors of a cluster. -/
def ClusterBytes (boot : FAT32BootSector) (cluster lba _position : Nat) : Prop :=
  ∃ s < boot.spc, lba = ataLba (boot.clusterLba cluster s)

variable {boot : FAT32BootSector}

theorem Sector.bytes_fin (sector : Sector) (position : Fin 512) : sector.bytes position = sector position := by
  rw [bytes, dif_pos position.isLt]

theorem Sector.setEntry_outside (sector : Sector) (index value : Nat) (position : Fin 512)
    (outside : position.val < 4 * index ∨ 4 * index + 4 ≤ position.val) :
    sector.setEntry index value position = sector position := by
  have same := putWord_outside sector.bytes value outside
  unfold setEntry ofBytes
  rw [same, bytes_fin]

theorem setFatEntry_changes (cluster value : Nat) (disk : Disk) :
    ChangesOnly (EntryBytes boot cluster) disk (setFatEntry boot cluster value disk) := by
  apply ChangesOnly.write
  intro position outside
  apply Sector.setEntry_outside
  by_contra inside
  apply outside
  rw [boot.ataLba_fatSector]
  exact ⟨rfl, by omega⟩

theorem EntryBytes.offData (wf : boot.WellFormed) (inRange : cluster < boot.totalClusters + 2)
    (data : boot.DataCluster other) (inside : s < boot.spc) (position : Nat) :
    ¬EntryBytes boot cluster (ataLba (boot.clusterLba other s)) position := by
  intro inEntry
  exact wf.layout.disjoint _ other s (wf.fatSector_isFat inRange) data inside inEntry.1

theorem zeroSectors_changes (cluster : Nat) (disk : Disk) :
    ChangesOnly (ClusterBytes boot cluster) disk (zeroSectors (boot.clusterSector cluster) boot.spc disk) := by
  have part : ∀ count ≤ boot.spc, ChangesOnly (ClusterBytes boot cluster) disk
      (zeroSectors (boot.clusterSector cluster) count disk) := by
    intro count
    induction count with
    | zero => exact fun _ => .refl _ disk
    | succ count ih =>
      intro inside
      apply (ih (Nat.le_of_lt inside)).trans
      apply ChangesOnly.write
      intro position outside
      exact absurd ⟨count, inside, rfl⟩ outside
  exact part boot.spc (Nat.le_refl _)

end LivlyOS.Fs
