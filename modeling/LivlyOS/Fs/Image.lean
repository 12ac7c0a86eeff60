import LivlyOS.Fs.Geometry

namespace LivlyOS.Fs

open LivlyOS.Lib

/-- The boot sector with the given fields. -/
def FAT32BootSector.toSector (boot : FAT32BootSector) : Sector :=
  Sector.ofBytes (putWord (putWord (putWord (putWord (putWord (putWord (fun _ => 0)
    13 1 boot.sectorsPerCluster.toNat) 14 2 boot.reservedSectors.toNat) 16 1 boot.fatCount.toNat)
    32 4 boot.totalSectors32.toNat) 36 4 boot.fatSize32.toNat) 44 4 boot.rootCluster.toNat)

theorem FAT32BootSector.ofSector_toSector (boot : FAT32BootSector) :
    FAT32BootSector.ofSector boot.toSector = boot := by
  have spc : boot.sectorsPerCluster.toNat < 256 := UInt8.toNat_lt _
  have reserved : boot.reservedSectors.toNat < 65536 := UInt16.toNat_lt _
  have copies : boot.fatCount.toNat < 256 := UInt8.toNat_lt _
  have total : boot.totalSectors32.toNat < 4294967296 := UInt32.toNat_lt _
  have size : boot.fatSize32.toNat < 4294967296 := UInt32.toNat_lt _
  have root : boot.rootCluster.toNat < 4294967296 := UInt32.toNat_lt _
  simp (disch := omega) only [ofSector, toSector, Sector.word_ofBytes, word_putWord_other,
    word_putWord_same, Nat.reducePow, Nat.mod_eq_of_lt, UInt8.ofNat_toNat, UInt16.ofNat_toNat,
    UInt32.ofNat_toNat]

/-- One sector of a FAT with the given entries. -/
def tableSector (table : Nat → Nat) (number : Nat) : Sector :=
  Sector.ofBytes (fun position =>
    UInt8.ofNat (table (128 * number + position / 4) / 256 ^ (position % 4)))

theorem tableSector_entry (table : Nat → Nat) (number : Nat) (inside : index < 128)
    (small : table (128 * number + index) < 4294967296) :
    (tableSector table number).entry index = table (128 * number + index) := by
  rw [Sector.entry, tableSector, Sector.word_ofBytes (by omega)]
  have stored := word_putWord_same (fun _ => 0) (4 * index) 4 (table (128 * number + index))
  have fits : table (128 * number + index) % 256 ^ 4 = table (128 * number + index) := Nat.mod_eq_of_lt small
  rw [fits] at stored
  rw [← stored]
  apply word_congr
  intro position low high
  have quotient : position / 4 = index := by omega
  have rest : position % 4 = position - 4 * index := by omega
  rw [putWord, if_pos ⟨low, high⟩, quotient, rest]

/-- A disk with one partition. -/
def image (boot : FAT32BootSector) (table : Nat → Nat) (data : Nat → Nat → Sector) : Disk := fun lba =>
  if lba = fat32PartitionStart then boot.toSector
  else if boot.fatStart ≤ lba ∧ lba < boot.fatStart + boot.fatSize32.toNat then
    tableSector table (lba - boot.fatStart)
  else if boot.dataStart ≤ lba then
    data ((lba - boot.dataStart) / boot.spc + 2) ((lba - boot.dataStart) % boot.spc)
  else Sector.zero

theorem mounted_image (boot : FAT32BootSector) (table : Nat → Nat) (data : Nat → Nat → Sector) :
    (mounted (image boot table data)).boot = boot ∧
      (mounted (image boot table data)).cwdCluster = boot.rootCluster.toNat ∧
      (mounted (image boot table data)).disk = image boot table data := by
  have sector : ataReadSector (image boot table data) fat32PartitionStart = boot.toSector := by
    rw [ataReadSector, ataLba_of_lt (by decide), image, if_pos rfl]
  simp only [mounted, fatInit, powerOn, sector, FAT32BootSector.ofSector_toSector, and_self]

/-- A lookup table with a default. -/
def assigned (default : α) (pairs : List (Nat × α)) (key : Nat) : α := (pairs.lookup key).getD default

/-- Eighteen clusters of one sector each, one FAT of one sector. -/
def sampleBoot : FAT32BootSector where
  sectorsPerCluster := 1
  reservedSectors := 1
  fatCount := 1
  totalSectors32 := 20
  fatSize32 := 1
  rootCluster := 2

theorem sampleBoot_wellFormed : sampleBoot.WellFormed :=
  ⟨by decide, by decide, by decide, by decide, by decide⟩

end LivlyOS.Fs
