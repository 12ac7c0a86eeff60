import LivlyOS.Lib.Bytes

/-! Sectors, the ATA disk, the boot sector of the FAT32 partition and the
static variables of the driver. Sector transfers succeed: a read returns the
sector the drive holds, a write replaces it. -/

namespace LivlyOS.Fs

open LivlyOS.Lib

/-- `uint16_t buf[256]`: 512 bytes. -/
abbrev Sector := Fin 512 → UInt8

/-- Sector contents by the sector number the drive receives. -/
abbrev Disk := Nat → Sector

namespace Sector

def bytes (sector : Sector) : Bytes := fun position =>
  if inside : position < 512 then sector ⟨position, inside⟩ else 0

def ofBytes (bytes : Bytes) : Sector := fun position => bytes position

def zero : Sector := fun _ => 0

theorem bytes_ofBytes {bytes : Bytes} {position : Nat} (inside : position < 512) :
    (ofBytes bytes).bytes position = bytes position := by
  simp [Sector.bytes, ofBytes, inside]

@[simp] theorem bytes_zero (position : Nat) : zero.bytes position = 0 := by
  simp [Sector.bytes, zero]

theorem word_ofBytes {bytes : Bytes} {offset width : Nat} (inside : offset + width ≤ 512) :
    word (ofBytes bytes).bytes offset width = word bytes offset width :=
  word_congr (fun _ _ below => bytes_ofBytes (by omega))

/-- `((uint32_t*)buf)[index]`. -/
def entry (sector : Sector) (index : Nat) : Nat := word sector.bytes (4 * index) 4

/-- `((uint32_t*)buf)[index] = value`. -/
def setEntry (sector : Sector) (index value : Nat) : Sector :=
  ofBytes (putWord sector.bytes (4 * index) 4 value)

theorem entry_setEntry_same (sector : Sector) {index value : Nat} (inside : index < 128)
    (small : value < 4294967296) : (sector.setEntry index value).entry index = value := by
  rw [entry, setEntry, word_ofBytes (by omega), word_putWord_same]
  exact Nat.mod_eq_of_lt small

theorem entry_setEntry_other (sector : Sector) {index other value : Nat} (inside : other < 128)
    (different : other ≠ index) : (sector.setEntry index value).entry other = sector.entry other := by
  rw [entry, setEntry, word_ofBytes (by omega), word_putWord_other _ _ (by omega), entry]

end Sector

def fat32PartitionStart : Nat := 2048

/-- The four LBA registers carry 28 bits of the sector number. -/
def ataLba (lba : Nat) : Nat := lba % 268435456

def ataReadSector (disk : Disk) (lba : Nat) : Sector := disk (ataLba lba)

def ataWriteSector (disk : Disk) (lba : Nat) (buf : Sector) : Disk :=
  Function.update disk (ataLba lba) buf

theorem ataReadSector_same (disk : Disk) {lba other : Nat} (buf : Sector)
    (same : ataLba other = ataLba lba) : ataReadSector (ataWriteSector disk lba buf) other = buf := by
  simp [ataReadSector, ataWriteSector, same]

theorem ataReadSector_other (disk : Disk) {lba other : Nat} (buf : Sector)
    (different : ataLba other ≠ ataLba lba) :
    ataReadSector (ataWriteSector disk lba buf) other = ataReadSector disk other := by
  simp [ataReadSector, ataWriteSector, different]

theorem ataWriteSector_unchanged (disk : Disk) {lba : Nat} {buf : Sector}
    (same : ataReadSector disk lba = buf) : ataWriteSector disk lba buf = disk := by
  rw [ataWriteSector, ← same, ataReadSector, Function.update_eq_self]

/-- The fields of `FAT32BootSector` that the driver uses. -/
structure FAT32BootSector where
  sectorsPerCluster : UInt8
  reservedSectors : UInt16
  fatCount : UInt8
  totalSectors32 : UInt32
  fatSize32 : UInt32
  rootCluster : UInt32
deriving DecidableEq

/-- `*(FAT32BootSector*)buf`, a packed structure. -/
def FAT32BootSector.ofSector (buf : Sector) : FAT32BootSector where
  sectorsPerCluster := UInt8.ofNat (word buf.bytes 13 1)
  reservedSectors := UInt16.ofNat (word buf.bytes 14 2)
  fatCount := UInt8.ofNat (word buf.bytes 16 1)
  totalSectors32 := UInt32.ofNat (word buf.bytes 32 4)
  fatSize32 := UInt32.ofNat (word buf.bytes 36 4)
  rootCluster := UInt32.ofNat (word buf.bytes 44 4)

namespace FAT32BootSector

variable (boot : FAT32BootSector)

/-- `boot.sectors_per_cluster` after integer promotion. -/
def spc : Nat := boot.sectorsPerCluster.toNat

/-- First sector of the FAT. `fat_init` computes it once. -/
def fatStart : Nat := u32 (fat32PartitionStart + boot.reservedSectors.toNat)

/-- First sector of the data area, where cluster 2 lies. `fat_init` computes it once. -/
def dataStart : Nat := u32 (boot.fatStart + u32 (boot.fatCount.toNat * boot.fatSize32.toNat))

/-- `total_clusters` of `fat_alloc_cluster` and `fat_extend_chain`. -/
def totalClusters : Nat :=
  sub32 boot.totalSectors32.toNat (sub32 boot.dataStart fat32PartitionStart) / boot.spc

/-- `data_start + (cluster - 2) * boot.sectors_per_cluster`. -/
def clusterSector (cluster : Nat) : Nat := u32 (boot.dataStart + u32 (sub32 cluster 2 * boot.spc))

/-- `fat_start + (cluster * 4) / 512`. -/
def fatSector (cluster : Nat) : Nat := u32 (boot.fatStart + u32 (cluster * 4) / 512)

/-- `cluster_size`: bytes of one cluster. -/
def clusterSize : Nat := boot.spc * 512

end FAT32BootSector

/-- `(cluster * 4 % 512) / 4`. -/
def entryIndex (cluster : Nat) : Nat := u32 (cluster * 4) % 512 / 4

theorem entryIndex_lt (cluster : Nat) : entryIndex cluster < 128 := by
  unfold entryIndex
  omega

/-- The static variables of `fat.c`, the disk and the console output.
`cwdPath` continues behind the 256 bytes of the array. -/
structure FatState where
  disk : Disk
  boot : FAT32BootSector
  cwdCluster : Nat
  cwdPath : Bytes
  cachedFatSectorNr : Nat
  cachedFatBuf : Sector
  fatCacheDirty : Bool
  console : List String

namespace FatState

def spc (st : FatState) : Nat := st.boot.spc

/-- One `kprintf` call. -/
def kprintf (text : String) (st : FatState) : FatState :=
  { st with console := st.console ++ [text] }

end FatState

/-- The static initialisers of `fat.c` in front of a disk. -/
def powerOn (disk : Disk) : FatState where
  disk := disk
  boot := ⟨0, 0, 0, 0, 0, 0⟩
  cwdCluster := 0
  cwdPath := fun _ => 0
  cachedFatSectorNr := 0xFFFFFFFF
  cachedFatBuf := Sector.zero
  fatCacheDirty := false
  console := []

def fatInit (st : FatState) : FatState :=
  let boot := FAT32BootSector.ofSector (ataReadSector st.disk fat32PartitionStart)
  { st with
    boot := boot
    cwdCluster := boot.rootCluster.toNat
    cwdPath := putBytes st.cwdPath 0 ['/'.toUInt8, 0] }

/-- The driver after `fat_init` at start-up. -/
def mounted (disk : Disk) : FatState := fatInit (powerOn disk)

end LivlyOS.Fs
