import LivlyOS.Fs.Volume

/-! The file allocation table through the one-sector write-back cache:
`fat_cache_flush`, `fat_next_cluster`, `fat_alloc_cluster` and
`fat_extend_chain`. -/

namespace LivlyOS.Fs

open LivlyOS.Lib

/-- FAT values from here on end a chain. -/
def endOfChain : Nat := 0x0FFFFFF8

def fatCacheFlush (st : FatState) : FatState :=
  if st.fatCacheDirty then
    { st with
      disk := ataWriteSector st.disk st.cachedFatSectorNr st.cachedFatBuf
      fatCacheDirty := false }
  else st

/-- The block `if (fat_sector != cached_fat_sector_nr) { .. }` that stands in
front of every access to the cached sector. -/
def fatCacheLoad (sector : Nat) (st : FatState) : FatState :=
  if sector ≠ st.cachedFatSectorNr then
    { fatCacheFlush st with
      cachedFatSectorNr := sector
      cachedFatBuf := ataReadSector (fatCacheFlush st).disk sector }
  else st

/-- Bring the sector with the entry of a cluster into the cache. -/
def fatCacheEntry (cluster : Nat) (st : FatState) : FatState :=
  fatCacheLoad (st.boot.fatSector cluster) st

/-- `fat[entry_index] = value; fat_cache_dirty = 1;` -/
def fatCachePut (index value : Nat) (st : FatState) : FatState :=
  { st with
    cachedFatBuf := st.cachedFatBuf.setEntry index value
    fatCacheDirty := true }

def fatNextCluster (cluster : Nat) (st : FatState) : Nat × FatState :=
  ((fatCacheEntry cluster st).cachedFatBuf.entry (entryIndex cluster) &&& 0x0FFFFFFF,
    fatCacheEntry cluster st)

/-- Take the free entry `i` in the cached sector and link `prev` to it. -/
def allocMark (i prev : Nat) (st : FatState) : FatState :=
  let st := fatCachePut (entryIndex i) 0x0FFFFFFF st
  if prev ≠ 0 then fatCachePut (entryIndex prev) i (fatCacheEntry prev st) else st

/-- The loop `for (i = 2; i < total_clusters + 2 && count > 0; i++)` of
`fat_alloc_cluster` with `remaining` values of `i` to go. -/
def allocScan : (remaining : Nat) → (i count prev first : Nat) → FatState → Nat × FatState
  | 0, _, _, _, first, st => (first, st)
  | remaining + 1, i, count, prev, first, st =>
    if count = 0 then (first, st)
    else if (fatCacheEntry i st).cachedFatBuf.entry (entryIndex i) = 0 then
      allocScan remaining (i + 1) (count - 1) i (if first = 0 then i else first)
        (allocMark i prev (fatCacheEntry i st))
    else allocScan remaining (i + 1) count prev first (fatCacheEntry i st)

/-- Number of loop turns of `for (i = 2; i < total_clusters + 2; i++)`. -/
def FAT32BootSector.scanLength (boot : FAT32BootSector) : Nat := u32 (boot.totalClusters + 2) - 2

/-- `(size + cluster_size - 1) / cluster_size`. -/
def FAT32BootSector.clusterCount (boot : FAT32BootSector) (size : Nat) : Nat :=
  sub32 (u32 (size + boot.clusterSize)) 1 / boot.clusterSize

def fatAllocCluster (size : Nat) (st : FatState) : Nat × FatState :=
  let scan := allocScan st.boot.scanLength 2 (st.boot.clusterCount size) 0 0 st
  (scan.1, fatCacheFlush scan.2)

/-- Write `count` sectors of zeros from `sektor` on. -/
def zeroSectors (sektor : Nat) : (count : Nat) → Disk → Disk
  | 0, disk => disk
  | count + 1, disk => ataWriteSector (zeroSectors sektor count disk) (u32 (sektor + count)) Sector.zero

/-- Mark the free entry `i` in the cached sector, write it back at once and
zero the cluster. -/
def extendMark (i : Nat) (st : FatState) : FatState :=
  let st := fatCacheFlush (fatCachePut (entryIndex i) 0x0FFFFFFF st)
  { st with disk := zeroSectors (st.boot.clusterSector i) st.boot.spc st.disk }

/-- The search loop of `fat_extend_chain`: the new cluster, or nothing when
every entry is taken. -/
def extendScan : (remaining : Nat) → (i : Nat) → FatState → Option Nat × FatState
  | 0, _, st => (none, st)
  | remaining + 1, i, st =>
    if (fatCacheEntry i st).cachedFatBuf.entry (entryIndex i) = 0 then
      (some i, extendMark i (fatCacheEntry i st))
    else extendScan remaining (i + 1) (fatCacheEntry i st)

def fatExtendChain (prevCluster : Nat) (st : FatState) : Nat × FatState :=
  let scan := extendScan st.boot.scanLength 2 st
  match scan.1 with
  | none => (0x0FFFFFFF, scan.2.kprintf "fat_extend_chain: Kein freier Cluster!\n")
  | some newCluster =>
    (newCluster,
      fatCacheFlush (fatCachePut (entryIndex prevCluster) newCluster (fatCacheEntry prevCluster scan.2)))

end LivlyOS.Fs
