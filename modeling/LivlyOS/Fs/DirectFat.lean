import LivlyOS.Fs.Cache
import LivlyOS.Fs.Image

/-! A FAT without a cache: each entry is read and written on disk directly.
The cached functions compute the same values and leave the same disk. -/

namespace LivlyOS.Fs

open LivlyOS.Lib

variable (boot : FAT32BootSector)

/-- The 32-bit FAT entry of a cluster on disk. -/
def fatEntry (disk : Disk) (cluster : Nat) : Nat :=
  (ataReadSector disk (boot.fatSector cluster)).entry (entryIndex cluster)

def setFatEntry (cluster value : Nat) (disk : Disk) : Disk :=
  ataWriteSector disk (boot.fatSector cluster)
    ((ataReadSector disk (boot.fatSector cluster)).setEntry (entryIndex cluster) value)

def directNext (cluster : Nat) (disk : Disk) : Nat := fatEntry boot disk cluster &&& 0x0FFFFFFF

/-- Mark entry `i` and link `prev` to it. -/
def directMark (i prev : Nat) (disk : Disk) : Disk :=
  let disk := setFatEntry boot i 0x0FFFFFFF disk
  if prev ≠ 0 then setFatEntry boot prev i disk else disk

def directAllocScan : (remaining : Nat) → (i count prev first : Nat) → Disk → Nat × Disk
  | 0, _, _, _, first, disk => (first, disk)
  | remaining + 1, i, count, prev, first, disk =>
    if count = 0 then (first, disk)
    else if fatEntry boot disk i = 0 then
      directAllocScan remaining (i + 1) (count - 1) i (if first = 0 then i else first)
        (directMark boot i prev disk)
    else directAllocScan remaining (i + 1) count prev first disk

def directAlloc (size : Nat) (disk : Disk) : Nat × Disk :=
  directAllocScan boot boot.scanLength 2 (boot.clusterCount size) 0 0 disk

/-- The first free cluster from `i` on. -/
def firstFree (disk : Disk) : (remaining : Nat) → (i : Nat) → Option Nat
  | 0, _ => none
  | remaining + 1, i =>
    if fatEntry boot disk i = 0 then some i else firstFree disk remaining (i + 1)

/-- The disk after `newCluster` is marked, zeroed and linked behind `prevCluster`. -/
def extendedDisk (prevCluster newCluster : Nat) (disk : Disk) : Disk :=
  setFatEntry boot prevCluster newCluster
    (zeroSectors (boot.clusterSector newCluster) boot.spc (setFatEntry boot newCluster 0x0FFFFFFF disk))

def directExtend (prevCluster : Nat) (disk : Disk) : Nat × Disk :=
  match firstFree boot disk boot.scanLength 2 with
  | none => (0x0FFFFFFF, disk)
  | some newCluster => (newCluster, extendedDisk boot prevCluster newCluster disk)

variable {boot}

theorem scanLength_le : 2 + boot.scanLength ≤ boot.totalClusters + 2 := by
  have cut : u32 (boot.totalClusters + 2) ≤ boot.totalClusters + 2 := Nat.mod_le _ _
  unfold FAT32BootSector.scanLength
  omega

theorem Represents.fatCacheEntry (rep : Represents st disk) (cluster : Nat) :
    Represents (fatCacheEntry cluster st) disk :=
  rep.load _

/-- Reading the entry of a cluster through the cache. -/
theorem Represents.read (rep : Represents st disk) (layout : st.boot.FatLayout)
    (inRange : cluster < st.boot.totalClusters + 2) :
    (Fs.fatCacheEntry cluster st).cachedFatBuf.entry (entryIndex cluster) =
      fatEntry st.boot disk cluster := by
  rw [rep.entry (layout.fatSector_isFat inRange), fatEntry]

/-- Writing the entry of a cluster through the cache. -/
theorem Represents.write (rep : Represents st disk) (layout : st.boot.FatLayout)
    (inRange : cluster < st.boot.totalClusters + 2) (value : Nat) :
    Represents (fatCachePut (entryIndex cluster) value (Fs.fatCacheEntry cluster st))
      (setFatEntry st.boot cluster value disk) := by
  have nr : (Fs.fatCacheEntry cluster st).cachedFatSectorNr = st.boot.fatSector cluster :=
    fatCacheLoad_nr _ st
  have fat := layout.fatSector_isFat inRange
  have put := (rep.fatCacheEntry cluster).put
    (by rw [nr, (fatCacheEntry_kept cluster st).boot]; exact fat) (entryIndex cluster) value
  rw [nr] at put
  exact put

theorem Represents.allocMark (rep : Represents st disk) (layout : st.boot.FatLayout)
    (inRange : i < st.boot.totalClusters + 2) (prevInRange : prev < st.boot.totalClusters + 2) :
    Represents (Fs.allocMark i prev (Fs.fatCacheEntry i st)) (directMark st.boot i prev disk) := by
  have marked := rep.write layout inRange 0x0FFFFFFF
  have boot : (fatCachePut (entryIndex i) 0x0FFFFFFF (Fs.fatCacheEntry i st)).boot = st.boot :=
    (fatCacheEntry_kept i st).boot
  simp only [Fs.allocMark, directMark]
  split
  · have linked := marked.write (by rw [boot]; exact layout) (by rw [boot]; exact prevInRange) i
    rw [boot] at linked
    exact linked
  · exact marked

theorem allocScan_direct (count first : Nat) (rep : Represents st disk) (layout : st.boot.FatLayout)
    (bound : i + remaining ≤ st.boot.totalClusters + 2) (prevBefore : prev < i) :
    (allocScan remaining i count prev first st).1 =
        (directAllocScan st.boot remaining i count prev first disk).1 ∧
      Represents (allocScan remaining i count prev first st).2
        (directAllocScan st.boot remaining i count prev first disk).2 := by
  induction remaining generalizing i count prev first st disk with
  | zero => exact ⟨rfl, rep⟩
  | succ remaining ih =>
    have boot := (fatCacheEntry_kept i st).boot
    have inRange : i < st.boot.totalClusters + 2 := by omega
    rw [allocScan, directAllocScan, rep.read layout inRange]
    by_cases done : count = 0
    · simp only [done, ↓reduceIte]
      exact ⟨trivial, rep⟩
    · by_cases free : fatEntry st.boot disk i = 0
      · simp only [done, free, ↓reduceIte]
        have kept := (allocMark_kept i prev (fatCacheEntry i st)).boot.trans boot
        have marked := rep.allocMark layout inRange (by omega : prev < _)
        have step := ih (count - 1) (if first = 0 then i else first) marked (by rw [kept]; exact layout) (by rw [kept]; omega)
          (Nat.lt_succ_self i)
        rw [kept] at step
        exact step
      · simp only [done, free, ↓reduceIte]
        have step := ih count first (rep.fatCacheEntry i) (by rw [boot]; exact layout)
          (by rw [boot]; omega) (by omega : prev < i + 1)
        rw [boot] at step
        exact step

theorem fatNextCluster_direct (coherent : Coherent st) (layout : st.boot.FatLayout)
    (inRange : cluster < st.boot.totalClusters + 2) :
    (fatNextCluster cluster st).1 = directNext st.boot cluster st.disk := by
  rw [fatNextCluster, coherent.represents.read layout inRange, directNext]

/-- Following a link never changes the disk of a clean cache, wherever the
cluster number points. -/
theorem fatNextCluster_coherent (coherent : Coherent st) (cluster : Nat) :
    (fatNextCluster cluster st).2.disk = st.disk ∧ Coherent (fatNextCluster cluster st).2 :=
  (coherent.represents.fatCacheEntry cluster).coherent
    (fatCacheLoad_clean coherent.clean _).1

theorem fatAllocCluster_direct (coherent : Coherent st) (layout : st.boot.FatLayout) (size : Nat) :
    (fatAllocCluster size st).1 = (directAlloc st.boot size st.disk).1 ∧
      (fatAllocCluster size st).2.disk = (directAlloc st.boot size st.disk).2 ∧
      Coherent (fatAllocCluster size st).2 := by
  obtain ⟨value, represented⟩ := allocScan_direct
    (st.boot.clusterCount size) 0 coherent.represents layout scanLength_le (by decide : 0 < 2)
  exact ⟨value, represented.flush⟩

theorem zeroSectors_other (disk : Disk) {sektor count lba : Nat}
    (apart : ∀ s < count, ataLba (u32 (sektor + s)) ≠ ataLba lba) :
    ataReadSector (zeroSectors sektor count disk) lba = ataReadSector disk lba := by
  induction count with
  | zero => rfl
  | succ count ih =>
    rw [zeroSectors, ataReadSector_other _ _ (Ne.symm (apart count (Nat.lt_succ_self _))),
      ih (fun s below => apart s (by omega))]

/-- Sector contents outside the FAT may change under a coherent cache. -/
theorem Coherent.rewrite (coherent : Coherent st) (disk : Disk)
    (same : ∀ lba, st.boot.IsFatSector lba → ataReadSector disk lba = ataReadSector st.disk lba) :
    Coherent { st with disk := disk } where
  clean := coherent.clean
  current := by
    intro fat
    have current := coherent.current fat
    rw [← same _ fat] at current
    exact current

theorem zeroCluster_offFat (layout : boot.FatLayout) (data : boot.DataCluster cluster) (disk : Disk)
    (fat : boot.IsFatSector lba) :
    ataReadSector (zeroSectors (boot.clusterSector cluster) boot.spc disk) lba =
      ataReadSector disk lba := by
  apply zeroSectors_other
  intro s inside
  rw [ataLba_of_lt fat.2.2]
  exact layout.disjoint lba cluster s fat data inside

theorem extendMark_direct (rep : Represents st disk) (layout : st.boot.FatLayout)
    (data : st.boot.DataCluster i) :
    (extendMark i (fatCacheEntry i st)).disk =
        zeroSectors (st.boot.clusterSector i) st.boot.spc (setFatEntry st.boot i 0x0FFFFFFF disk) ∧
      Coherent (extendMark i (fatCacheEntry i st)) := by
  obtain ⟨marked, coherent⟩ := (rep.write layout data.2 0x0FFFFFFF).flush
  have boot : (fatCacheFlush (fatCachePut (entryIndex i) 0x0FFFFFFF (fatCacheEntry i st))).boot =
      st.boot := (fatCacheFlush_kept _).boot.trans (fatCacheEntry_kept i st).boot
  have after := coherent.rewrite (zeroSectors (st.boot.clusterSector i) st.boot.spc
    (setFatEntry st.boot i 0x0FFFFFFF disk)) (by
      intro lba fat
      rw [boot] at fat
      rw [zeroCluster_offFat layout data _ fat, marked])
  have same : extendMark i (fatCacheEntry i st) =
      { fatCacheFlush (fatCachePut (entryIndex i) 0x0FFFFFFF (fatCacheEntry i st)) with
        disk := zeroSectors (st.boot.clusterSector i) st.boot.spc
          (setFatEntry st.boot i 0x0FFFFFFF disk) } := by
    simp only [extendMark, boot, marked]
  rw [same]
  exact ⟨rfl, after⟩

theorem extendScan_direct (coherent : Coherent st) (layout : st.boot.FatLayout)
    (low : 2 ≤ i) (bound : i + remaining ≤ st.boot.totalClusters + 2) :
    (extendScan remaining i st).1 = firstFree st.boot st.disk remaining i ∧
      Coherent (extendScan remaining i st).2 ∧
      (extendScan remaining i st).2.disk =
        match firstFree st.boot st.disk remaining i with
        | none => st.disk
        | some newCluster => zeroSectors (st.boot.clusterSector newCluster) st.boot.spc
            (setFatEntry st.boot newCluster 0x0FFFFFFF st.disk) := by
  induction remaining generalizing i st with
  | zero => exact ⟨rfl, coherent, rfl⟩
  | succ remaining ih =>
    have rep := coherent.represents
    have inRange : i < st.boot.totalClusters + 2 := by omega
    rw [extendScan, firstFree, rep.read layout inRange]
    by_cases free : fatEntry st.boot st.disk i = 0
    · simp only [free, ↓reduceIte]
      obtain ⟨disk, after⟩ := extendMark_direct rep layout ⟨low, inRange⟩
      exact ⟨trivial, after, disk⟩
    · simp only [free, ↓reduceIte]
      have boot := (fatCacheEntry_kept i st).boot
      obtain ⟨disk, after⟩ := (rep.fatCacheEntry i).coherent (fatCacheLoad_clean coherent.clean _).1
      have step := ih after (by rw [boot]; exact layout) (by omega : 2 ≤ i + 1) (by rw [boot]; omega)
      rw [boot, disk] at step
      exact step

theorem firstFree_some (found : firstFree boot disk remaining i = some newCluster) :
    i ≤ newCluster ∧ newCluster < i + remaining ∧ fatEntry boot disk newCluster = 0 := by
  induction remaining generalizing i with
  | zero => simp [firstFree] at found
  | succ remaining ih =>
    rw [firstFree] at found
    split at found
    · rename_i free
      cases found
      exact ⟨Nat.le_refl _, by omega, free⟩
    · obtain ⟨low, high, free⟩ := ih found
      exact ⟨by omega, by omega, free⟩

theorem firstFree_none (absent : firstFree boot disk remaining i = none) :
    ∀ cluster, i ≤ cluster → cluster < i + remaining → fatEntry boot disk cluster ≠ 0 := by
  induction remaining generalizing i with
  | zero => intro cluster _ _; omega
  | succ remaining ih =>
    rw [firstFree] at absent
    split at absent
    · simp at absent
    · rename_i taken
      intro cluster low high
      by_cases same : cluster = i
      · rw [same]
        exact taken
      · exact ih absent cluster (by omega) (by omega)

theorem fatExtendChain_direct (coherent : Coherent st) (layout : st.boot.FatLayout)
    (inRange : prevCluster < st.boot.totalClusters + 2) :
    (fatExtendChain prevCluster st).1 = (directExtend st.boot prevCluster st.disk).1 ∧
      (fatExtendChain prevCluster st).2.disk = (directExtend st.boot prevCluster st.disk).2 ∧
      Coherent (fatExtendChain prevCluster st).2 := by
  obtain ⟨value, scanned, disk⟩ := @extendScan_direct st 2 st.boot.scanLength coherent layout
    (Nat.le_refl 2) scanLength_le
  have boot := (extendScan_kept st.boot.scanLength 2 st).boot
  simp only [fatExtendChain, directExtend]
  rw [value]
  cases found : firstFree st.boot st.disk st.boot.scanLength 2 with
  | none =>
    rw [found] at disk
    exact ⟨rfl, disk, ⟨scanned.clean, scanned.current⟩⟩
  | some newCluster =>
    rw [found] at disk
    have linked := scanned.represents.write (by rw [boot]; exact layout)
      (by rw [boot]; exact inRange) newCluster
    rw [boot, disk] at linked
    exact ⟨rfl, linked.flush⟩

theorem mounted_coherent (disk : Disk) : Coherent (mounted disk) where
  clean := rfl
  current := by
    intro fat
    have small := fat.2.2
    simp [mounted, fatInit, powerOn] at small

/-- A call of one of the three FAT functions. -/
inductive FatCall where
  | next (cluster : Nat)
  | alloc (size : Nat)
  | extend (prevCluster : Nat)

/-- Cluster arguments lie in 0 .. total_clusters + 1. -/
def FatCall.InRange (boot : FAT32BootSector) : FatCall → Prop
  | .next cluster => cluster < boot.totalClusters + 2
  | .alloc _ => True
  | .extend prevCluster => prevCluster < boot.totalClusters + 2

def FatCall.cached : FatCall → FatState → Nat × FatState
  | .next cluster, st => fatNextCluster cluster st
  | .alloc size, st => fatAllocCluster size st
  | .extend prevCluster, st => fatExtendChain prevCluster st

def FatCall.direct (boot : FAT32BootSector) : FatCall → Disk → Nat × Disk
  | .next cluster, disk => (directNext boot cluster disk, disk)
  | .alloc size, disk => directAlloc boot size disk
  | .extend prevCluster, disk => directExtend boot prevCluster disk

/-- The returned value and the disk after each call of a sequence. -/
def cachedRun : List FatCall → FatState → List (Nat × Disk)
  | [], _ => []
  | call :: calls, st =>
    ((call.cached st).1, (call.cached st).2.disk) :: cachedRun calls (call.cached st).2

def directRun (boot : FAT32BootSector) : List FatCall → Disk → List (Nat × Disk)
  | [], _ => []
  | call :: calls, disk => call.direct boot disk :: directRun boot calls (call.direct boot disk).2

theorem FatCall.cached_kept (call : FatCall) (st : FatState) : Kept st (call.cached st).2 := by
  cases call with
  | next cluster => exact fatNextCluster_kept cluster st
  | alloc size => exact fatAllocCluster_kept size st
  | extend prevCluster => exact fatExtendChain_kept prevCluster st

theorem FatCall.cached_direct (call : FatCall) (coherent : Coherent st) (layout : st.boot.FatLayout)
    (inRange : call.InRange st.boot) :
    ((call.cached st).1, (call.cached st).2.disk) = call.direct st.boot st.disk ∧
      Coherent (call.cached st).2 := by
  cases call with
  | next cluster =>
    obtain ⟨disk, after⟩ := fatNextCluster_coherent coherent cluster
    have value := fatNextCluster_direct coherent layout inRange
    exact ⟨Prod.ext value disk, after⟩
  | alloc size =>
    obtain ⟨value, disk, after⟩ := fatAllocCluster_direct coherent layout size
    exact ⟨Prod.ext value disk, after⟩
  | extend prevCluster =>
    obtain ⟨value, disk, after⟩ := fatExtendChain_direct coherent layout inRange
    exact ⟨Prod.ext value disk, after⟩

theorem cachedRun_eq (coherent : Coherent st) (layout : st.boot.FatLayout) (calls : List FatCall)
    (inRange : ∀ call ∈ calls, call.InRange st.boot) :
    cachedRun calls st = directRun st.boot calls st.disk := by
  induction calls generalizing st with
  | nil => rfl
  | cons call calls ih =>
    obtain ⟨same, after⟩ := call.cached_direct coherent layout (inRange call (by simp))
    have boot := (call.cached_kept st).boot
    have disk := congrArg Prod.snd same
    have rest := ih after (by rw [boot]; exact layout)
      (fun other member => by rw [boot]; exact inRange other (by simp [member]))
    rw [cachedRun, directRun, same, rest, boot]
    exact congrArg (fun disk' => _ :: directRun st.boot calls disk') disk

/-- The cached FAT refines the plain FAT: after `fat_init` every sequence of
calls returns the values and leaves the disks of the cache-free functions. -/
theorem cached_refines_direct (disk : Disk) (layout : (mounted disk).boot.FatLayout)
    (calls : List FatCall) (inRange : ∀ call ∈ calls, call.InRange (mounted disk).boot) :
    cachedRun calls (mounted disk) = directRun (mounted disk).boot calls disk :=
  cachedRun_eq (mounted_coherent disk) layout calls inRange

/-- The root directory in cluster 2, all other clusters free. -/
def emptyVolume : Disk :=
  image sampleBoot (assigned 0 [(0, 0x0FFFFFF8), (1, 0x0FFFFFFF), (2, 0x0FFFFFFF)])
    (fun _ _ => Sector.zero)

theorem cached_refines_direct_emptyVolume :
    cachedRun [.alloc 600, .next 3, .extend 4] (mounted emptyVolume) =
      directRun (mounted emptyVolume).boot [.alloc 600, .next 3, .extend 4] emptyVolume := by
  have boot : (mounted emptyVolume).boot = sampleBoot := (mounted_image _ _ _).1
  apply cached_refines_direct emptyVolume
  · rw [boot]
    exact sampleBoot_wellFormed.layout
  · rw [boot]
    intro call member
    simp only [List.mem_cons, List.not_mem_nil, or_false] at member
    rcases member with rfl | rfl | rfl <;> simp only [FatCall.InRange] <;> decide

end LivlyOS.Fs
