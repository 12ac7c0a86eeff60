import LivlyOS.Fs.Coherence
import Mathlib.Data.Fintype.Basic

/-! The FAT functions on a drive whose reads may time out: `ata_read_sector` then
returns with its buffer untouched and the cache keeps the contents it had, under
the number of the sector it asked for. -/

namespace LivlyOS.Fs

open LivlyOS.Lib

/-- The driver with the number of reads so far and what happened: the entries set,
each with the state in front of it, the clusters zeroed, the disk after every write. -/
structure Faulty where
  st : FatState
  reads : Nat
  sets : List (Nat × FatState)
  zeroed : List Nat
  disks : List Disk

namespace Faulty

/-- Before the first call. -/
def start (st : FatState) : Faulty := ⟨st, 0, [], [], [st.disk]⟩

def flush (fl : Faulty) : Faulty :=
  { fl with st := fatCacheFlush fl.st, disks := fl.disks ++ [(fatCacheFlush fl.st).disk] }

/-- Set the entry of a cluster in the cached sector. -/
def put (cluster value : Nat) (fl : Faulty) : Faulty :=
  { fl with st := fatCachePut (entryIndex cluster) value fl.st, sets := fl.sets ++ [(cluster, fl.st)] }

/-- Zero the sectors of a cluster, one write after the other. -/
def zero (cluster : Nat) (fl : Faulty) : Faulty :=
  let sektor := fl.st.boot.clusterSector cluster
  { fl with
    st := { fl.st with disk := zeroSectors sektor fl.st.boot.spc fl.st.disk }
    zeroed := fl.zeroed ++ [cluster]
    disks := fl.disks ++ (List.range fl.st.boot.spc).map (fun s => zeroSectors sektor (s + 1) fl.st.disk) }

variable (timeout : Nat → Bool)

def load (sector : Nat) (fl : Faulty) : Faulty :=
  if sector ≠ fl.st.cachedFatSectorNr then
    let fl := fl.flush
    { fl with
      st := { fl.st with
        cachedFatSectorNr := sector
        cachedFatBuf :=
          if timeout fl.reads then fl.st.cachedFatBuf else ataReadSector fl.st.disk sector }
      reads := fl.reads + 1 }
  else fl

def entry (cluster : Nat) (fl : Faulty) : Faulty := load timeout (fl.st.boot.fatSector cluster) fl

def next (cluster : Nat) (fl : Faulty) : Nat × Faulty :=
  ((entry timeout cluster fl).st.cachedFatBuf.entry (entryIndex cluster) &&& 0x0FFFFFFF,
    entry timeout cluster fl)

def allocMark (i prev : Nat) (fl : Faulty) : Faulty :=
  let fl := put i 0x0FFFFFFF fl
  if prev ≠ 0 then put prev i (entry timeout prev fl) else fl

def allocScan : (remaining : Nat) → (i count prev first : Nat) → Faulty → Nat × Faulty
  | 0, _, _, _, first, fl => (first, fl)
  | remaining + 1, i, count, prev, first, fl =>
    if count = 0 then (first, fl)
    else if (entry timeout i fl).st.cachedFatBuf.entry (entryIndex i) = 0 then
      allocScan remaining (i + 1) (count - 1) i (if first = 0 then i else first)
        (allocMark timeout i prev (entry timeout i fl))
    else allocScan remaining (i + 1) count prev first (entry timeout i fl)

def alloc (size : Nat) (fl : Faulty) : Nat × Faulty :=
  let boot := fl.st.boot
  let scan := allocScan timeout boot.scanLength 2 (boot.clusterCount size) 0 0 fl
  (scan.1, scan.2.flush)

def extendScan : (remaining : Nat) → (i : Nat) → Faulty → Option Nat × Faulty
  | 0, _, fl => (none, fl)
  | remaining + 1, i, fl =>
    if (entry timeout i fl).st.cachedFatBuf.entry (entryIndex i) = 0 then
      (some i, zero i (put i 0x0FFFFFFF (entry timeout i fl)).flush)
    else extendScan remaining (i + 1) (entry timeout i fl)

def extend (prevCluster : Nat) (fl : Faulty) : Nat × Faulty :=
  let scan := extendScan timeout fl.st.boot.scanLength 2 fl
  match scan.1 with
  | none =>
    (0x0FFFFFFF, { scan.2 with st := scan.2.st.kprintf "fat_extend_chain: Kein freier Cluster!\n" })
  | some newCluster => (newCluster, (put prevCluster newCluster (entry timeout prevCluster scan.2)).flush)

end Faulty

def FatCall.faulty (timeout : Nat → Bool) : FatCall → Faulty → Nat × Faulty
  | .next cluster, fl => fl.next timeout cluster
  | .alloc size, fl => fl.alloc timeout size
  | .extend prevCluster, fl => fl.extend timeout prevCluster

/-- A sequence of calls. -/
def faultyRun (timeout : Nat → Bool) (calls : List FatCall) (fl : Faulty) : Faulty :=
  calls.foldl (fun fl call => (call.faulty timeout fl).2) fl

section NoTimeout

theorem Faulty.load_answered (sector : Nat) (fl : Faulty) :
    (fl.load (fun _ => false) sector).st = fatCacheLoad sector fl.st := by
  rw [Faulty.load, fatCacheLoad]
  split
  · rfl
  · rfl

theorem Faulty.entry_answered (cluster : Nat) (fl : Faulty) :
    (fl.entry (fun _ => false) cluster).st = fatCacheEntry cluster fl.st :=
  fl.load_answered (fl.st.boot.fatSector cluster)

theorem Faulty.allocMark_answered (i prev : Nat) (fl : Faulty) :
    (fl.allocMark (fun _ => false) i prev).st = Fs.allocMark i prev fl.st := by
  rw [Faulty.allocMark, Fs.allocMark]
  split
  · rw [Faulty.put, Faulty.entry_answered]
    rfl
  · rfl

theorem Faulty.allocScan_answered (remaining i count prev first : Nat) (fl : Faulty) :
    (fl.allocScan (fun _ => false) remaining i count prev first).1 =
        (Fs.allocScan remaining i count prev first fl.st).1 ∧
      (fl.allocScan (fun _ => false) remaining i count prev first).2.st =
        (Fs.allocScan remaining i count prev first fl.st).2 := by
  induction remaining generalizing i count prev first fl with
  | zero => exact ⟨rfl, rfl⟩
  | succ remaining ih =>
    rw [Faulty.allocScan, Fs.allocScan, Faulty.entry_answered]
    split
    · exact ⟨rfl, rfl⟩
    · split
      · rw [← Faulty.entry_answered, ← Faulty.allocMark_answered]
        exact ih _ _ _ _ _
      · rw [← Faulty.entry_answered]
        exact ih _ _ _ _ _

theorem Faulty.extendScan_answered (remaining i : Nat) (fl : Faulty) :
    (fl.extendScan (fun _ => false) remaining i).1 = (Fs.extendScan remaining i fl.st).1 ∧
      (fl.extendScan (fun _ => false) remaining i).2.st = (Fs.extendScan remaining i fl.st).2 := by
  induction remaining generalizing i fl with
  | zero => exact ⟨rfl, rfl⟩
  | succ remaining ih =>
    rw [Faulty.extendScan, Fs.extendScan, Faulty.entry_answered]
    split
    · rw [← Faulty.entry_answered]
      exact ⟨rfl, rfl⟩
    · rw [← Faulty.entry_answered]
      exact ih _ _

/-- Without a timeout the functions are those of the driver. -/
theorem FatCall.faulty_answered (call : FatCall) (fl : Faulty) :
    (call.faulty (fun _ => false) fl).1 = (call.cached fl.st).1 ∧
      (call.faulty (fun _ => false) fl).2.st = (call.cached fl.st).2 := by
  cases call with
  | next cluster =>
    have answered := fl.entry_answered cluster
    exact ⟨by rw [faulty, cached, Faulty.next, fatNextCluster, answered], answered⟩
  | alloc size =>
    obtain ⟨first, state⟩ := fl.allocScan_answered fl.st.boot.scanLength 2 (fl.st.boot.clusterCount size) 0 0
    exact ⟨first, by rw [faulty, cached, Faulty.alloc, fatAllocCluster, ← state]; rfl⟩
  | extend prevCluster =>
    obtain ⟨found, state⟩ := fl.extendScan_answered fl.st.boot.scanLength 2
    rw [faulty, cached, Faulty.extend, fatExtendChain, ← found, ← state]
    dsimp only
    cases (fl.extendScan (fun _ => false) fl.st.boot.scanLength 2).1 with
    | none => exact ⟨rfl, rfl⟩
    | some newCluster =>
      rw [← Faulty.entry_answered]
      exact ⟨rfl, rfl⟩

end NoTimeout

/-- The cached buffer holds the sector whose number it carries, up to entries set
in it since it was read. -/
def FatState.BufferFilled (st : FatState) : Prop :=
  st.fatCacheDirty = true ∨ st.cachedFatBuf = ataReadSector st.disk st.cachedFatSectorNr

instance (st : FatState) : Decidable st.BufferFilled :=
  inferInstanceAs (Decidable (_ ∨ (_ : Fin 512 → UInt8) = _))

section Kept

variable (boot : FAT32BootSector) (initial : Disk) (sets : List (Nat × FatState))

/-- The contents of a FAT sector differ from the initial ones only in entries that
were set. -/
def SectorKept (lba : Nat) (buf : Sector) : Prop :=
  ∀ index < 128, buf.entry index ≠ (ataReadSector initial lba).entry index →
    ∃ set ∈ sets, boot.fatSector set.1 = lba ∧ entryIndex set.1 = index

def FatKept (disk : Disk) : Prop :=
  ∀ lba, boot.IsFatSector lba → SectorKept boot initial sets lba (ataReadSector disk lba)

variable {boot initial sets}

theorem FatKept.refl : FatKept boot initial sets initial := fun _ _ _ _ changed => absurd rfl changed

theorem FatKept.append (kept : FatKept boot initial sets disk) (more : List (Nat × FatState)) :
    FatKept boot initial (sets ++ more) disk := by
  intro lba fat index below changed
  obtain ⟨set, member, place⟩ := kept lba fat index below changed
  exact ⟨set, List.mem_append_left more member, place⟩

theorem FatKept.congr (kept : FatKept boot initial sets disk)
    (same : ∀ lba, boot.IsFatSector lba → ataReadSector disk' lba = ataReadSector disk lba) :
    FatKept boot initial sets disk' := by
  intro lba fat
  rw [same lba fat]
  exact kept lba fat

end Kept

namespace Faulty

/-- No entry was set in a buffer that holds another sector, and no sector of the FAT
was zeroed. -/
structure Proper (boot : FAT32BootSector) (fl : Faulty) : Prop where
  filled : ∀ set ∈ fl.sets, set.2.BufferFilled
  outside : ∀ cluster ∈ fl.zeroed, OutsideFat boot cluster

/-- What every disk so far and the buffer to be written back keep. -/
structure Keeps (boot : FAT32BootSector) (initial : Disk) (fl : Faulty) : Prop where
  disks : ∀ disk ∈ fl.disks, FatKept boot initial fl.sets disk
  disk : FatKept boot initial fl.sets fl.st.disk
  pending : fl.st.fatCacheDirty = true → ∀ lba, boot.IsFatSector lba →
    ataLba fl.st.cachedFatSectorNr = lba → SectorKept boot initial fl.sets lba fl.st.cachedFatBuf

/-- The invariant: as long as everything was proper, the FAT is kept. -/
structure Sound (boot : FAT32BootSector) (initial : Disk) (fl : Faulty) : Prop where
  volume : fl.st.boot = boot
  keeps : fl.Proper boot → fl.Keeps boot initial

variable {boot : FAT32BootSector} {initial : Disk} {fl : Faulty} {timeout : Nat → Bool}

theorem start_sound {st : FatState} (clean : st.fatCacheDirty = false) : Sound st.boot st.disk (start st) where
  volume := rfl
  keeps _ := {
    disks := fun _ member => by
      rw [List.mem_singleton.mp member]
      exact FatKept.refl
    disk := FatKept.refl
    pending := fun dirty => absurd (clean.symm.trans dirty) Bool.false_ne_true }

theorem Keeps.flushed (keeps : fl.Keeps boot initial) :
    FatKept boot initial fl.sets (fatCacheFlush fl.st).disk := by
  rw [fatCacheFlush]
  split
  · rename_i dirty
    intro lba fat
    by_cases same : ataLba lba = ataLba fl.st.cachedFatSectorNr
    · rw [ataReadSector_same _ _ same]
      exact keeps.pending dirty lba fat (by rw [← same, ataLba_of_lt fat.2.2])
    · rw [ataReadSector_other _ _ same]
      exact keeps.disk lba fat
  · exact keeps.disk

theorem Sound.flush (sound : fl.Sound boot initial) : fl.flush.Sound boot initial where
  volume := (fatCacheFlush_kept fl.st).boot.trans sound.volume
  keeps proper := by
    have keeps := sound.keeps ⟨proper.filled, proper.outside⟩
    refine ⟨?_, keeps.flushed, ?_⟩
    · intro disk member
      rcases List.mem_append.mp member with old | new
      · exact keeps.disks disk old
      · rw [List.mem_singleton.mp new]
        exact keeps.flushed
    · intro dirty
      exact absurd ((fatCacheFlush_dirty fl.st).symm.trans dirty) Bool.false_ne_true

theorem Sound.load (sound : fl.Sound boot initial) (sector : Nat) :
    (fl.load timeout sector).Sound boot initial := by
  rw [Faulty.load]
  split
  · have flushed := sound.flush
    refine ⟨flushed.volume, fun proper => ?_⟩
    have keeps := flushed.keeps ⟨proper.filled, proper.outside⟩
    refine ⟨keeps.disks, keeps.disk, fun dirty => ?_⟩
    exact absurd ((fatCacheFlush_dirty fl.st).symm.trans dirty) Bool.false_ne_true
  · exact sound

theorem Sound.entry (sound : fl.Sound boot initial) (cluster : Nat) :
    (fl.entry timeout cluster).Sound boot initial :=
  sound.load _

theorem load_nr (sector : Nat) (fl : Faulty) : (fl.load timeout sector).st.cachedFatSectorNr = sector := by
  rw [Faulty.load]
  split
  · rfl
  · rename_i same
    exact (not_not.mp same).symm

theorem Sound.entry_nr (sound : fl.Sound boot initial) (cluster : Nat) :
    (fl.entry timeout cluster).st.cachedFatSectorNr = boot.fatSector cluster := by
  rw [Faulty.entry, load_nr, sound.volume]

/-- Setting an entry in the buffer of its own sector. -/
theorem Sound.put (sound : fl.Sound boot initial) (value : Nat)
    (loaded : fl.st.cachedFatSectorNr = boot.fatSector cluster) :
    (fl.put cluster value).Sound boot initial where
  volume := sound.volume
  keeps proper := by
    have keeps := sound.keeps ⟨fun set member => proper.filled set (List.mem_append_left _ member), proper.outside⟩
    refine ⟨fun disk member => (keeps.disks disk member).append _, keeps.disk.append _, ?_⟩
    intro _ lba fat here index below changed
    change ataLba fl.st.cachedFatSectorNr = lba at here
    by_cases own : index = entryIndex cluster
    · refine ⟨(cluster, fl.st), by simp [Faulty.put], ?_, own.symm⟩
      rw [← here, loaded, boot.ataLba_fatSector]
    · -- an entry that was in the buffer before
      change (fl.st.cachedFatBuf.setEntry (entryIndex cluster) value).entry index ≠ _ at changed
      rw [Sector.entry_setEntry_other _ below own] at changed
      have filled := proper.filled (cluster, fl.st) (by simp [Faulty.put])
      have old : SectorKept boot initial fl.sets lba fl.st.cachedFatBuf := by
        rcases filled with dirty | same
        · exact keeps.pending dirty lba fat here
        · have kept := keeps.disk lba fat
          have read : ataReadSector fl.st.disk lba = fl.st.cachedFatBuf := by
            rw [← here, loaded, boot.ataLba_fatSector, ← loaded]
            exact same.symm
          rwa [read] at kept
      obtain ⟨set, member, place⟩ := old index below changed
      exact ⟨set, List.mem_append_left _ member, place⟩

theorem Sound.zero (sound : fl.Sound boot initial) (clean : fl.st.fatCacheDirty = false) (cluster : Nat) :
    (fl.zero cluster).Sound boot initial where
  volume := sound.volume
  keeps proper := by
    have keeps := sound.keeps ⟨proper.filled, fun other member => proper.outside other (List.mem_append_left _ member)⟩
    have outside := proper.outside cluster (by simp [Faulty.zero])
    have zeroed : ∀ count ≤ boot.spc,
        FatKept boot initial fl.sets (zeroSectors (boot.clusterSector cluster) count fl.st.disk) := by
      intro count few
      apply keeps.disk.congr
      intro lba fat
      apply zeroSectors_other
      intro s below same
      rw [ataLba_of_lt fat.2.2] at same
      exact outside s (by omega) (by rw [FAT32BootSector.clusterLba, same]; exact fat)
    have boot' := sound.volume
    refine ⟨?_, ?_, fun dirty => absurd (clean.symm.trans dirty) Bool.false_ne_true⟩
    · intro disk member
      rcases List.mem_append.mp member with old | new
      · exact keeps.disks disk old
      · obtain ⟨s, below, rfl⟩ := List.mem_map.mp new
        rw [boot'] at below ⊢
        exact zeroed (s + 1) (List.mem_range.mp below)
    · change FatKept boot initial fl.sets (zeroSectors (fl.st.boot.clusterSector cluster) fl.st.boot.spc fl.st.disk)
      rw [boot']
      exact zeroed boot.spc (Nat.le_refl _)

theorem Sound.allocMark (sound : fl.Sound boot initial)
    (loaded : fl.st.cachedFatSectorNr = boot.fatSector i) (prev : Nat) :
    (fl.allocMark timeout i prev).Sound boot initial := by
  have marked := sound.put 0x0FFFFFFF loaded
  rw [Faulty.allocMark]
  split
  · exact (marked.entry prev).put i (marked.entry_nr prev)
  · exact marked

theorem Sound.allocScan (sound : fl.Sound boot initial) (remaining i count prev first : Nat) :
    (fl.allocScan timeout remaining i count prev first).2.Sound boot initial := by
  induction remaining generalizing i count prev first fl with
  | zero => exact sound
  | succ remaining ih =>
    rw [Faulty.allocScan]
    split
    · exact sound
    · split
      · exact ih ((sound.entry i).allocMark (sound.entry_nr i) prev) _ _ _ _
      · exact ih (sound.entry i) _ _ _ _

theorem Sound.extendScan (sound : fl.Sound boot initial) (remaining i : Nat) :
    (fl.extendScan timeout remaining i).2.Sound boot initial := by
  induction remaining generalizing i fl with
  | zero => exact sound
  | succ remaining ih =>
    rw [Faulty.extendScan]
    split
    · exact ((sound.entry i).put 0x0FFFFFFF (sound.entry_nr i)).flush.zero (fatCacheFlush_dirty _) i
    · exact ih (sound.entry i) _

theorem Sound.call (sound : fl.Sound boot initial) (call : FatCall) :
    (call.faulty timeout fl).2.Sound boot initial := by
  cases call with
  | next cluster => exact sound.entry cluster
  | alloc size => exact (sound.allocScan _ _ _ _ _).flush
  | extend prevCluster =>
    have scanned : (fl.extendScan timeout fl.st.boot.scanLength 2).2.Sound boot initial := sound.extendScan _ _
    rw [FatCall.faulty, Faulty.extend]
    dsimp only
    cases (fl.extendScan timeout fl.st.boot.scanLength 2).1 with
    | none =>
      refine ⟨scanned.volume, fun proper => ?_⟩
      have keeps := scanned.keeps ⟨proper.filled, proper.outside⟩
      exact ⟨keeps.disks, keeps.disk, keeps.pending⟩
    | some newCluster =>
      exact ((scanned.entry prevCluster).put newCluster (scanned.entry_nr prevCluster)).flush

theorem Sound.run (sound : fl.Sound boot initial) (calls : List FatCall) :
    (faultyRun timeout calls fl).Sound boot initial := by
  induction calls generalizing fl with
  | nil => exact sound
  | cons call calls ih => exact ih (sound.call call)

end Faulty

/-- In a run in which every entry is set in a buffer that holds its sector, each FAT
sector differs on every disk from its initial contents only in entries that were set. -/
theorem faultyRun_fatKept (clean : st.fatCacheDirty = false) (timeout : Nat → Bool) (calls : List FatCall)
    (filled : ∀ set ∈ (faultyRun timeout calls (.start st)).sets, set.2.BufferFilled)
    (outside : ∀ cluster ∈ (faultyRun timeout calls (.start st)).zeroed, OutsideFat st.boot cluster) :
    ∀ disk ∈ (faultyRun timeout calls (.start st)).disks,
      FatKept st.boot st.disk (faultyRun timeout calls (.start st)).sets disk :=
  (((Faulty.start_sound clean).run calls).keeps ⟨filled, outside⟩).disks

/-- 130 clusters of one sector, a FAT of two sectors. -/
def twoFatBoot : FAT32BootSector where
  sectorsPerCluster := 1
  reservedSectors := 1
  fatCount := 1
  totalSectors32 := 133
  fatSize32 := 2
  rootCluster := 2

theorem twoFatBoot_wellFormed : twoFatBoot.WellFormed :=
  ⟨by decide, by decide, by decide, by decide, by decide +kernel⟩

/-- Only cluster 5 is free, cluster 3 is linked to cluster 4. -/
def twoFatVolume : Disk :=
  image twoFatBoot (assigned 0x0FFFFFFF [(3, 4), (5, 0)]) (fun _ _ => Sector.zero)

theorem faultyRun_fatKept_twoFat :
    (faultyRun (fun read => read = 0) [.next 130, .extend 2] (.start (mounted twoFatVolume))).zeroed = [5] ∧
      ∀ disk ∈ (faultyRun (fun read => read = 0) [.next 130, .extend 2] (.start (mounted twoFatVolume))).disks,
        FatKept (mounted twoFatVolume).boot (mounted twoFatVolume).disk
          (faultyRun (fun read => read = 0) [.next 130, .extend 2] (.start (mounted twoFatVolume))).sets disk := by
  have boot : (mounted twoFatVolume).boot = twoFatBoot := (mounted_image _ _ _).1
  have zeroed : (faultyRun (fun read => read = 0) [.next 130, .extend 2]
      (.start (mounted twoFatVolume))).zeroed = [5] := by
    decide +kernel
  refine ⟨zeroed, faultyRun_fatKept rfl (fun read => read = 0) [.next 130, .extend 2] (by decide +kernel) ?_⟩
  intro cluster member
  rw [zeroed, List.mem_singleton] at member
  rw [member, boot]
  exact DataCluster.outsideFat twoFatBoot_wellFormed (by decide)

/-- Extending the chain of cluster 130: the second FAT sector cannot be read, and the
first one is written in its place. -/
theorem faultyRun_damages :
    (mounted twoFatVolume).boot.WellFormed ∧
      ∃ disk ∈ (faultyRun (fun read => read = 1) [.extend 130] (.start (mounted twoFatVolume))).disks,
        ¬ FatKept (mounted twoFatVolume).boot (mounted twoFatVolume).disk
          (faultyRun (fun read => read = 1) [.extend 130] (.start (mounted twoFatVolume))).sets disk := by
  have boot : (mounted twoFatVolume).boot = twoFatBoot := (mounted_image _ _ _).1
  refine ⟨by rw [boot]; exact twoFatBoot_wellFormed,
    (faultyRun (fun read => read = 1) [.extend 130] (.start (mounted twoFatVolume))).st.disk, ?_, ?_⟩
  · exact List.mem_append_right _ (List.mem_singleton_self _)
  · intro kept
    have clusters : (faultyRun (fun read => read = 1) [.extend 130]
        (.start (mounted twoFatVolume))).sets.map Prod.fst = [5, 130] := by
      decide +kernel
    obtain ⟨set, member, sector, index⟩ := kept ((mounted twoFatVolume).boot.fatSector 131)
      (by rw [boot]; exact twoFatBoot_wellFormed.fatSector_isFat (by decide)) 3 (by decide) (by decide +kernel)
    have either : set.1 ∈ [5, 130] := clusters ▸ List.mem_map_of_mem member
    simp only [List.mem_cons, List.not_mem_nil, or_false] at either
    rcases either with five | last
    · rw [five, boot] at sector
      exact absurd sector (by decide)
    · rw [last] at index
      exact absurd index (by decide)

end LivlyOS.Fs
