import LivlyOS.Fs.Geometry

/-! The write-back cache as a view of the disk: the disk that a flush would
leave, seen through a sector that may be newer than its copy on disk. -/

namespace LivlyOS.Fs

open LivlyOS.Lib

/-- The FAT functions leave the static variables outside the cache alone. -/
structure Kept (st st' : FatState) : Prop where
  boot : st'.boot = st.boot
  cwdCluster : st'.cwdCluster = st.cwdCluster
  cwdPath : st'.cwdPath = st.cwdPath

theorem Kept.refl (st : FatState) : Kept st st := ⟨rfl, rfl, rfl⟩

theorem Kept.trans (first : Kept st mid) (second : Kept mid st') : Kept st st' :=
  ⟨second.boot.trans first.boot, second.cwdCluster.trans first.cwdCluster,
    second.cwdPath.trans first.cwdPath⟩

theorem fatCacheFlush_kept (st : FatState) : Kept st (fatCacheFlush st) := by
  unfold fatCacheFlush
  split <;> exact ⟨rfl, rfl, rfl⟩

theorem fatCacheLoad_kept (sector : Nat) (st : FatState) : Kept st (fatCacheLoad sector st) := by
  have flushed := fatCacheFlush_kept st
  unfold fatCacheLoad
  split
  · exact ⟨flushed.boot, flushed.cwdCluster, flushed.cwdPath⟩
  · exact .refl st

theorem fatCachePut_kept (index value : Nat) (st : FatState) : Kept st (fatCachePut index value st) :=
  ⟨rfl, rfl, rfl⟩

theorem fatCacheEntry_kept (cluster : Nat) (st : FatState) : Kept st (fatCacheEntry cluster st) :=
  fatCacheLoad_kept _ st

theorem fatNextCluster_kept (cluster : Nat) (st : FatState) : Kept st (fatNextCluster cluster st).2 :=
  fatCacheEntry_kept cluster st

theorem allocMark_kept (i prev : Nat) (st : FatState) : Kept st (allocMark i prev st) := by
  have marked := fatCachePut_kept (entryIndex i) 0x0FFFFFFF st
  unfold allocMark
  split
  · exact marked.trans ((fatCacheEntry_kept prev _).trans (fatCachePut_kept _ _ _))
  · exact marked

theorem allocScan_kept (remaining i count prev first : Nat) (st : FatState) :
    Kept st (allocScan remaining i count prev first st).2 := by
  induction remaining generalizing i count prev first st with
  | zero => exact .refl st
  | succ remaining ih =>
    have loaded := fatCacheEntry_kept i st
    rw [allocScan]
    split
    · exact .refl st
    · split
      · exact loaded.trans ((allocMark_kept i prev _).trans (ih _ _ _ _ _))
      · exact loaded.trans (ih _ _ _ _ _)

theorem fatAllocCluster_kept (size : Nat) (st : FatState) : Kept st (fatAllocCluster size st).2 :=
  (allocScan_kept _ _ _ _ _ st).trans (fatCacheFlush_kept _)

theorem extendMark_kept (i : Nat) (st : FatState) : Kept st (extendMark i st) := by
  have marked := (fatCachePut_kept (entryIndex i) 0x0FFFFFFF st).trans (fatCacheFlush_kept _)
  exact ⟨marked.boot, marked.cwdCluster, marked.cwdPath⟩

theorem extendScan_kept (remaining i : Nat) (st : FatState) :
    Kept st (extendScan remaining i st).2 := by
  induction remaining generalizing i st with
  | zero => exact .refl st
  | succ remaining ih =>
    have loaded := fatCacheEntry_kept i st
    rw [extendScan]
    split
    · exact loaded.trans (extendMark_kept i _)
    · exact loaded.trans (ih _ _)

theorem fatExtendChain_kept (prevCluster : Nat) (st : FatState) :
    Kept st (fatExtendChain prevCluster st).2 := by
  have scanned := extendScan_kept st.boot.scanLength 2 st
  simp only [fatExtendChain]
  split
  · exact ⟨scanned.boot, scanned.cwdCluster, scanned.cwdPath⟩
  · exact scanned.trans ((fatCacheEntry_kept _ _).trans
      ((fatCachePut_kept _ _ _).trans (fatCacheFlush_kept _)))

/-- `disk` is what a flush of the cache would leave, and a cached FAT sector
has the contents of `disk`. -/
structure Represents (st : FatState) (disk : Disk) : Prop where
  flushed : (fatCacheFlush st).disk = disk
  current : st.boot.IsFatSector st.cachedFatSectorNr →
    st.cachedFatBuf = ataReadSector disk st.cachedFatSectorNr
  place : st.fatCacheDirty = true → st.boot.IsFatSector st.cachedFatSectorNr

/-- Between two operations: nothing to write back, and a cached FAT sector
agrees with the disk. -/
structure Coherent (st : FatState) : Prop where
  clean : st.fatCacheDirty = false
  current : st.boot.IsFatSector st.cachedFatSectorNr →
    st.cachedFatBuf = ataReadSector st.disk st.cachedFatSectorNr

theorem fatCacheFlush_clean (clean : st.fatCacheDirty = false) : fatCacheFlush st = st := by
  simp [fatCacheFlush, clean]

theorem fatCacheFlush_dirty (st : FatState) : (fatCacheFlush st).fatCacheDirty = false := by
  unfold fatCacheFlush
  split
  · rfl
  · rename_i clean
    simpa using clean

theorem Coherent.represents (coherent : Coherent st) : Represents st st.disk where
  flushed := by rw [fatCacheFlush_clean coherent.clean]
  current := coherent.current
  place := by simp [coherent.clean]

theorem Represents.coherent (rep : Represents st disk) (clean : st.fatCacheDirty = false) :
    st.disk = disk ∧ Coherent st := by
  have same := rep.flushed
  rw [fatCacheFlush_clean clean] at same
  exact ⟨same, clean, by rw [same]; exact rep.current⟩

theorem Represents.flush (rep : Represents st disk) :
    (fatCacheFlush st).disk = disk ∧ Coherent (fatCacheFlush st) := by
  refine ⟨rep.flushed, fatCacheFlush_dirty st, ?_⟩
  rw [rep.flushed]
  unfold fatCacheFlush
  split <;> exact rep.current

theorem Represents.load (rep : Represents st disk) (sector : Nat) :
    Represents (fatCacheLoad sector st) disk := by
  unfold fatCacheLoad
  split
  · refine ⟨?_, ?_, ?_⟩
    · rw [fatCacheFlush_clean]
      · exact rep.flushed
      · exact fatCacheFlush_dirty st
    · intro _
      simp only [rep.flushed]
    · simp [fatCacheFlush_dirty]
  · exact rep

theorem fatCacheLoad_nr (sector : Nat) (st : FatState) :
    (fatCacheLoad sector st).cachedFatSectorNr = sector := by
  unfold fatCacheLoad
  split
  · rfl
  · rename_i same
    simpa using (not_not.mp same).symm

theorem fatCacheLoad_clean (clean : st.fatCacheDirty = false) (sector : Nat) :
    (fatCacheLoad sector st).fatCacheDirty = false ∧ (fatCacheLoad sector st).disk = st.disk := by
  unfold fatCacheLoad
  split
  · simp [fatCacheFlush_clean clean, clean]
  · exact ⟨clean, rfl⟩

/-- After loading the sector of a FAT entry the cached entry is the entry of
the represented disk. -/
theorem Represents.entry (rep : Represents st disk) {cluster : Nat}
    (fat : st.boot.IsFatSector (st.boot.fatSector cluster)) :
    (fatCacheEntry cluster st).cachedFatBuf =
      ataReadSector disk (st.boot.fatSector cluster) := by
  have loaded := rep.load (st.boot.fatSector cluster)
  have current := loaded.current
  rw [fatCacheLoad_nr, (fatCacheLoad_kept _ st).boot] at current
  exact current fat

theorem ataWriteSector_twice (disk : Disk) (lba : Nat) (first second : Sector) :
    ataWriteSector (ataWriteSector disk lba first) lba second = ataWriteSector disk lba second := by
  simp [ataWriteSector]

/-- A write to the cached sector is a write to the represented disk. -/
theorem Represents.put (rep : Represents st disk)
    (fat : st.boot.IsFatSector st.cachedFatSectorNr) (index value : Nat) :
    Represents (fatCachePut index value st)
      (ataWriteSector disk st.cachedFatSectorNr
        ((ataReadSector disk st.cachedFatSectorNr).setEntry index value)) := by
  have current := rep.current fat
  have flushed := rep.flushed
  refine ⟨?_, ?_, fun _ => fat⟩
  · simp only [fatCacheFlush, fatCachePut, ↓reduceIte]
    rw [← current]
    unfold fatCacheFlush at flushed
    split at flushed
    · rw [← flushed, ataWriteSector_twice]
    · rw [← flushed]
  · intro _
    simp only [fatCachePut, ataReadSector_same, current]

end LivlyOS.Fs
