import LivlyOS.Fs.FatTable

/-! Between two operations the cache is clean, but `fat_delete_file` clears
entries on disk behind its back. The FAT functions on a cache that still shows
freed entries as taken. -/

namespace LivlyOS.Fs

open LivlyOS.Lib

/-- `st'` results from `st` by reads through a clean cache: the cached sector is
the old one or a fresh copy. -/
structure Loaded (st st' : FatState) : Prop where
  kept : Kept st st'
  disk : st'.disk = st.disk
  clean : st'.fatCacheDirty = false
  cache : (st'.cachedFatSectorNr = st.cachedFatSectorNr ∧ st'.cachedFatBuf = st.cachedFatBuf) ∨
    st'.cachedFatBuf = ataReadSector st'.disk st'.cachedFatSectorNr

theorem Loaded.refl (clean : st.fatCacheDirty = false) : Loaded st st :=
  ⟨.refl st, rfl, clean, .inl ⟨rfl, rfl⟩⟩

theorem Loaded.entry (loaded : Loaded st st') (cluster : Nat) :
    Loaded st (fatCacheEntry cluster st') := by
  have kept := loaded.kept.trans (fatCacheEntry_kept cluster st')
  obtain ⟨clean, disk⟩ := fatCacheLoad_clean loaded.clean (st'.boot.fatSector cluster)
  refine ⟨kept, disk.trans loaded.disk, clean, ?_⟩
  rw [fatCacheEntry, disk]
  by_cases same : st'.boot.fatSector cluster = st'.cachedFatSectorNr
  · rw [fatCacheLoad, if_neg (not_not.mpr same)]
    exact loaded.cache
  · right
    rw [fatCacheLoad, if_pos same, fatCacheFlush_clean loaded.clean]

theorem Loaded.trans (first : Loaded st mid) (second : Loaded mid st') : Loaded st st' := by
  refine ⟨first.kept.trans second.kept, second.disk.trans first.disk, second.clean, ?_⟩
  rcases second.cache with ⟨nr, buf⟩ | fresh
  · rw [nr, buf, second.disk]
    exact first.cache
  · exact .inr fresh

theorem Loaded.next (loaded : Loaded st st') (cluster : Nat) :
    Loaded st (fatNextCluster cluster st').2 :=
  loaded.entry cluster

theorem Coherent.loaded (coherent : Coherent st) (loaded : Loaded st st') : Coherent st' where
  clean := loaded.clean
  current := by
    intro fat
    rcases loaded.cache with ⟨nr, buf⟩ | fresh
    · rw [nr, loaded.kept.boot] at fat
      rw [buf, nr, loaded.disk]
      exact coherent.current fat
    · exact fresh

/-- The search of `fat_extend_chain` over a clean cache, whatever it holds. -/
theorem extendScan_clean (loaded : Loaded st start) (remaining i : Nat) :
    ((extendScan remaining i start).1 = none ∧ Loaded st (extendScan remaining i start).2) ∨
      ∃ n mid, i ≤ n ∧ n < i + remaining ∧ Loaded st mid ∧
        mid.cachedFatSectorNr = st.boot.fatSector n ∧ mid.cachedFatBuf.entry (entryIndex n) = 0 ∧
        extendScan remaining i start = (some n, extendMark n mid) := by
  induction remaining generalizing i start with
  | zero => exact .inl ⟨rfl, loaded⟩
  | succ remaining ih =>
    have here := loaded.entry i
    rw [extendScan]
    split
    · rename_i free
      right
      refine ⟨i, fatCacheEntry i start, Nat.le_refl _, by omega, here, ?_, free, rfl⟩
      rw [fatCacheEntry, fatCacheLoad_nr, loaded.kept.boot]
    · rcases ih here (i + 1) with absent | ⟨n, mid, low, high, found⟩
      · exact .inl absent
      · exact .inr ⟨n, mid, by omega, by omega, found⟩

/-- The search of `fat_alloc_cluster` for one cluster over a clean cache. -/
theorem allocScan_clean (loaded : Loaded st start) (remaining i : Nat) (low : 0 < i) :
    ((allocScan remaining i 1 0 0 start).1 = 0 ∧ Loaded st (allocScan remaining i 1 0 0 start).2) ∨
      ∃ n mid, i ≤ n ∧ n < i + remaining ∧ Loaded st mid ∧
        mid.cachedFatSectorNr = st.boot.fatSector n ∧ mid.cachedFatBuf.entry (entryIndex n) = 0 ∧
        allocScan remaining i 1 0 0 start = (n, fatCachePut (entryIndex n) 0x0FFFFFFF mid) := by
  induction remaining generalizing i start with
  | zero => exact .inl ⟨rfl, loaded⟩
  | succ remaining ih =>
    have here := loaded.entry i
    rw [allocScan, if_neg (by decide)]
    split
    · rename_i free
      right
      refine ⟨i, fatCacheEntry i start, Nat.le_refl _, by omega, here, ?_, free, ?_⟩
      · rw [fatCacheEntry, fatCacheLoad_nr, loaded.kept.boot]
      · cases remaining <;> simp [allocScan, allocMark]
    · rcases ih here (i + 1) (by omega) with absent | ⟨n, mid, low, high, found⟩
      · exact .inl absent
      · exact .inr ⟨n, mid, by omega, by omega, found⟩

/-- A clean cache that agrees with the disk except for entries freed on disk. -/
structure Lagging (st : FatState) : Prop where
  clean : st.fatCacheDirty = false
  entries : ∀ cluster, cluster < st.boot.totalClusters + 2 →
    st.boot.fatSector cluster = st.cachedFatSectorNr →
    st.cachedFatBuf.entry (entryIndex cluster) = fatEntry st.boot st.disk cluster ∨
      (fatEntry st.boot st.disk cluster = 0 ∧ st.cachedFatBuf.entry (entryIndex cluster) ≠ 0)

theorem Coherent.lagging (coherent : Coherent st) (layout : st.boot.FatLayout) : Lagging st where
  clean := coherent.clean
  entries := by
    intro cluster inRange cached
    have fat := layout.fatSector_isFat inRange
    rw [cached] at fat
    left
    rw [coherent.current fat, fatEntry, cached]

theorem Lagging.loaded (lagging : Lagging st) (loaded : Loaded st st') : Lagging st' where
  clean := loaded.clean
  entries := by
    intro cluster inRange cached
    rw [loaded.kept.boot] at inRange cached ⊢
    rcases loaded.cache with ⟨nr, buf⟩ | fresh
    · rw [buf, loaded.disk]
      exact lagging.entries cluster inRange (cached.trans nr)
    · left
      rw [fresh, fatEntry, cached]

/-- The driver sees an entry that is taken on disk as it is. -/
theorem Lagging.read (lagging : Lagging st) (inRange : cluster < st.boot.totalClusters + 2)
    (used : fatEntry st.boot st.disk cluster ≠ 0) :
    (fatNextCluster cluster st).1 = directNext st.boot cluster st.disk := by
  have loaded := (Loaded.refl lagging.clean).entry cluster
  have nr : (fatCacheEntry cluster st).cachedFatSectorNr = st.boot.fatSector cluster :=
    fatCacheLoad_nr _ st
  have entries := (lagging.loaded loaded).entries cluster
  rw [loaded.kept.boot, loaded.disk, nr] at entries
  rcases entries inRange rfl with same | ⟨zero, _⟩
  · rw [fatNextCluster, same, directNext]
  · exact absurd zero used

theorem fatNextCluster_link (lagging : Lagging st) (inRange : cluster < st.boot.totalClusters + 2)
    (used : fatEntry st.boot st.disk cluster ≠ 0)
    (step : nextOf st.boot st.disk cluster = some successor) :
    (fatNextCluster cluster st).1 = successor ∧ successor < endOfChain := by
  rw [nextOf, ← lagging.read inRange used] at step
  split at step
  · simp at step
  · rename_i going
    have same := Option.some.inj step
    exact ⟨same, by omega⟩

theorem fatNextCluster_last (lagging : Lagging st) (inRange : cluster < st.boot.totalClusters + 2)
    (used : fatEntry st.boot st.disk cluster ≠ 0) (stop : nextOf st.boot st.disk cluster = none) :
    endOfChain ≤ (fatNextCluster cluster st).1 := by
  rw [nextOf, ← lagging.read inRange used] at stop
  split at stop
  · assumption
  · simp at stop

/-- Sector contents outside the FAT may change under a lagging cache. -/
theorem Lagging.rewrite (lagging : Lagging st) (layout : st.boot.FatLayout) (disk : Disk)
    (same : ∀ lba, st.boot.IsFatSector lba → ataReadSector disk lba = ataReadSector st.disk lba) :
    Lagging { st with disk := disk } where
  clean := lagging.clean
  entries := by
    intro cluster inRange cached
    rw [fatEntry_congr layout same inRange]
    exact lagging.entries cluster inRange cached

/-- What taking the free cluster `n` does to the volume. -/
structure Marks (boot : FAT32BootSector) (disk disk' : Disk) (n : Nat) : Prop where
  data : boot.DataCluster n
  free : fatEntry boot disk n = 0
  last : fatEntry boot disk' n = 0x0FFFFFFF
  others : ∀ cluster, cluster < boot.totalClusters + 2 → fatEntry boot disk cluster ≠ 0 →
    fatEntry boot disk' cluster = fatEntry boot disk cluster
  contents : ∀ cluster, boot.DataCluster cluster → ∀ s < boot.spc,
    clusterData boot disk' cluster s = clusterData boot disk cluster s

/-- The state after the entry of `n` is marked in the cached sector and flushed. -/
def flushMark (n : Nat) (st : FatState) : FatState :=
  fatCacheFlush (fatCachePut (entryIndex n) 0x0FFFFFFF st)

theorem flushMark_coherent (n : Nat) (st : FatState) :
    (flushMark n st).disk = ataWriteSector st.disk st.cachedFatSectorNr
        (st.cachedFatBuf.setEntry (entryIndex n) 0x0FFFFFFF) ∧ Coherent (flushMark n st) := by
  refine ⟨rfl, fatCacheFlush_dirty _, fun _ => ?_⟩
  exact (ataReadSector_same _ _ rfl).symm

theorem fatEntry_flushMark (boot : FAT32BootSector) (cached : st.cachedFatSectorNr = boot.fatSector n) :
    fatEntry boot (flushMark n st).disk n = 0x0FFFFFFF := by
  rw [(flushMark_coherent n st).1, fatEntry, cached, ataReadSector_same _ _ rfl,
    Sector.entry_setEntry_same _ (entryIndex_lt _) (by decide)]

/-- The entries of the other clusters when that sector is written back. -/
theorem fatEntry_flushMark_other (wf : st.boot.WellFormed) (loaded : Loaded st mid) (data : st.boot.DataCluster n)
    (cached : mid.cachedFatSectorNr = st.boot.fatSector n) (inRange : cluster < st.boot.totalClusters + 2)
    (different : cluster ≠ n) :
    fatEntry st.boot (flushMark n mid).disk cluster =
      if st.boot.fatSector cluster = st.boot.fatSector n then mid.cachedFatBuf.entry (entryIndex cluster)
      else fatEntry st.boot st.disk cluster := by
  rw [(flushMark_coherent n mid).1, fatEntry, cached, loaded.disk]
  split
  · rename_i sector
    have index : entryIndex cluster ≠ entryIndex n := fun same => different (wf.entry_inj inRange data.2 sector same)
    rw [sector, ataReadSector_same _ _ rfl, Sector.entry_setEntry_other _ (entryIndex_lt _) index]
  · rename_i sector
    rw [ataReadSector_other, ← fatEntry]
    rw [st.boot.ataLba_fatSector, st.boot.ataLba_fatSector]
    exact sector

theorem Lagging.mark (lagging : Lagging st) (wf : st.boot.WellFormed)
    (data : st.boot.DataCluster n) (cached : st.cachedFatSectorNr = st.boot.fatSector n)
    (free : st.cachedFatBuf.entry (entryIndex n) = 0) :
    Marks st.boot st.disk (flushMark n st).disk n := by
  have disk := (flushMark_coherent n st).1
  refine ⟨data, ?_, ?_, ?_, ?_⟩
  · rcases lagging.entries n data.2 cached.symm with same | ⟨zero, _⟩
    · exact same.symm.trans free
    · exact zero
  · exact fatEntry_flushMark st.boot cached
  · intro cluster inRange used
    rw [disk, fatEntry, cached]
    by_cases sector : st.boot.fatSector cluster = st.boot.fatSector n
    · rcases lagging.entries cluster inRange (sector.trans cached.symm) with same | ⟨zero, _⟩
      · have different : entryIndex cluster ≠ entryIndex n := by
          intro index
          have both := wf.entry_inj inRange data.2 sector index
          rw [both, free] at same
          rw [both] at used
          exact used same.symm
        rw [sector, ataReadSector_same _ _ rfl,
          Sector.entry_setEntry_other _ (entryIndex_lt _) different, same]
      · exact absurd zero used
    · rw [ataReadSector_other, fatEntry]
      rw [st.boot.ataLba_fatSector, st.boot.ataLba_fatSector]
      exact sector
  · intro cluster member s inside
    rw [disk, clusterData, cached, ataReadSector_other, clusterData]
    rw [st.boot.ataLba_fatSector]
    exact wf.layout.disjoint _ cluster s (wf.fatSector_isFat data.2) member inside

theorem Loaded.printed (loaded : Loaded st st') (console : List String) :
    Loaded st { st' with console := console } :=
  ⟨⟨loaded.kept.boot, loaded.kept.cwdCluster, loaded.kept.cwdPath⟩, loaded.disk, loaded.clean,
    loaded.cache⟩

theorem Loaded.moved (loaded : Loaded st st') (cwd : Nat) (path : Bytes) :
    Loaded { st with cwdCluster := cwd, cwdPath := path }
      { st' with cwdCluster := cwd, cwdPath := path } :=
  ⟨⟨loaded.kept.boot, rfl, rfl⟩, loaded.disk, loaded.clean, loaded.cache⟩

theorem Loaded.kprintf (loaded : Loaded st st') (text : String) : Loaded st (st'.kprintf text) :=
  loaded.printed _

/-- The disk after a cluster is zeroed and linked behind `prevCluster`. -/
def linkedDisk (boot : FAT32BootSector) (prevCluster n : Nat) (disk : Disk) : Disk :=
  setFatEntry boot prevCluster n (zeroSectors (boot.clusterSector n) boot.spc disk)

theorem fatEntry_linkedDisk (wf : boot.WellFormed) (prevInRange : prevCluster < boot.totalClusters + 2)
    (data : boot.DataCluster n) (disk : Disk) (inRange : cluster < boot.totalClusters + 2) :
    fatEntry boot (linkedDisk boot prevCluster n disk) cluster =
      if cluster = prevCluster then n else fatEntry boot disk cluster := by
  have bound := wf.totalClusters_lt
  have high := data.2
  rw [linkedDisk, fatEntry_setFatEntry wf _ prevInRange inRange (by omega),
    fatEntry_congr wf.layout (fun lba fat => zeroCluster_offFat wf.layout data _ fat) inRange]

/-- `fat_extend_chain` behind a search that has found a cluster. -/
theorem fatExtendChain_found (wf : st.boot.WellFormed) (prevInRange : prevCluster < st.boot.totalClusters + 2)
    (data : st.boot.DataCluster n) (loaded : Loaded st mid)
    (found : extendScan st.boot.scanLength 2 st = (some n, extendMark n mid)) :
    (fatExtendChain prevCluster st).1 = n ∧ Coherent (fatExtendChain prevCluster st).2 ∧
      (fatExtendChain prevCluster st).2.disk = linkedDisk st.boot prevCluster n (flushMark n mid).disk := by
  simp only [fatExtendChain, found]
  refine ⟨trivial, ?_⟩
  have boot : (flushMark n mid).boot = st.boot :=
    ((fatCachePut_kept _ _ mid).trans (fatCacheFlush_kept _)).boot.trans loaded.kept.boot
  have zeroed := (flushMark_coherent n mid).2.rewrite
    (zeroSectors (st.boot.clusterSector n) st.boot.spc (flushMark n mid).disk) (by
      intro lba fat
      rw [boot] at fat
      exact zeroCluster_offFat wf.layout data _ fat)
  have same : extendMark n mid = { flushMark n mid with
      disk := zeroSectors (st.boot.clusterSector n) st.boot.spc (flushMark n mid).disk } := by
    rw [← boot]
    rfl
  rw [same]
  have linked := (zeroed.represents.write (by rw [boot]; exact wf.layout)
    (by rw [boot]; exact prevInRange) n).flush
  refine ⟨linked.2, linked.1.trans ?_⟩
  rw [linkedDisk, ← boot]

/-- `fat_extend_chain` over a clean cache, whatever it holds: it fails without
a change on disk, or marks, zeroes and links a cluster and leaves the cache coherent. -/
theorem fatExtendChain_clean (clean : st.fatCacheDirty = false) (wf : st.boot.WellFormed)
    (prevInRange : prevCluster < st.boot.totalClusters + 2) :
    ((fatExtendChain prevCluster st).1 = 0x0FFFFFFF ∧ Loaded st (fatExtendChain prevCluster st).2) ∨
      ∃ n mid, st.boot.DataCluster n ∧ Loaded st mid ∧
        mid.cachedFatSectorNr = st.boot.fatSector n ∧ mid.cachedFatBuf.entry (entryIndex n) = 0 ∧
        (fatExtendChain prevCluster st).1 = n ∧ Coherent (fatExtendChain prevCluster st).2 ∧
        (fatExtendChain prevCluster st).2.disk =
          linkedDisk st.boot prevCluster n (flushMark n mid).disk := by
  rcases extendScan_clean (.refl clean) st.boot.scanLength 2 with
    ⟨absent, loaded⟩ | ⟨n, mid, low, high, loaded, nr, free, found⟩
  · simp only [fatExtendChain, absent]
    exact .inl ⟨trivial, loaded.kprintf _⟩
  · have bound := @scanLength_le st.boot
    have data : st.boot.DataCluster n := ⟨low, by omega⟩
    exact .inr ⟨n, mid, data, loaded, nr, free, fatExtendChain_found wf prevInRange data loaded found⟩

theorem Marks.extends (marks : Marks boot disk disk' n) (wf : boot.WellFormed)
    (prevInRange : prevCluster < boot.totalClusters + 2) (prevUsed : fatEntry boot disk prevCluster ≠ 0) :
    Extends boot disk (linkedDisk boot prevCluster n disk') prevCluster n := by
  have different : n ≠ prevCluster := fun same => prevUsed (same ▸ marks.free)
  refine ⟨marks.data, marks.free, ?_, ?_, ?_, ?_, ?_⟩
  · rw [fatEntry_linkedDisk wf prevInRange marks.data _ prevInRange, if_pos rfl]
  · rw [fatEntry_linkedDisk wf prevInRange marks.data _ marks.data.2, if_neg different, marks.last]
  · intro cluster inRange notPrev used
    rw [fatEntry_linkedDisk wf prevInRange marks.data _ inRange, if_neg notPrev,
      marks.others cluster inRange used]
  · intro s inside
    rw [linkedDisk, clusterData_setFatEntry wf _ _ prevInRange marks.data inside,
      clusterData_zeroSectors_same wf _ marks.data (Nat.le_refl _) inside]
  · intro cluster member notNew s inside
    rw [linkedDisk, clusterData_setFatEntry wf _ _ prevInRange member inside,
      clusterData_zeroSectors_other wf _ marks.data member inside notNew,
      marks.contents cluster member s inside]

/-- `fat_extend_chain` over a lagging cache takes a cluster that is free on disk. -/
theorem fatExtendChain_lagging (lagging : Lagging st) (wf : st.boot.WellFormed)
    (prevInRange : prevCluster < st.boot.totalClusters + 2)
    (prevUsed : fatEntry st.boot st.disk prevCluster ≠ 0) :
    ((fatExtendChain prevCluster st).1 = 0x0FFFFFFF ∧ Loaded st (fatExtendChain prevCluster st).2) ∨
      (Coherent (fatExtendChain prevCluster st).2 ∧
        Extends st.boot st.disk (fatExtendChain prevCluster st).2.disk prevCluster
          (fatExtendChain prevCluster st).1) := by
  rcases fatExtendChain_clean lagging.clean wf prevInRange with
    failed | ⟨n, mid, data, loaded, nr, free, value, coherent, disk⟩
  · exact .inl failed
  · right
    refine ⟨coherent, ?_⟩
    have marks := (lagging.loaded loaded).mark (by rw [loaded.kept.boot]; exact wf)
      (by rw [loaded.kept.boot]; exact data) (by rw [loaded.kept.boot]; exact nr) free
    rw [loaded.kept.boot, loaded.disk] at marks
    rw [value, disk]
    exact marks.extends wf prevInRange prevUsed

theorem clusterCount_one {boot : FAT32BootSector} (wf : boot.WellFormed) : boot.clusterCount 1 = 1 := by
  have spc : boot.spc < 256 := UInt8.toNat_lt _
  have positive : 0 < boot.clusterSize := Nat.mul_pos wf.spc_pos (by decide)
  have small : boot.clusterSize < 131072 := by
    rw [FAT32BootSector.clusterSize]
    omega
  rw [FAT32BootSector.clusterCount, u32_of_lt (by omega), sub32_of_le (by omega) (by omega),
    Nat.add_sub_cancel_left, Nat.div_self positive]

/-- Reserving one cluster over a lagging cache: 0 without a change on disk, or
a cluster that is free on disk. -/
theorem fatAllocCluster_lagging (lagging : Lagging st) (wf : st.boot.WellFormed) :
    ((fatAllocCluster 1 st).1 = 0 ∧ Loaded st (fatAllocCluster 1 st).2) ∨
      (Coherent (fatAllocCluster 1 st).2 ∧
        Marks st.boot st.disk (fatAllocCluster 1 st).2.disk (fatAllocCluster 1 st).1) := by
  simp only [fatAllocCluster, clusterCount_one wf]
  rcases allocScan_clean (.refl lagging.clean) st.boot.scanLength 2 (by decide) with
    ⟨absent, loaded⟩ | ⟨n, mid, low, high, loaded, nr, free, found⟩
  · rw [fatCacheFlush_clean loaded.clean]
    exact .inl ⟨absent, loaded⟩
  · right
    have bound := @scanLength_le st.boot
    have marks := (lagging.loaded loaded).mark (by rw [loaded.kept.boot]; exact wf)
      (by rw [loaded.kept.boot]; exact ⟨low, by omega⟩) (by rw [loaded.kept.boot]; exact nr) free
    rw [loaded.kept.boot, loaded.disk] at marks
    rw [found]
    exact ⟨(flushMark_coherent n mid).2, marks⟩

theorem directAllocScan_one (disk : Disk) (remaining i : Nat) (low : 0 < i) :
    (directAllocScan boot remaining i 1 0 0 disk).1 = (firstFree boot disk remaining i).getD 0 := by
  induction remaining generalizing i with
  | zero => rfl
  | succ remaining ih =>
    rw [directAllocScan, firstFree, if_neg (by decide)]
    split
    · cases remaining <;> simp [directAllocScan]
    · exact ih (i + 1) (by omega)

/-- `fat_alloc_cluster(1)` over a coherent cache fails only on a full volume. -/
theorem fatAllocCluster_free (wf : st.boot.WellFormed) (coherent : Coherent st)
    (some : (freeClusters st.boot st.disk).card ≠ 0) :
    st.boot.DataCluster (fatAllocCluster 1 st).1 := by
  rw [(fatAllocCluster_direct coherent wf.layout 1).1, directAlloc, clusterCount_one wf,
    directAllocScan_one _ _ _ (by decide), wf.scanLength_eq]
  cases found : firstFree st.boot st.disk st.boot.totalClusters 2 with
  | some n =>
    obtain ⟨low, high, _⟩ := firstFree_some found
    exact ⟨low, by simp only [Option.getD_some]; omega⟩
  | none =>
    obtain ⟨cluster, member⟩ := Finset.card_pos.mp (Nat.pos_of_ne_zero some)
    obtain ⟨data, zero⟩ := mem_freeClusters.mp member
    have high := data.2
    exact absurd zero (firstFree_none found cluster data.1 (by omega))

end LivlyOS.Fs
