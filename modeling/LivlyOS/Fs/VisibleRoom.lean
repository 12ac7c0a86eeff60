import LivlyOS.Fs.Lagging

/-! The free clusters that the driver sees. After `fat_delete_file` the cached FAT sector
may still show freed clusters as taken; the searches find every cluster that is free both
on disk and in the cache. -/

namespace LivlyOS.Fs

open LivlyOS.Lib

/-- The free clusters that the cache does not show as taken. -/
def visibleFree (st : FatState) : Finset Nat :=
  (freeClusters st.boot st.disk).filter fun cluster =>
    st.boot.fatSector cluster = st.cachedFatSectorNr → st.cachedFatBuf.entry (entryIndex cluster) = 0

theorem mem_visibleFree : cluster ∈ visibleFree st ↔ cluster ∈ freeClusters st.boot st.disk ∧
    (st.boot.fatSector cluster = st.cachedFatSectorNr → st.cachedFatBuf.entry (entryIndex cluster) = 0) :=
  Finset.mem_filter

theorem Coherent.visibleFree (coherent : Coherent st) (layout : st.boot.FatLayout) :
    visibleFree st = freeClusters st.boot st.disk := by
  rw [Fs.visibleFree, Finset.filter_eq_self]
  intro cluster member cached
  obtain ⟨data, free⟩ := mem_freeClusters.mp member
  have fat := layout.fatSector_isFat data.2
  rw [cached] at fat
  rw [coherent.current fat, ← cached]
  exact free

theorem Loaded.visibleFree (loaded : Loaded st mid) : visibleFree st ⊆ visibleFree mid := by
  intro cluster member
  obtain ⟨free, shown⟩ := mem_visibleFree.mp member
  rw [mem_visibleFree, loaded.kept.boot, loaded.disk]
  refine ⟨free, fun cached => ?_⟩
  rcases loaded.cache with ⟨nr, buf⟩ | fresh
  · rw [buf]
    exact shown (cached.trans nr)
  · rw [fresh, ← cached, loaded.disk]
    exact (mem_freeClusters.mp free).2

theorem visibleFree_entry (clean : st.fatCacheDirty = false) (member : cluster ∈ visibleFree st) :
    (fatCacheEntry cluster st).cachedFatBuf.entry (entryIndex cluster) = 0 := by
  have loaded := (Loaded.refl clean).entry cluster
  have nr : (fatCacheEntry cluster st).cachedFatSectorNr = st.boot.fatSector cluster := fatCacheLoad_nr _ st
  exact (mem_visibleFree.mp (loaded.visibleFree member)).2 (by rw [loaded.kept.boot, nr])

/-- The search of `fat_extend_chain` does not pass over such a cluster. -/
theorem extendScan_visible (clean : st.fatCacheDirty = false) (member : cluster ∈ visibleFree st)
    (low : i ≤ cluster) (high : cluster < i + remaining) : (extendScan remaining i st).1 ≠ none := by
  induction remaining generalizing i st with
  | zero => omega
  | succ remaining ih =>
    have loaded := (Loaded.refl clean).entry i
    rw [extendScan]
    split
    · simp
    · rename_i taken
      have later : i ≠ cluster := by
        rintro rfl
        exact taken (visibleFree_entry clean member)
      exact ih loaded.clean (loaded.visibleFree member) (by omega) (by omega)

theorem allocScan_visible (clean : st.fatCacheDirty = false) (member : cluster ∈ visibleFree st)
    (positive : 0 < i) (low : i ≤ cluster) (high : cluster < i + remaining) :
    (allocScan remaining i 1 0 0 st).1 ≠ 0 := by
  induction remaining generalizing i st with
  | zero => omega
  | succ remaining ih =>
    have loaded := (Loaded.refl clean).entry i
    rw [allocScan, if_neg (by decide)]
    split
    · cases remaining <;> simp [allocScan] <;> omega
    · rename_i taken
      have later : i ≠ cluster := by
        rintro rfl
        exact taken (visibleFree_entry clean member)
      exact ih loaded.clean (loaded.visibleFree member) (by omega) (by omega) (by omega)

theorem visibleFree_range (wf : st.boot.WellFormed) (member : cluster ∈ visibleFree st) :
    2 ≤ cluster ∧ cluster < 2 + st.boot.scanLength := by
  obtain ⟨low, high⟩ := (mem_freeClusters.mp (mem_visibleFree.mp member).1).1
  rw [wf.scanLength_eq]
  omega

theorem fatAllocCluster_visible (wf : st.boot.WellFormed) (clean : st.fatCacheDirty = false)
    (room : (visibleFree st).Nonempty) : (fatAllocCluster 1 st).1 ≠ 0 := by
  obtain ⟨cluster, member⟩ := room
  obtain ⟨low, high⟩ := visibleFree_range wf member
  rw [fatAllocCluster, clusterCount_one wf]
  exact allocScan_visible clean member (by decide) low high

/-- Writing back the sector of the new cluster brings back no other visible cluster. -/
theorem flushMark_visible (wf : st.boot.WellFormed) (loaded : Loaded st mid) (data : st.boot.DataCluster n)
    (cached : mid.cachedFatSectorNr = st.boot.fatSector n) (member : cluster ∈ visibleFree st)
    (different : cluster ≠ n) : fatEntry st.boot (flushMark n mid).disk cluster = 0 := by
  obtain ⟨free, shown⟩ := mem_visibleFree.mp (loaded.visibleFree member)
  rw [loaded.kept.boot, loaded.disk] at free
  rw [loaded.kept.boot] at shown
  obtain ⟨inside, zero⟩ := mem_freeClusters.mp free
  rw [(flushMark_coherent n mid).1, fatEntry, cached, loaded.disk]
  by_cases sector : st.boot.fatSector cluster = st.boot.fatSector n
  · have index : entryIndex cluster ≠ entryIndex n := fun same => different (wf.entry_inj inside.2 data.2 sector same)
    rw [sector, ataReadSector_same _ _ rfl, Sector.entry_setEntry_other _ (entryIndex_lt _) index]
    exact shown (sector.trans cached.symm)
  · rw [ataReadSector_other, ← fatEntry, zero]
    rw [st.boot.ataLba_fatSector, st.boot.ataLba_fatSector]
    exact sector

/-- `fat_extend_chain` succeeds with a visible cluster left, and takes at most one. -/
theorem fatExtendChain_visible (lagging : Lagging st) (wf : st.boot.WellFormed)
    (prevInRange : prevCluster < st.boot.totalClusters + 2) (prevUsed : fatEntry st.boot st.disk prevCluster ≠ 0)
    (room : (visibleFree st).Nonempty) :
    Coherent (fatExtendChain prevCluster st).2 ∧
      Extends st.boot st.disk (fatExtendChain prevCluster st).2.disk prevCluster (fatExtendChain prevCluster st).1 ∧
      (visibleFree st).erase (fatExtendChain prevCluster st).1 ⊆
        freeClusters st.boot (fatExtendChain prevCluster st).2.disk := by
  rcases fatExtendChain_clean lagging.clean wf prevInRange with
    ⟨failed, -⟩ | ⟨n, mid, data, loaded, nr, free, value, coherent, disk⟩
  · obtain ⟨cluster, member⟩ := room
    obtain ⟨low, high⟩ := visibleFree_range wf member
    have found := extendScan_visible lagging.clean member low high
    rcases extendScan_clean (.refl lagging.clean) st.boot.scanLength 2 with ⟨none, -⟩ | ⟨n, mid, _, small, _, _, _, scan⟩
    · exact absurd none found
    · have bound := wf.totalClusters_lt
      rw [wf.scanLength_eq] at small
      simp only [fatExtendChain, scan] at failed
      omega
  · have marks := (lagging.loaded loaded).mark (by rw [loaded.kept.boot]; exact wf)
      (by rw [loaded.kept.boot]; exact data) (by rw [loaded.kept.boot]; exact nr) free
    rw [loaded.kept.boot, loaded.disk] at marks
    rw [value, disk]
    refine ⟨coherent, marks.extends wf prevInRange prevUsed, fun cluster member => ?_⟩
    obtain ⟨different, visible⟩ := Finset.mem_erase.mp member
    obtain ⟨inside, zero⟩ := mem_freeClusters.mp (mem_visibleFree.mp visible).1
    have notPrev : cluster ≠ prevCluster := by
      rintro rfl
      exact prevUsed zero
    rw [mem_freeClusters, fatEntry_linkedDisk wf prevInRange data _ inside.2, if_neg notPrev]
    exact ⟨inside, flushMark_visible wf loaded data nr visible different⟩

theorem visibleFree_rewrite (st : FatState) {disk : Disk} (same : freeClusters st.boot disk = freeClusters st.boot st.disk) :
    visibleFree { st with disk } = visibleFree st := by
  rw [visibleFree, visibleFree, same]

end LivlyOS.Fs
