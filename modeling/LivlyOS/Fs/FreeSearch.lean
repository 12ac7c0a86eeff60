import LivlyOS.Fs.VisibleRoom

namespace LivlyOS.Fs

open LivlyOS.Lib

/-- The FAT entry of a cluster as the driver reads it. -/
def seenEntry (st : FatState) (cluster : Nat) : Nat :=
  (fatCacheEntry cluster st).cachedFatBuf.entry (entryIndex cluster)

/-- The searches for a free cluster begin with the first sector of the FAT in the cache. -/
def searchStart (st : FatState) : FatState := fatCacheEntry 2 st

/-- The free clusters that these searches do not pass over. -/
def seenFree (st : FatState) : Finset Nat := visibleFree (searchStart st)

/-- The free clusters that they pass over. -/
def hiddenFree (st : FatState) : Finset Nat := freeClusters st.boot st.disk \ seenFree st

/-- The hidden ones that are in use again when the sector is written back. -/
def lostFree (st : FatState) : Finset Nat :=
  if ∃ cluster ∈ seenFree st, st.boot.fatSector cluster = st.boot.fatSector 2 then hiddenFree st else ∅

section Load

variable {st : FatState}

theorem fatCacheEntry_cached (cached : st.boot.fatSector cluster = st.cachedFatSectorNr) :
    fatCacheEntry cluster st = st := by
  rw [fatCacheEntry, fatCacheLoad, if_neg (not_not.mpr cached)]

theorem fatCacheEntry_fresh (clean : st.fatCacheDirty = false)
    (other : st.boot.fatSector cluster ≠ st.cachedFatSectorNr) :
    fatCacheEntry cluster st = { st with
      cachedFatSectorNr := st.boot.fatSector cluster
      cachedFatBuf := ataReadSector st.disk (st.boot.fatSector cluster) } := by
  rw [fatCacheEntry, fatCacheLoad, if_pos other, fatCacheFlush_clean clean]

theorem seenEntry_cached (cached : st.boot.fatSector cluster = st.cachedFatSectorNr) :
    seenEntry st cluster = st.cachedFatBuf.entry (entryIndex cluster) := by
  rw [seenEntry, fatCacheEntry_cached cached]

theorem seenEntry_fresh (clean : st.fatCacheDirty = false)
    (other : st.boot.fatSector cluster ≠ st.cachedFatSectorNr) :
    seenEntry st cluster = fatEntry st.boot st.disk cluster := by
  rw [seenEntry, fatCacheEntry_fresh clean other, fatEntry]

/-- A visible cluster is a free one whose entry the driver reads as zero. -/
theorem mem_visibleFree_iff (clean : st.fatCacheDirty = false) :
    cluster ∈ visibleFree st ↔ cluster ∈ freeClusters st.boot st.disk ∧ seenEntry st cluster = 0 := by
  rw [mem_visibleFree]
  by_cases cached : st.boot.fatSector cluster = st.cachedFatSectorNr
  · rw [seenEntry_cached cached]
    exact and_congr_right fun _ => forall_prop_of_true cached
  · rw [seenEntry_fresh clean cached]
    constructor
    · exact fun visible => ⟨visible.1, (mem_freeClusters.mp visible.1).2⟩
    · exact fun free => ⟨free.1, fun same => absurd same cached⟩

theorem Lagging.free_of_seen (lagging : Lagging st) (inRange : cluster < st.boot.totalClusters + 2)
    (seen : seenEntry st cluster = 0) : fatEntry st.boot st.disk cluster = 0 := by
  by_cases cached : st.boot.fatSector cluster = st.cachedFatSectorNr
  · rw [seenEntry_cached cached] at seen
    rcases lagging.entries cluster inRange cached with same | ⟨zero, -⟩
    · exact same.symm.trans seen
    · exact zero
  · rwa [seenEntry_fresh lagging.clean cached] at seen

theorem Lagging.mem_visibleFree (lagging : Lagging st) (data : st.boot.DataCluster cluster) :
    cluster ∈ visibleFree st ↔ seenEntry st cluster = 0 := by
  rw [mem_visibleFree_iff lagging.clean]
  exact and_iff_right_of_imp fun seen => mem_freeClusters.mpr ⟨data, lagging.free_of_seen data.2 seen⟩

end Load

theorem fatSector_mono {boot : FAT32BootSector} (wf : boot.WellFormed) (order : cluster ≤ other)
    (inRange : other < boot.totalClusters + 2) : boot.fatSector cluster ≤ boot.fatSector other := by
  have bound := wf.totalClusters_lt
  rw [boot.fatSector_eq, boot.fatSector_eq, u32_of_lt (by omega), u32_of_lt (by omega)]
  omega

/-- No cluster from `i` on has its entry in the cached sector without `i` itself. -/
def NotAhead (st : FatState) (i : Nat) : Prop :=
  ∀ cluster, i ≤ cluster → cluster < st.boot.totalClusters + 2 →
    st.boot.fatSector cluster = st.cachedFatSectorNr → st.boot.fatSector i = st.cachedFatSectorNr

section Scan

variable {st : FatState} (clean : st.fatCacheDirty = false) (notAhead : NotAhead st i)
include clean notAhead

/-- Loading the sector of an earlier cluster makes no difference later. -/
theorem fatCacheEntry_later (later : i ≤ cluster) (inRange : cluster < st.boot.totalClusters + 2) :
    fatCacheEntry cluster (fatCacheEntry i st) = fatCacheEntry cluster st := by
  by_cases cached : st.boot.fatSector i = st.cachedFatSectorNr
  · rw [fatCacheEntry_cached cached]
  · have other : st.boot.fatSector cluster ≠ st.cachedFatSectorNr :=
      fun same => cached (notAhead cluster later inRange same)
    rw [fatCacheEntry_fresh clean cached, fatCacheEntry_fresh clean other]
    by_cases sector : st.boot.fatSector cluster = st.boot.fatSector i
    · rw [fatCacheEntry_cached (by exact sector), sector]
    · exact fatCacheEntry_fresh (by exact clean) (by exact sector)

omit clean notAhead in
theorem NotAhead.next (wf : st.boot.WellFormed) : NotAhead (fatCacheEntry i st) (i + 1) := by
  have boot := (fatCacheEntry_kept i st).boot
  have nr : (fatCacheEntry i st).cachedFatSectorNr = st.boot.fatSector i := fatCacheLoad_nr _ st
  intro cluster later inRange same
  rw [boot] at inRange same ⊢
  rw [nr] at same ⊢
  have low := fatSector_mono wf (Nat.le_add_right i 1) (by omega : i + 1 < st.boot.totalClusters + 2)
  have high := fatSector_mono wf later inRange
  omega

end Scan

/-- The first cluster that a search from `i` on sees as free. -/
def firstSeen (st : FatState) : (remaining : Nat) → (i : Nat) → Option Nat
  | 0, _ => none
  | remaining + 1, i => if seenEntry st i = 0 then some i else firstSeen st remaining (i + 1)

theorem firstSeen_some (found : firstSeen st remaining i = some n) :
    i ≤ n ∧ n < i + remaining ∧ seenEntry st n = 0 ∧ ∀ cluster, i ≤ cluster → cluster < n → seenEntry st cluster ≠ 0 := by
  induction remaining generalizing i with
  | zero => cases found
  | succ remaining ih =>
    rw [firstSeen] at found
    split at found
    · rename_i zero
      cases found
      exact ⟨Nat.le_refl _, by omega, zero, by omega⟩
    · rename_i taken
      obtain ⟨low, high, zero, before⟩ := ih found
      refine ⟨by omega, by omega, zero, fun cluster above below => ?_⟩
      rcases Nat.eq_or_lt_of_le above with rfl | later
      · exact taken
      · exact before cluster later below

theorem firstSeen_none (absent : firstSeen st remaining i = none) :
    ∀ cluster, i ≤ cluster → cluster < i + remaining → seenEntry st cluster ≠ 0 := by
  induction remaining generalizing i with
  | zero => intro cluster _ _; omega
  | succ remaining ih =>
    rw [firstSeen] at absent
    split at absent
    · cases absent
    · rename_i taken
      intro cluster low high
      rcases Nat.eq_or_lt_of_le low with rfl | later
      · exact taken
      · exact ih absent cluster later (by omega)

theorem firstSeen_congr {st st' : FatState}
    (same : ∀ cluster, i ≤ cluster → cluster < i + remaining → seenEntry st' cluster = seenEntry st cluster) :
    firstSeen st' remaining i = firstSeen st remaining i := by
  induction remaining generalizing i with
  | zero => rfl
  | succ remaining ih =>
    rw [firstSeen, firstSeen, same i (Nat.le_refl i) (by omega), ih fun cluster low high => same cluster (by omega) (by omega)]

/-- One turn of a search over an entry that is taken. -/
theorem firstSeen_next (clean : st.fatCacheDirty = false) (notAhead : NotAhead st i)
    (bound : i + (remaining + 1) ≤ st.boot.totalClusters + 2) (taken : seenEntry st i ≠ 0) :
    firstSeen (fatCacheEntry i st) remaining (i + 1) = firstSeen st (remaining + 1) i := by
  rw [firstSeen, if_neg taken]
  apply firstSeen_congr
  intro cluster low high
  rw [seenEntry, seenEntry, fatCacheEntry_later clean notAhead (by omega) (by omega)]

theorem fatCacheEntry_twice (cluster : Nat) (st : FatState) :
    fatCacheEntry cluster (fatCacheEntry cluster st) = fatCacheEntry cluster st :=
  fatCacheEntry_cached (by rw [(fatCacheEntry_kept cluster st).boot]; exact (fatCacheLoad_nr _ st).symm)

/-- A search may find the sector of its first entry loaded. -/
theorem extendScan_load (remaining i : Nat) (st : FatState) :
    extendScan (remaining + 1) i (fatCacheEntry i st) = extendScan (remaining + 1) i st := by
  rw [extendScan, extendScan, fatCacheEntry_twice]

/-- `fat_extend_chain` takes the first cluster that it sees as free. -/
theorem extendScan_seen (clean : st.fatCacheDirty = false) (wf : st.boot.WellFormed) (notAhead : NotAhead st i)
    (bound : i + remaining ≤ st.boot.totalClusters + 2) :
    (∀ n, firstSeen st remaining i = some n →
        extendScan remaining i st = (some n, extendMark n (fatCacheEntry n st))) ∧
      (firstSeen st remaining i = none →
        (extendScan remaining i st).1 = none ∧ Loaded st (extendScan remaining i st).2) := by
  induction remaining generalizing i st with
  | zero => exact ⟨fun _ found => (by cases found), fun _ => ⟨rfl, .refl clean⟩⟩
  | succ remaining ih =>
    by_cases free : seenEntry st i = 0
    · have found : firstSeen st (remaining + 1) i = some i := if_pos free
      rw [found]
      constructor
      · intro n same
        cases same
        exact if_pos free
      · intro absent
        cases absent
    · have loaded := (Loaded.refl clean).entry i
      have boot := loaded.kept.boot
      have turn : extendScan (remaining + 1) i st = extendScan remaining (i + 1) (fatCacheEntry i st) := if_neg free
      obtain ⟨some, none⟩ := ih loaded.clean (by rw [boot]; exact wf) (NotAhead.next wf) (by rw [boot]; omega)
      rw [firstSeen_next clean notAhead bound free] at some none
      rw [turn]
      constructor
      · intro n found
        obtain ⟨later, high, _⟩ := firstSeen_some found
        rw [some n found, fatCacheEntry_later clean notAhead later (by omega)]
      · intro absent
        exact ⟨(none absent).1, loaded.trans (none absent).2⟩

section Start

variable {st : FatState}

theorem searchStart_loaded (clean : st.fatCacheDirty = false) : Loaded st (searchStart st) :=
  (Loaded.refl clean).entry 2

theorem searchStart_nr (st : FatState) : (searchStart st).cachedFatSectorNr = st.boot.fatSector 2 :=
  fatCacheLoad_nr _ st

theorem searchStart_notAhead (st : FatState) : NotAhead (searchStart st) 2 := by
  intro _ _ _ _
  rw [searchStart_nr, searchStart, (fatCacheEntry_kept 2 st).boot]

theorem extendScan_start (clean : st.fatCacheDirty = false) (wf : st.boot.WellFormed) :
    (∀ n, firstSeen (searchStart st) st.boot.scanLength 2 = some n →
        extendScan st.boot.scanLength 2 st = (some n, extendMark n (fatCacheEntry n (searchStart st)))) ∧
      (firstSeen (searchStart st) st.boot.scanLength 2 = none →
        (extendScan st.boot.scanLength 2 st).1 = none ∧ Loaded st (extendScan st.boot.scanLength 2 st).2) := by
  have bound := @scanLength_le st.boot
  have loaded := searchStart_loaded clean
  have boot := loaded.kept.boot
  cases scanned : st.boot.scanLength with
  | zero => exact ⟨fun _ found => (by cases found), fun _ => ⟨rfl, .refl clean⟩⟩
  | succ remaining =>
    rw [scanned] at bound
    obtain ⟨some, none⟩ := extendScan_seen loaded.clean (by rw [boot]; exact wf) (searchStart_notAhead st)
      (by rw [boot]; exact bound)
    rw [← extendScan_load]
    exact ⟨some, fun absent => ⟨(none absent).1, loaded.trans (none absent).2⟩⟩

theorem seenEntry_first (clean : st.fatCacheDirty = false) (first : st.boot.fatSector cluster = st.boot.fatSector 2) :
    seenEntry (searchStart st) cluster = (searchStart st).cachedFatBuf.entry (entryIndex cluster) := by
  apply seenEntry_cached
  rw [searchStart_nr, (searchStart_loaded clean).kept.boot, first]

variable (lagging : Lagging st)
include lagging

theorem Lagging.mem_seenFree (data : st.boot.DataCluster cluster) :
    cluster ∈ seenFree st ↔ seenEntry (searchStart st) cluster = 0 := by
  have loaded := searchStart_loaded lagging.clean
  exact (lagging.loaded loaded).mem_visibleFree (by rw [loaded.kept.boot]; exact data)

theorem seenFree_subset : seenFree st ⊆ freeClusters st.boot st.disk := by
  have loaded := searchStart_loaded lagging.clean
  intro cluster member
  have free := (mem_visibleFree.mp member).1
  rwa [loaded.kept.boot, loaded.disk] at free

/-- Outside the first FAT sector no free cluster is hidden. -/
theorem seenEntry_start (other : st.boot.fatSector cluster ≠ st.boot.fatSector 2) :
    seenEntry (searchStart st) cluster = fatEntry st.boot st.disk cluster := by
  have loaded := searchStart_loaded lagging.clean
  have seen := @seenEntry_fresh (searchStart st) cluster loaded.clean
  rw [searchStart_nr, loaded.kept.boot, loaded.disk] at seen
  exact seen other

theorem hidden_first (hidden : cluster ∈ hiddenFree st) : st.boot.fatSector cluster = st.boot.fatSector 2 := by
  obtain ⟨free, unseen⟩ := Finset.mem_sdiff.mp hidden
  obtain ⟨data, zero⟩ := mem_freeClusters.mp free
  by_contra other
  rw [lagging.mem_seenFree data, seenEntry_start lagging other] at unseen
  exact unseen zero

theorem firstSeen_lowest (wf : st.boot.WellFormed) :
    (∀ n, firstSeen (searchStart st) st.boot.scanLength 2 = some n →
        n ∈ seenFree st ∧ ∀ cluster ∈ seenFree st, n ≤ cluster) ∧
      (firstSeen (searchStart st) st.boot.scanLength 2 = none → seenFree st = ∅) := by
  have bound := @scanLength_le st.boot
  constructor
  · intro n found
    obtain ⟨low, high, zero, before⟩ := firstSeen_some found
    refine ⟨(lagging.mem_seenFree ⟨low, by omega⟩).mpr zero, fun cluster member => ?_⟩
    by_contra below
    have data := (mem_freeClusters.mp (seenFree_subset lagging member)).1
    exact before cluster data.1 (by omega) ((lagging.mem_seenFree data).mp member)
  · intro absent
    refine Finset.eq_empty_of_forall_notMem fun cluster member => ?_
    have data := (mem_freeClusters.mp (seenFree_subset lagging member)).1
    have inScan : cluster < 2 + st.boot.scanLength := by
      have high := data.2
      rw [wf.scanLength_eq]
      omega
    exact firstSeen_none absent cluster data.1 inScan ((lagging.mem_seenFree data).mp member)

end Start

/-- Whether a cluster of the first FAT sector is seen is told by the lowest one. -/
theorem lowest_first (lagging : Lagging st) (wf : st.boot.WellFormed) (member : n ∈ seenFree st)
    (least : ∀ cluster ∈ seenFree st, n ≤ cluster) :
    (∃ cluster ∈ seenFree st, st.boot.fatSector cluster = st.boot.fatSector 2) ↔
      st.boot.fatSector n = st.boot.fatSector 2 := by
  constructor
  · rintro ⟨cluster, seen, first⟩
    have low := (mem_freeClusters.mp (seenFree_subset lagging member)).1
    have high := (mem_freeClusters.mp (seenFree_subset lagging seen)).1
    have above := fatSector_mono wf low.1 low.2
    have below := fatSector_mono wf (least cluster seen) high.2
    omega
  · exact fun first => ⟨n, member, first⟩

/-- The entries that are free when the sector of the lowest one is written back as the driver sees it. -/
theorem free_behind_iff (lagging : Lagging st) (wf : st.boot.WellFormed) (member : n ∈ seenFree st)
    (least : ∀ cluster ∈ seenFree st, n ≤ cluster) (data : st.boot.DataCluster cluster) :
    (if st.boot.fatSector cluster = st.boot.fatSector n then seenEntry (searchStart st) cluster
      else fatEntry st.boot st.disk cluster) = 0 ↔ fatEntry st.boot st.disk cluster = 0 ∧ cluster ∉ lostFree st := by
  rw [lostFree, if_congr (lowest_first lagging wf member least) rfl rfl]
  split
  · rename_i sector
    by_cases first : st.boot.fatSector n = st.boot.fatSector 2
    · rw [if_pos first, hiddenFree, Finset.mem_sdiff, mem_freeClusters, and_iff_right data, ← lagging.mem_seenFree data]
      constructor
      · exact fun seen => ⟨(mem_freeClusters.mp (seenFree_subset lagging seen)).2, fun hidden => hidden.2 seen⟩
      · exact fun ⟨free, shown⟩ => by_contra fun unseen => shown ⟨free, unseen⟩
    · rw [if_neg first, seenEntry_start lagging (by rw [sector]; exact first)]
      exact (and_iff_left (Finset.notMem_empty cluster)).symm
  · rename_i sector
    refine (and_iff_left fun lost => ?_).symm
    split at lost
    · rename_i first
      exact sector ((hidden_first lagging lost).trans first.symm)
    · exact Finset.notMem_empty cluster lost

/-- `fat_extend_chain` fails exactly when it sees no free cluster. -/
theorem fatExtendChain_full (lagging : Lagging st) (wf : st.boot.WellFormed) (prevCluster : Nat) :
    (fatExtendChain prevCluster st).1 = 0x0FFFFFFF ↔ seenFree st = ∅ := by
  obtain ⟨some, none⟩ := extendScan_start lagging.clean wf
  obtain ⟨lowest, empty⟩ := firstSeen_lowest lagging wf
  rw [fatExtendChain]
  cases found : firstSeen (searchStart st) st.boot.scanLength 2 with
  | none => simp only [(none found).1, empty found]
  | some n =>
    obtain ⟨member, -⟩ := lowest n found
    have data := (mem_freeClusters.mp (seenFree_subset lagging member)).1.2
    have small := wf.totalClusters_lt
    rw [some n found]
    refine iff_of_false (by simp only; omega) fun none => ?_
    rw [none] at member
    exact Finset.notMem_empty n member

/-- `fat_extend_chain` over a lagging cache: it takes the lowest cluster that it sees, and those that are lost
with it, or fails when it sees none. -/
theorem fatExtendChain_seen {st : FatState} (lagging : Lagging st) (wf : st.boot.WellFormed)
    (prevInRange : prevCluster < st.boot.totalClusters + 2) (prevUsed : fatEntry st.boot st.disk prevCluster ≠ 0) :
    (seenFree st = ∅ ∧ (fatExtendChain prevCluster st).1 = 0x0FFFFFFF ∧ Loaded st (fatExtendChain prevCluster st).2) ∨
      ((seenFree st).Nonempty ∧ Coherent (fatExtendChain prevCluster st).2 ∧
        Extends st.boot st.disk (fatExtendChain prevCluster st).2.disk prevCluster (fatExtendChain prevCluster st).1 ∧
        (fatExtendChain prevCluster st).1 ∈ seenFree st ∧
        freeClusters st.boot (fatExtendChain prevCluster st).2.disk =
          (freeClusters st.boot st.disk \ lostFree st).erase (fatExtendChain prevCluster st).1) := by
  obtain ⟨some, none⟩ := extendScan_start lagging.clean wf
  obtain ⟨lowest, empty⟩ := firstSeen_lowest lagging wf
  cases found : firstSeen (searchStart st) st.boot.scanLength 2 with
  | none =>
    obtain ⟨absent, loaded⟩ := none found
    refine .inl ⟨empty found, ?_⟩
    simp only [fatExtendChain, absent]
    exact ⟨trivial, loaded.kprintf _⟩
  | some n =>
    obtain ⟨member, least⟩ := lowest n found
    obtain ⟨data, -⟩ := mem_freeClusters.mp (seenFree_subset lagging member)
    have start := searchStart_loaded lagging.clean
    have loaded := start.entry n
    have boot := loaded.kept.boot
    have nr : (fatCacheEntry n (searchStart st)).cachedFatSectorNr = st.boot.fatSector n := by
      rw [← start.kept.boot]
      exact fatCacheLoad_nr _ _
    obtain ⟨value, coherent, disk⟩ := fatExtendChain_found wf prevInRange data loaded (some n found)
    have marks := (lagging.loaded loaded).mark (by rw [boot]; exact wf) (by rw [boot]; exact data)
      (by rw [boot]; exact nr) ((lagging.mem_seenFree data).mp member)
    rw [boot, loaded.disk] at marks
    rw [value, disk]
    refine .inr ⟨⟨n, member⟩, coherent, marks.extends wf prevInRange prevUsed, member, ?_⟩
    ext cluster
    rw [Finset.mem_erase, Finset.mem_sdiff, mem_freeClusters, mem_freeClusters]
    by_cases inside : st.boot.DataCluster cluster
    · rw [and_iff_right inside, and_iff_right inside, fatEntry_linkedDisk wf prevInRange data _ inside.2]
      by_cases isPrev : cluster = prevCluster
      · rw [if_pos isPrev]
        have low := data.1
        exact iff_of_false (by omega) (fun both => prevUsed (isPrev ▸ both.2.1))
      rw [if_neg isPrev]
      by_cases same : cluster = n
      · rw [same, marks.last]
        exact iff_of_false (by decide) (fun both => both.1 rfl)
      have seen : (st.boot.fatSector cluster = st.boot.fatSector n) →
          (fatCacheEntry n (searchStart st)).cachedFatBuf.entry (entryIndex cluster) =
            seenEntry (searchStart st) cluster := by
        intro sector
        rw [seenEntry, fatCacheEntry, fatCacheEntry, start.kept.boot, sector]
      rw [fatEntry_flushMark_other wf loaded data nr inside.2 same, and_iff_right same,
        ← free_behind_iff lagging wf member least inside, ite_congr rfl seen fun _ => rfl]
    · exact iff_of_false (fun both => inside both.1) (fun both => inside both.2.1.1)

section Rewrite

variable {st : FatState} {disk : Disk} (lagging : Lagging st) (wf : st.boot.WellFormed)
  (same : ∀ lba, st.boot.IsFatSector lba → ataReadSector disk lba = ataReadSector st.disk lba)
include lagging wf same

/-- What the searches see does not depend on sectors outside the FAT. -/
theorem seenEntry_rewrite (data : st.boot.DataCluster cluster) :
    seenEntry (searchStart { st with disk := disk }) cluster = seenEntry (searchStart st) cluster := by
  have lagging' := lagging.rewrite wf.layout disk same
  by_cases first : st.boot.fatSector cluster = st.boot.fatSector 2
  · have fat := wf.fatSector_isFat data.2
    rw [seenEntry_first lagging.clean first, seenEntry_first lagging'.clean (by exact first)]
    by_cases cached : st.boot.fatSector 2 = st.cachedFatSectorNr
    · rw [searchStart, searchStart, fatCacheEntry_cached cached, fatCacheEntry_cached (by exact cached)]
    · rw [searchStart, searchStart, fatCacheEntry_fresh lagging.clean cached,
        fatCacheEntry_fresh lagging'.clean (by exact cached)]
      exact congrArg (Sector.entry · (entryIndex cluster)) (same _ (first ▸ fat))
  · rw [seenEntry_start lagging first, seenEntry_start lagging' (by exact first)]
    exact fatEntry_congr wf.layout same data.2

theorem seenFree_rewrite : seenFree { st with disk := disk } = seenFree st := by
  have lagging' := lagging.rewrite wf.layout disk same
  ext cluster
  by_cases data : st.boot.DataCluster cluster
  · rw [lagging.mem_seenFree data, lagging'.mem_seenFree (by exact data), seenEntry_rewrite lagging wf same data]
  · exact iff_of_false (fun seen => data (mem_freeClusters.mp (seenFree_subset lagging' seen)).1)
      (fun seen => data (mem_freeClusters.mp (seenFree_subset lagging seen)).1)

theorem lostFree_rewrite : lostFree { st with disk := disk } = lostFree st := by
  have free : freeClusters st.boot disk = freeClusters st.boot st.disk :=
    freeClusters_congr (fun _ inRange => fatEntry_congr wf.layout same inRange)
  rw [lostFree, lostFree, hiddenFree, hiddenFree, seenFree_rewrite lagging wf same, free]

end Rewrite

theorem lostFree_subset (st : FatState) : lostFree st ⊆ freeClusters st.boot st.disk := by
  rw [lostFree]
  split
  · exact Finset.sdiff_subset
  · exact Finset.empty_subset _

/-- A cache that agrees with the disk hides no free cluster, whatever is read. -/
theorem Coherent.seenFree (coherent : Coherent st) (layout : st.boot.FatLayout) (loaded : Loaded st mid) :
    seenFree mid = freeClusters st.boot st.disk := by
  have start := loaded.trans (searchStart_loaded loaded.clean)
  rw [Fs.seenFree, (coherent.loaded start).visibleFree (by rw [start.kept.boot]; exact layout),
    start.kept.boot, start.disk]

theorem Coherent.lostFree (coherent : Coherent st) (layout : st.boot.FatLayout) (loaded : Loaded st mid) :
    lostFree mid = ∅ := by
  rw [Fs.lostFree, hiddenFree, coherent.seenFree layout loaded, loaded.kept.boot, loaded.disk, Finset.sdiff_self,
    ite_self]

theorem card_taken (lagging : Lagging st) (member : n ∈ seenFree st) :
    ((freeClusters st.boot st.disk \ lostFree st).erase n).card + 1 + (lostFree st).card =
      (freeClusters st.boot st.disk).card := by
  have kept : n ∉ lostFree st := by
    rw [lostFree]
    split
    · exact fun hidden => (Finset.mem_sdiff.mp hidden).2 member
    · exact Finset.notMem_empty n
  rw [Finset.card_erase_add_one (Finset.mem_sdiff.mpr ⟨seenFree_subset lagging member, kept⟩)]
  exact Finset.card_sdiff_add_card_eq_card (lostFree_subset st)

theorem seenFree_kprintf (text : String) (st : FatState) : seenFree (st.kprintf text) = seenFree st := by
  have printed : searchStart (st.kprintf text) = (searchStart st).kprintf text := by
    unfold searchStart fatCacheEntry fatCacheLoad fatCacheFlush FatState.kprintf
    split
    · split <;> rfl
    · rfl
  rw [seenFree, printed]
  rfl

end LivlyOS.Fs
