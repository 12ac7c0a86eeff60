import LivlyOS.Fs.DirectFat
import LivlyOS.Lib.Chain
import Mathlib.Data.Finset.Card

/-! The abstract volume over the sectors of a disk: FAT entries, cluster
contents and chains, and how single writes change them. -/

namespace LivlyOS.Fs

open LivlyOS.Lib

theorem mask_eq (value : Nat) : value &&& 0x0FFFFFFF = value % 268435456 :=
  Nat.and_two_pow_sub_one_eq_mod value 28

variable (boot : FAT32BootSector)

/-- The `s`-th sector of a cluster on disk. -/
def clusterData (disk : Disk) (cluster s : Nat) : Sector :=
  ataReadSector disk (boot.clusterLba cluster s)

/-- The successor of a cluster, none at an end-of-chain mark. -/
def nextOf (disk : Disk) (cluster : Nat) : Option Nat :=
  if endOfChain ≤ directNext boot cluster disk then none else some (directNext boot cluster disk)

/-- An acyclic chain of data clusters that ends in an end-of-chain mark. -/
structure FatChain (disk : Disk) (first : Nat) (clusters : List Nat) : Prop where
  chain : Chain (nextOf boot disk) first clusters
  data : ∀ cluster ∈ clusters, boot.DataCluster cluster

/-- Data clusters whose FAT entry is zero. -/
def freeClusters (disk : Disk) : Finset Nat :=
  (Finset.range (boot.totalClusters + 2)).filter
    (fun cluster => 2 ≤ cluster ∧ fatEntry boot disk cluster = 0)

variable {boot}

theorem mem_freeClusters : cluster ∈ freeClusters boot disk ↔
    boot.DataCluster cluster ∧ fatEntry boot disk cluster = 0 := by
  simp only [freeClusters, Finset.mem_filter, Finset.mem_range, FAT32BootSector.DataCluster]
  constructor
  · rintro ⟨high, low, free⟩
    exact ⟨⟨low, high⟩, free⟩
  · rintro ⟨⟨low, high⟩, free⟩
    exact ⟨high, low, free⟩

theorem freeClusters_congr (same : ∀ cluster, cluster < boot.totalClusters + 2 →
    fatEntry boot disk' cluster = fatEntry boot disk cluster) :
    freeClusters boot disk' = freeClusters boot disk :=
  Finset.filter_congr (fun cluster member => by rw [same cluster (Finset.mem_range.mp member)])

/-- Disks with the same FAT have the same entries. -/
theorem fatEntry_congr (layout : boot.FatLayout)
    (same : ∀ lba, boot.IsFatSector lba → ataReadSector disk' lba = ataReadSector disk lba)
    (inRange : cluster < boot.totalClusters + 2) :
    fatEntry boot disk' cluster = fatEntry boot disk cluster := by
  rw [fatEntry, fatEntry, same _ (layout.fatSector_isFat inRange)]

theorem nextOf_congr (same : fatEntry boot disk' cluster = fatEntry boot disk cluster) :
    nextOf boot disk' cluster = nextOf boot disk cluster := by
  rw [nextOf, nextOf, directNext, directNext, same]

theorem nextOf_link (value : fatEntry boot disk cluster = successor) (small : successor < endOfChain) :
    nextOf boot disk cluster = some successor := by
  have plain : directNext boot cluster disk = successor := by
    rw [directNext, value, mask_eq, Nat.mod_eq_of_lt (by unfold endOfChain at small; omega)]
  rw [nextOf, plain, if_neg (by omega)]

theorem nextOf_last (value : fatEntry boot disk cluster = 0x0FFFFFFF) :
    nextOf boot disk cluster = none := by
  have plain : directNext boot cluster disk = 0x0FFFFFFF := by
    rw [directNext, value]
    rfl
  rw [nextOf, plain, if_pos (by decide)]

theorem FatChain.single (data : boot.DataCluster cluster) (last : fatEntry boot disk cluster = 0x0FFFFFFF) :
    FatChain boot disk cluster [cluster] where
  chain := .last (nextOf_last last)
  data := fun _ member => List.mem_singleton.mp member ▸ data

theorem FatChain.entry_ne_zero (chain : FatChain boot disk first clusters)
    (member : cluster ∈ clusters) : fatEntry boot disk cluster ≠ 0 := by
  intro zero
  obtain ⟨_, after, whole, tail⟩ := chain.chain.split member
  have link : nextOf boot disk cluster = some 0 := nextOf_link zero (by decide)
  cases tail with
  | last stop => simp [link] at stop
  | link step rest =>
    have target := Option.some.inj (link.symm.trans step)
    subst target
    have zeroData := chain.data 0 (by rw [whole]; simp [rest.first_mem])
    exact absurd zeroData.1 (by decide)

theorem FatChain.congr (chain : FatChain boot disk first clusters)
    (same : ∀ cluster ∈ clusters, fatEntry boot disk' cluster = fatEntry boot disk cluster) :
    FatChain boot disk' first clusters where
  chain := chain.chain.congr (fun cluster member => nextOf_congr (same cluster member))
  data := chain.data

theorem FatChain.first_data (chain : FatChain boot disk first clusters) : boot.DataCluster first :=
  chain.data first chain.chain.first_mem

section WellFormed

variable (wf : boot.WellFormed)
include wf

theorem data_lt_endOfChain (data : boot.DataCluster cluster) : cluster < endOfChain := by
  have small := wf.totalClusters_lt
  have high := data.2
  unfold endOfChain
  omega

theorem fatEntry_setFatEntry (disk : Disk) (inRange : cluster < boot.totalClusters + 2)
    (otherInRange : other < boot.totalClusters + 2) (small : value < 4294967296) :
    fatEntry boot (setFatEntry boot cluster value disk) other =
      if other = cluster then value else fatEntry boot disk other := by
  by_cases same : other = cluster
  · subst same
    rw [if_pos rfl, fatEntry, setFatEntry, ataReadSector_same _ _ rfl,
      Sector.entry_setEntry_same _ (entryIndex_lt _) small]
  · rw [if_neg same, fatEntry, setFatEntry]
    by_cases sector : boot.fatSector other = boot.fatSector cluster
    · have index : entryIndex other ≠ entryIndex cluster :=
        fun index => same (wf.entry_inj otherInRange inRange sector index)
      rw [sector, ataReadSector_same _ _ rfl,
        Sector.entry_setEntry_other _ (entryIndex_lt _) index, fatEntry, sector]
    · rw [ataReadSector_other, fatEntry]
      rw [boot.ataLba_fatSector, boot.ataLba_fatSector]
      exact sector

theorem clusterData_setFatEntry (disk : Disk) (value : Nat) (inRange : cluster < boot.totalClusters + 2)
    (data : boot.DataCluster other) (inside : s < boot.spc) :
    clusterData boot (setFatEntry boot cluster value disk) other s = clusterData boot disk other s := by
  rw [clusterData, setFatEntry, ataReadSector_other, clusterData]
  rw [boot.ataLba_fatSector]
  exact wf.layout.disjoint _ other s (wf.fatSector_isFat inRange) data inside

/-- A write to a data sector leaves the FAT alone. -/
theorem readFat_writeData (disk : Disk) (buf : Sector) (data : boot.DataCluster cluster)
    (inside : s < boot.spc) (fat : boot.IsFatSector lba) :
    ataReadSector (ataWriteSector disk (boot.clusterLba cluster s) buf) lba = ataReadSector disk lba := by
  apply ataReadSector_other
  rw [ataLba_of_lt fat.2.2]
  exact Ne.symm (wf.layout.disjoint lba cluster s fat data inside)

theorem clusterData_write (disk : Disk) (buf : Sector) (data : boot.DataCluster cluster)
    (otherData : boot.DataCluster other) (inside : s < boot.spc) (otherInside : t < boot.spc) :
    clusterData boot (ataWriteSector disk (boot.clusterLba cluster s) buf) other t =
      if other = cluster ∧ t = s then buf else clusterData boot disk other t := by
  split
  · rename_i same
    rw [same.1, same.2, clusterData, ataReadSector_same _ _ rfl]
  · rename_i different
    rw [clusterData, ataReadSector_other, clusterData]
    rw [wf.ataLba_clusterLba data inside, wf.ataLba_clusterLba otherData otherInside]
    exact fun same => different (wf.clusterLba_inj otherData data otherInside inside same)

theorem clusterData_zeroSectors_same (disk : Disk) (data : boot.DataCluster cluster)
    (below : count ≤ boot.spc) (inside : s < count) :
    clusterData boot (zeroSectors (boot.clusterSector cluster) count disk) cluster s = Sector.zero := by
  induction count with
  | zero => omega
  | succ count ih =>
    have step := clusterData_write wf (zeroSectors (boot.clusterSector cluster) count disk)
      Sector.zero data data (by omega : count < boot.spc) (by omega : s < boot.spc)
    rw [zeroSectors]
    refine step.trans ?_
    split
    · rfl
    · rename_i different
      exact ih (by omega) (by simp at different; omega)

theorem clusterData_zeroSectors_other (disk : Disk) (data : boot.DataCluster cluster)
    (otherData : boot.DataCluster other) (inside : s < boot.spc) (different : other ≠ cluster) :
    clusterData boot (zeroSectors (boot.clusterSector cluster) boot.spc disk) other s =
      clusterData boot disk other s := by
  apply zeroSectors_other
  intro t below
  have left := wf.ataLba_clusterLba data below
  have right := wf.ataLba_clusterLba otherData inside
  rw [FAT32BootSector.clusterLba] at left
  rw [left, right]
  exact fun same => different (wf.clusterLba_inj data otherData below inside same).1.symm

end WellFormed

section Image

variable (wf : boot.WellFormed) (reserved : 1 ≤ boot.reservedSectors.toNat)
include wf reserved

theorem fatEntry_image (table : Nat → Nat) (data : Nat → Nat → Sector)
    (inRange : cluster < boot.totalClusters + 2) (small : table cluster < 4294967296) :
    fatEntry boot (image boot table data) cluster = table cluster := by
  have fat := wf.fatSector_isFat inRange
  have start := boot.fatStart_eq
  have bound := wf.totalClusters_lt
  have place := boot.fatSector_eq cluster
  have byte : u32 (cluster * 4) = cluster * 4 := u32_of_lt (by omega)
  rw [byte] at place
  have whole : 128 * (boot.fatSector cluster - boot.fatStart) + entryIndex cluster = cluster := by
    rw [place, Nat.add_sub_cancel_left, entryIndex, byte]
    omega
  have low : boot.fatSector cluster ≠ fat32PartitionStart := by
    unfold fat32PartitionStart
    omega
  rw [fatEntry, ataReadSector, boot.ataLba_fatSector, image, if_neg low, if_pos ⟨fat.1, fat.2.1⟩,
    tableSector_entry _ _ (entryIndex_lt _) (by rw [whole]; exact small), whole]

end Image

/-- What extending a chain behind `prevCluster` does to the volume. Entries
that were zero may change: a stale cache can bring back freed links. -/
structure Extends (boot : FAT32BootSector) (disk disk' : Disk) (prevCluster newCluster : Nat) : Prop where
  data : boot.DataCluster newCluster
  free : fatEntry boot disk newCluster = 0
  link : fatEntry boot disk' prevCluster = newCluster
  last : fatEntry boot disk' newCluster = 0x0FFFFFFF
  others : ∀ cluster, cluster < boot.totalClusters + 2 → cluster ≠ prevCluster →
    fatEntry boot disk cluster ≠ 0 → fatEntry boot disk' cluster = fatEntry boot disk cluster
  zeroed : ∀ s < boot.spc, clusterData boot disk' newCluster s = Sector.zero
  contents : ∀ cluster, boot.DataCluster cluster → cluster ≠ newCluster → ∀ s < boot.spc,
    clusterData boot disk' cluster s = clusterData boot disk cluster s

/-- The chain in front of the new cluster survives, cut behind `prevCluster`. -/
theorem Extends.chain (step : Extends boot disk disk' prevCluster newCluster)
    (wf : boot.WellFormed) (chain : FatChain boot disk first (before ++ prevCluster :: after)) :
    FatChain boot disk' first (before ++ [prevCluster, newCluster]) := by
  have nodup := chain.chain.nodup
  have tail : Chain (nextOf boot disk') prevCluster [prevCluster, newCluster] :=
    .link (nextOf_link step.link (data_lt_endOfChain wf step.data)) (.last (nextOf_last step.last))
  refine ⟨chain.chain.relink ?_ tail, ?_⟩
  · intro member present
    have inChain : member ∈ before ++ prevCluster :: after := by simp [present]
    have different : member ≠ prevCluster := by
      intro same
      subst same
      rw [List.nodup_append] at nodup
      exact nodup.2.2 member present member (by simp) rfl
    exact nextOf_congr (step.others member (chain.data member inChain).2 different
      (chain.entry_ne_zero inChain))
  · intro cluster member
    simp only [List.mem_append, List.mem_cons, List.not_mem_nil, or_false] at member
    rcases member with earlier | same | same
    · exact chain.data cluster (by simp [earlier])
    · exact chain.data cluster (by simp [same])
    · exact same ▸ step.data

/-- The cache-free extension on a well-formed volume, predecessor in use. -/
theorem extendedDisk_extends (wf : boot.WellFormed) (prevInRange : prevCluster < boot.totalClusters + 2)
    (prevUsed : fatEntry boot disk prevCluster ≠ 0) (data : boot.DataCluster newCluster)
    (free : fatEntry boot disk newCluster = 0) :
    Extends boot disk (extendedDisk boot prevCluster newCluster disk) prevCluster newCluster ∧
      freeClusters boot (extendedDisk boot prevCluster newCluster disk) =
        (freeClusters boot disk).erase newCluster := by
  have different : newCluster ≠ prevCluster := by
    intro same
    subst same
    exact prevUsed free
  have small : newCluster < 4294967296 := by
    have bound := wf.totalClusters_lt
    have high := data.2
    omega
  have entries : ∀ cluster, cluster < boot.totalClusters + 2 →
      fatEntry boot (extendedDisk boot prevCluster newCluster disk) cluster =
        if cluster = prevCluster then newCluster
        else if cluster = newCluster then 0x0FFFFFFF else fatEntry boot disk cluster := by
    intro cluster inRange
    rw [extendedDisk, fatEntry_setFatEntry wf _ prevInRange inRange small,
      fatEntry_congr wf.layout (fun lba fat => zeroCluster_offFat wf.layout data _ fat) inRange,
      fatEntry_setFatEntry wf _ data.2 inRange (by decide)]
  refine ⟨⟨data, free, ?_, ?_, ?_, ?_, ?_⟩, ?_⟩
  · rw [entries _ prevInRange, if_pos rfl]
  · rw [entries _ data.2, if_neg different, if_pos rfl]
  · intro cluster inRange notPrev used
    have notNew : cluster ≠ newCluster := by
      intro same
      exact used (same ▸ free)
    rw [entries cluster inRange, if_neg notPrev, if_neg notNew]
  · intro s inside
    rw [extendedDisk, clusterData_setFatEntry wf _ _ prevInRange data inside,
      clusterData_zeroSectors_same wf _ data (Nat.le_refl _) inside]
  · intro cluster otherData notNew s inside
    rw [extendedDisk, clusterData_setFatEntry wf _ _ prevInRange otherData inside,
      clusterData_zeroSectors_other wf _ data otherData inside notNew,
      clusterData_setFatEntry wf _ _ data.2 otherData inside]
  · ext cluster
    rw [Finset.mem_erase, mem_freeClusters, mem_freeClusters]
    constructor
    · rintro ⟨otherData, zero⟩
      rw [entries cluster otherData.2] at zero
      have low := data.1
      split at zero
      · omega
      · split at zero
        · omega
        · rename_i _ notNew
          exact ⟨notNew, otherData, zero⟩
    · rintro ⟨notNew, otherData, zero⟩
      have notPrev : cluster ≠ prevCluster := by
        intro same
        exact prevUsed (same ▸ zero)
      refine ⟨otherData, ?_⟩
      rw [entries cluster otherData.2, if_neg notPrev, if_neg notNew, zero]

/-- `fat_extend_chain` on a coherent cache: it takes a free cluster when there
is one and changes nothing otherwise. -/
theorem fatExtendChain_coherent (wf : st.boot.WellFormed) (coherent : Coherent st)
    (prevInRange : prevCluster < st.boot.totalClusters + 2)
    (prevUsed : fatEntry st.boot st.disk prevCluster ≠ 0) :
    Coherent (fatExtendChain prevCluster st).2 ∧
      ((freeClusters st.boot st.disk = ∅ ∧ (fatExtendChain prevCluster st).1 = 0x0FFFFFFF ∧
          (fatExtendChain prevCluster st).2.disk = st.disk) ∨
        (Extends st.boot st.disk (fatExtendChain prevCluster st).2.disk prevCluster
            (fatExtendChain prevCluster st).1 ∧
          freeClusters st.boot (fatExtendChain prevCluster st).2.disk =
            (freeClusters st.boot st.disk).erase (fatExtendChain prevCluster st).1)) := by
  obtain ⟨value, disk, after⟩ := fatExtendChain_direct coherent wf.layout prevInRange
  refine ⟨after, ?_⟩
  rw [value, disk, directExtend]
  cases found : firstFree st.boot st.disk st.boot.scanLength 2 with
  | none =>
    left
    refine ⟨?_, rfl, rfl⟩
    apply Finset.eq_empty_of_forall_notMem
    intro cluster member
    obtain ⟨data, zero⟩ := mem_freeClusters.mp member
    have bound := data.2
    exact firstFree_none found cluster data.1 (by rw [wf.scanLength_eq]; omega) zero
  | some newCluster =>
    right
    obtain ⟨low, high, free⟩ := firstFree_some found
    rw [wf.scanLength_eq] at high
    exact extendedDisk_extends wf prevInRange prevUsed ⟨low, by omega⟩ free

end LivlyOS.Fs
