import LivlyOS.Fs.Effects
import LivlyOS.Fs.FreeSearch
import LivlyOS.Fs.RoundTrip

namespace LivlyOS.Fs

open LivlyOS.Lib

variable (boot : FAT32BootSector)

/-- The free data clusters in increasing order. -/
def lowestFree (disk : Disk) : List Nat :=
  (List.range' 2 boot.totalClusters).filter fun cluster => fatEntry boot disk cluster = 0

/-- `ceil(size / cluster_size)`. -/
def neededClusters (size : Nat) : Nat := (size + boot.clusterSize - 1) / boot.clusterSize

/-- The clusters for `size` bytes. -/
def takenClusters (disk : Disk) (size : Nat) : List Nat := (lowestFree boot disk).take (neededClusters boot size)

/-- The entry of each cluster holds the next one, the last entry holds the end mark. -/
def Links (disk : Disk) : List Nat → Prop
  | [] => True
  | [final] => fatEntry boot disk final = 0x0FFFFFFF
  | cluster :: follower :: rest => fatEntry boot disk cluster = follower ∧ Links disk (follower :: rest)

/-- The marks of the scan: each taken cluster is linked behind the one before. -/
def linkUp : (prev : Nat) → List Nat → Disk → Disk
  | _, [], disk => disk
  | prev, cluster :: rest, disk => linkUp cluster rest (directMark boot cluster prev disk)

variable {boot}

theorem fatEntry_directMark (wf : boot.WellFormed) (disk : Disk) (inRange : cluster < boot.totalClusters + 2)
    (before : prev < cluster) (otherInRange : other < boot.totalClusters + 2) :
    fatEntry boot (directMark boot cluster prev disk) other =
      if other = prev ∧ prev ≠ 0 then cluster
      else if other = cluster then 0x0FFFFFFF else fatEntry boot disk other := by
  have bound := wf.totalClusters_lt
  have marked := fatEntry_setFatEntry wf disk inRange otherInRange (by decide : 0x0FFFFFFF < 4294967296)
  unfold directMark
  dsimp only
  by_cases none : prev = 0
  · rw [if_neg (not_not.mpr none), if_neg (fun both => both.2 none), marked]
  · rw [if_pos none, fatEntry_setFatEntry wf _ (by omega) otherInRange (by omega), marked]
    simp only [none, ne_eq, not_false_eq_true, and_true]

/-- The scan takes the first `count` free entries and links them up. -/
theorem directAllocScan_eq (wf : boot.WellFormed) (remaining count first : Nat) (disk : Disk) (low : 0 < i)
    (bound : i + remaining ≤ boot.totalClusters + 2) (before : prev < i) :
    directAllocScan boot remaining i count prev first disk =
      let taken := ((List.range' i remaining).filter fun cluster => fatEntry boot disk cluster = 0).take count
      (if first = 0 then taken.headD 0 else first, linkUp boot prev taken disk) := by
  induction remaining generalizing i count prev first disk with
  | zero =>
    by_cases none : first = 0 <;> simp [directAllocScan, linkUp, none]
  | succ remaining ih =>
    cases count with
    | zero =>
      by_cases none : first = 0 <;> simp [directAllocScan, linkUp, none]
    | succ count =>
      rw [directAllocScan, if_neg (Nat.succ_ne_zero count), List.range'_succ]
      by_cases free : fatEntry boot disk i = 0
      · -- the marks lie in front of the rest of the scan
        have later : (List.range' (i + 1) remaining).filter (fun cluster => fatEntry boot (directMark boot i prev disk) cluster = 0) =
            (List.range' (i + 1) remaining).filter fun cluster => fatEntry boot disk cluster = 0 := by
          apply List.filter_congr
          intro cluster member
          have bounds := List.mem_range'_1.mp member
          rw [fatEntry_directMark wf disk (by omega) before (by omega), if_neg (by omega), if_neg (by omega)]
        have step := ih count (if first = 0 then i else first) (directMark boot i prev disk) (Nat.succ_pos i) (by omega)
          (Nat.lt_succ_self i)
        have whole : (i :: List.range' (i + 1) remaining).filter (fun cluster => fatEntry boot disk cluster = 0) =
            i :: (List.range' (i + 1) remaining).filter fun cluster => fatEntry boot disk cluster = 0 :=
          List.filter_cons_of_pos (decide_eq_true free)
        have some : (if first = 0 then i else first) ≠ 0 := by
          split <;> omega
        rw [if_pos free, Nat.add_sub_cancel, step, later, whole, List.take_succ_cons]
        dsimp only
        rw [if_neg some, List.headD_cons, linkUp]
      · have step := ih (count + 1) first disk (Nat.succ_pos i) (by omega) (Nat.lt_succ_of_lt before)
        rw [if_neg free, step, List.filter_cons_of_neg (by simpa using free)]

/-- The entries of the taken clusters and of the one they are linked behind. -/
theorem linkUp_entries (wf : boot.WellFormed) (disk : Disk) (sorted : (prev :: taken).Pairwise (· < ·))
    (inRange : ∀ cluster ∈ taken, cluster < boot.totalClusters + 2) :
    Links boot (linkUp boot prev taken disk) taken ∧
      (∀ head ∈ taken.head?, prev ≠ 0 → fatEntry boot (linkUp boot prev taken disk) prev = head) ∧
      ∀ other, other < boot.totalClusters + 2 → other ∉ taken → other ≠ prev ∨ prev = 0 ∨ taken = [] →
        fatEntry boot (linkUp boot prev taken disk) other = fatEntry boot disk other := by
  induction taken generalizing prev disk with
  | nil => exact ⟨trivial, by simp, fun _ _ _ _ => rfl⟩
  | cons cluster rest ih =>
    obtain ⟨above, sorted⟩ := List.pairwise_cons.mp sorted
    have first := inRange cluster List.mem_cons_self
    have before := above cluster List.mem_cons_self
    have marked : ∀ other, other < boot.totalClusters + 2 → _ := fun other inside =>
      fatEntry_directMark wf disk first before inside
    obtain ⟨links, linked, others⟩ := ih (directMark boot cluster prev disk) sorted
      fun other member => inRange other (List.mem_cons_of_mem _ member)
    unfold linkUp
    refine ⟨?_, ?_, ?_⟩
    · cases rest with
      | nil =>
        have mark := marked cluster first
        rwa [if_neg (by omega), if_pos rfl] at mark
      | cons follower rest => exact ⟨linked follower rfl (by omega), links⟩
    · intro head same nonzero
      obtain rfl := Option.some.inj same
      have outside : prev ∉ rest := fun member => Nat.lt_irrefl prev (above prev (List.mem_cons_of_mem _ member))
      rw [others prev (by omega) outside (.inl (by omega)), marked prev (by omega), if_pos ⟨rfl, nonzero⟩]
    · intro other inside outside apart
      have different : other ≠ cluster := fun same => outside (same ▸ List.mem_cons_self)
      have later : other ∉ rest := fun member => outside (List.mem_cons_of_mem _ member)
      rw [others other inside later (.inl different), marked other inside, if_neg different, if_neg]
      rintro ⟨same, nonzero⟩
      rcases apart with other' | zero | none
      · exact other' same
      · exact nonzero zero
      · cases none

/-- Linking up changes no byte but those of the entries. -/
theorem linkUp_changes (prev : Nat) (taken : List Nat) (disk : Disk)
    (covered : ∀ cluster, cluster ∈ taken ∨ (cluster = prev ∧ prev ≠ 0) → ∀ lba position,
      EntryBytes boot cluster lba position → touched lba position) :
    ChangesOnly touched disk (linkUp boot prev taken disk) := by
  induction taken generalizing prev disk with
  | nil => exact .refl _ disk
  | cons cluster rest ih =>
    have mark : ChangesOnly touched disk (directMark boot cluster prev disk) := by
      have own := (setFatEntry_changes cluster 0x0FFFFFFF disk).mono (covered cluster (.inl List.mem_cons_self))
      unfold directMark
      dsimp only
      split
      · rename_i nonzero
        exact own.trans ((setFatEntry_changes prev cluster _).mono (covered prev (.inr ⟨rfl, nonzero⟩)))
      · exact own
    apply mark.trans
    apply ih
    rintro other (member | ⟨rfl, _⟩)
    · exact covered other (.inl (List.mem_cons_of_mem _ member))
    · exact covered other (.inl List.mem_cons_self)

theorem mem_lowestFree : cluster ∈ lowestFree boot disk ↔ cluster ∈ freeClusters boot disk := by
  rw [lowestFree, List.mem_filter, List.mem_range'_1, mem_freeClusters, decide_eq_true_eq, Nat.add_comm 2]
  exact Iff.rfl

theorem lowestFree_data (member : cluster ∈ lowestFree boot disk) : boot.DataCluster cluster :=
  (mem_freeClusters.mp (mem_lowestFree.mp member)).1

theorem lowestFree_sorted (boot : FAT32BootSector) (disk : Disk) : (lowestFree boot disk).Pairwise (· < ·) :=
  List.Pairwise.filter _ List.pairwise_lt_range'

theorem Links.chain (wf : boot.WellFormed) (links : Links boot disk (first :: rest))
    (data : ∀ cluster ∈ first :: rest, boot.DataCluster cluster) : FatChain boot disk first (first :: rest) := by
  refine ⟨?_, data⟩
  induction rest generalizing first with
  | nil => exact .last (nextOf_last links)
  | cons follower rest ih =>
    have later := fun cluster member => data cluster (List.mem_cons_of_mem _ member)
    have small := data_lt_endOfChain wf (later follower List.mem_cons_self)
    exact .link (nextOf_link links.1 small) (ih links.2 later)

/-- The count of the scan, as long as the sum in front of the division does not wrap. -/
theorem clusterCount_needed (positive : 1 ≤ size) (fits : size + boot.clusterSize - 1 < 4294967296) :
    boot.clusterCount size = neededClusters boot size := by
  unfold FAT32BootSector.clusterCount neededClusters
  congr 1
  unfold sub32 u32
  omega

/-- The clusters `taken` are a new chain on disk, and the other entries of the FAT have not changed. -/
structure ChainTaken (boot : FAT32BootSector) (disk disk' : Disk) (first : Nat) (taken : List Nat) : Prop where
  chain : FatChain boot disk' first taken
  links : Links boot disk' taken
  others : ∀ cluster, cluster < boot.totalClusters + 2 → cluster ∉ taken →
    fatEntry boot disk' cluster = fatEntry boot disk cluster

/-- Nothing else on the disk has changed either. -/
structure ChainBuilt (boot : FAT32BootSector) (disk disk' : Disk) (first : Nat) (taken : List Nat) : Prop
    extends ChainTaken boot disk disk' first taken where
  changes : ChangesOnly (fun lba position => ∃ cluster ∈ taken, EntryBytes boot cluster lba position) disk disk'

theorem linkUp_built (wf : boot.WellFormed) (disk : Disk) (sorted : (first :: rest).Pairwise (· < ·))
    (data : ∀ cluster ∈ first :: rest, boot.DataCluster cluster) :
    ChainBuilt boot disk (linkUp boot 0 (first :: rest) disk) first (first :: rest) := by
  have positive : (0 :: first :: rest).Pairwise (· < ·) :=
    List.pairwise_cons.mpr ⟨fun cluster member => Nat.lt_of_lt_of_le (Nat.succ_pos 1) (data cluster member).1, sorted⟩
  obtain ⟨links, _, others⟩ := linkUp_entries wf disk positive fun cluster member => (data cluster member).2
  refine ⟨⟨links.chain wf data, links, fun cluster inside outside => others cluster inside outside (.inr (.inl rfl))⟩, ?_⟩
  apply linkUp_changes
  rintro cluster (member | ⟨rfl, nonzero⟩) lba position inEntry
  · exact ⟨cluster, member, inEntry⟩
  · exact absurd rfl nonzero

theorem directAlloc_eq (wf : boot.WellFormed) (disk : Disk) (positive : 1 ≤ size)
    (fits : size + boot.clusterSize - 1 < 4294967296) :
    directAlloc boot size disk =
      ((takenClusters boot disk size).headD 0, linkUp boot 0 (takenClusters boot disk size) disk) := by
  have scanned := directAllocScan_eq wf boot.totalClusters (boot.clusterCount size) 0 disk (by decide : 0 < 2)
    (by omega) (by decide : 0 < 2)
  rw [directAlloc, wf.scanLength_eq, scanned, clusterCount_needed positive fits]
  rfl

/-- For every size that fits into the free clusters, `fat_alloc_cluster` takes the lowest of them and
leaves them on disk as one chain in increasing order. `disk` is the disk with what the cache still
has to write back. -/
theorem fatAllocCluster_built (wf : st.boot.WellFormed) (rep : Represents st disk) (positive : 1 ≤ size)
    (fits : size + st.boot.clusterSize - 1 < 4294967296)
    (room : neededClusters st.boot size ≤ (lowestFree st.boot disk).length) :
    (takenClusters st.boot disk size).length = neededClusters st.boot size ∧
      ChainBuilt st.boot disk (fatAllocCluster size st).2.disk (fatAllocCluster size st).1
        (takenClusters st.boot disk size) ∧
      Coherent (fatAllocCluster size st).2 := by
  obtain ⟨value, represented⟩ := allocScan_direct (st.boot.clusterCount size) 0 rep wf.layout scanLength_le
    (by decide : 0 < 2)
  obtain ⟨flushed, coherent⟩ := represented.flush
  have direct := directAlloc_eq wf disk positive fits
  have first : (fatAllocCluster size st).1 = (directAlloc st.boot size disk).1 := value
  have after : (fatAllocCluster size st).2.disk = (directAlloc st.boot size disk).2 := flushed
  rw [direct] at first after
  have length : (takenClusters st.boot disk size).length = neededClusters st.boot size := List.length_take_of_le room
  have some : 1 ≤ neededClusters st.boot size := by
    have block : 0 < st.boot.clusterSize := Nat.mul_pos wf.spc_pos (by decide)
    apply (Nat.one_le_div_iff block).mpr
    omega
  have sorted : (takenClusters st.boot disk size).Pairwise (· < ·) :=
    (lowestFree_sorted st.boot disk).sublist (List.take_sublist _ _)
  have data : ∀ cluster ∈ takenClusters st.boot disk size, st.boot.DataCluster cluster :=
    fun cluster member => lowestFree_data (List.mem_of_mem_take member)
  refine ⟨length, ?_, coherent⟩
  rw [first, after]
  generalize takenClusters st.boot disk size = taken at length sorted data ⊢
  cases taken with
  | nil => exact absurd length (by rw [List.length_nil]; omega)
  | cons first rest => exact linkUp_built wf disk sorted data

/-- The first sector of the FAT is not the cached one, or no entry in it is free, or the cache shows it as it
stands on disk. -/
def StartCurrent (st : FatState) : Prop :=
  st.cachedFatSectorNr = st.boot.fatSector 2 →
    (∃ cluster ∈ freeClusters st.boot st.disk, st.boot.fatSector cluster = st.boot.fatSector 2) →
      ∀ cluster, cluster < st.boot.totalClusters + 2 → st.boot.fatSector cluster = st.boot.fatSector 2 →
        st.cachedFatBuf.entry (entryIndex cluster) = fatEntry st.boot st.disk cluster

theorem searchStart_cached (cached : st.cachedFatSectorNr = st.boot.fatSector 2) : searchStart st = st :=
  fatCacheEntry_cached cached.symm

/-- With a free entry in its first sector the FAT is seen as it is. -/
theorem StartCurrent.seen (current : StartCurrent st) (lagging : Lagging st)
    (free : lowest ∈ freeClusters st.boot st.disk) (inRange : cluster < st.boot.totalClusters + 2)
    (sector : st.boot.fatSector cluster = st.boot.fatSector lowest) :
    seenEntry (searchStart st) cluster = fatEntry st.boot st.disk cluster := by
  by_cases first : st.boot.fatSector lowest = st.boot.fatSector 2
  · by_cases cached : st.cachedFatSectorNr = st.boot.fatSector 2
    · rw [searchStart_cached cached, seenEntry_cached (by rw [cached, sector, first])]
      exact current cached ⟨lowest, free, first⟩ cluster inRange (sector.trans first)
    · have start := searchStart_loaded lagging.clean
      have nr : st.boot.fatSector cluster = (searchStart st).cachedFatSectorNr := by
        rw [searchStart_nr, sector, first]
      rw [seenEntry_cached (by rw [start.kept.boot]; exact nr), searchStart,
        fatCacheEntry_fresh lagging.clean (Ne.symm cached), fatEntry, sector, first]
  · exact seenEntry_start lagging (by rw [sector]; exact first)

section Lowest

variable (wf : st.boot.WellFormed) (lagging : Lagging st) (positive : 1 ≤ size)
  (fits : size + st.boot.clusterSize - 1 < 4294967296)
  (room : neededClusters st.boot size ≤ (lowestFree st.boot st.disk).length)
include wf lagging positive fits room

end Lowest

/-- A free cluster `n`, zeroed and marked as the last one, hangs behind `prevCluster`, and nothing else
has changed. -/
structure ExtendsOnly (boot : FAT32BootSector) (disk disk' : Disk) (prevCluster n : Nat) : Prop where
  free : n ∈ freeClusters boot disk
  link : fatEntry boot disk' prevCluster = n
  last : fatEntry boot disk' n = 0x0FFFFFFF
  zeroed : ∀ s < boot.spc, clusterData boot disk' n s = Sector.zero
  changes : ChangesOnly (fun lba position => EntryBytes boot prevCluster lba position ∨ EntryBytes boot n lba position ∨
    ClusterBytes boot n lba position) disk disk'

theorem extendedDisk_changes (prevCluster n : Nat) (disk : Disk) :
    ChangesOnly (fun lba position => EntryBytes boot prevCluster lba position ∨ EntryBytes boot n lba position ∨
      ClusterBytes boot n lba position) disk (extendedDisk boot prevCluster n disk) := by
  have marked := @setFatEntry_changes boot n 0x0FFFFFFF disk
  have zeroed := @zeroSectors_changes boot n (setFatEntry boot n 0x0FFFFFFF disk)
  apply ((marked.mono fun _ _ inEntry => .inr (.inl inEntry)).trans (zeroed.mono fun _ _ inCluster => .inr (.inr inCluster))).trans
  exact (setFatEntry_changes prevCluster n _).mono fun _ _ inEntry => .inl inEntry

/-- `fat_extend_chain` over a coherent cache hangs exactly one zeroed cluster behind the end of a chain,
or reports an end mark and leaves the disk alone when no cluster is free. -/
theorem fatExtendChain_exact (wf : st.boot.WellFormed) (coherent : Coherent st)
    (inRange : prevCluster < st.boot.totalClusters + 2)
    (ends : endOfChain ≤ directNext st.boot prevCluster st.disk) :
    (freeClusters st.boot st.disk ≠ ∅ →
        ExtendsOnly st.boot st.disk (fatExtendChain prevCluster st).2.disk prevCluster (fatExtendChain prevCluster st).1) ∧
      (freeClusters st.boot st.disk = ∅ →
        endOfChain ≤ (fatExtendChain prevCluster st).1 ∧ (fatExtendChain prevCluster st).2.disk = st.disk) ∧
      Coherent (fatExtendChain prevCluster st).2 := by
  have used : fatEntry st.boot st.disk prevCluster ≠ 0 := by
    intro zero
    rw [directNext, zero] at ends
    exact absurd ends (by decide)
  obtain ⟨after, outcome⟩ := fatExtendChain_coherent wf coherent inRange used
  obtain ⟨value, disk, _⟩ := fatExtendChain_direct coherent wf.layout inRange
  refine ⟨fun some => ?_, fun none => ?_, after⟩
  · rcases outcome with ⟨none, _⟩ | ⟨step, _⟩
    · exact absurd none some
    · refine ⟨mem_freeClusters.mpr ⟨step.data, step.free⟩, step.link, step.last, step.zeroed, ?_⟩
      have small := data_lt_endOfChain wf step.data
      rw [value, directExtend] at small
      rw [value, disk, directExtend]
      cases found : firstFree st.boot st.disk st.boot.scanLength 2 with
      | none =>
        rw [found] at small
        exact absurd small (Nat.not_lt.mpr (by decide : endOfChain ≤ 0x0FFFFFFF))
      | some n => exact extendedDisk_changes prevCluster n st.disk
  · rcases outcome with ⟨_, full, same⟩ | ⟨step, _⟩
    · rw [full]
      exact ⟨by decide, same⟩
    · have member := mem_freeClusters.mpr ⟨step.data, step.free⟩
      rw [none] at member
      exact absurd member (Finset.notMem_empty _)

/-- Behind the root directory of the empty volume. -/
theorem fatExtendChain_exact_emptyVolume :
    ExtendsOnly sampleBoot (mounted emptyVolume).disk (fatExtendChain 2 (mounted emptyVolume)).2.disk 2
      (fatExtendChain 2 (mounted emptyVolume)).1 := by
  have boot : (mounted emptyVolume).boot = sampleBoot := (mounted_image _ _ _).1
  have exact := (fatExtendChain_exact (boot ▸ sampleBoot_wellFormed) (mounted_coherent emptyVolume)
    (by rw [boot]; decide : 2 < (mounted emptyVolume).boot.totalClusters + 2) (by rw [boot]; decide +kernel)).1
  rw [boot] at exact
  exact exact (Finset.ne_empty_of_mem (mem_freeClusters.mpr ⟨by decide, by decide +kernel⟩ : 3 ∈ _))

end LivlyOS.Fs
