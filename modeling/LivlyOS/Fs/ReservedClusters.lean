import LivlyOS.Fs.ChainAlloc
import LivlyOS.Fs.ChainWalk

namespace LivlyOS.Fs

open LivlyOS.Lib

/-- The lowest free cluster, or the next one when a full directory takes that one. -/
def reservedCluster (st : FatState) (dirs : List Nat) : Option Nat :=
  (lowestFree st.boot st.disk)[if (firstPlace st.boot st.disk Sector.slotFree dirs).isSome then 0 else 1]?

theorem firstFree_eq (boot : FAT32BootSector) (disk : Disk) (remaining i : Nat) : firstFree boot disk remaining i =
    ((List.range' i remaining).filter fun cluster => fatEntry boot disk cluster = 0).head? := by
  induction remaining generalizing i with
  | zero => rfl
  | succ remaining ih =>
    rw [firstFree, List.range'_succ]
    split
    · rename_i free
      rw [List.filter_cons_of_pos (by simpa using free), List.head?_cons]
    · rename_i used
      rw [List.filter_cons_of_neg (by simpa using used), ih]

theorem fatAllocCluster_lowest (wf : st.boot.WellFormed) (coherent : Coherent st) :
    (fatAllocCluster 1 st).1 = ((lowestFree st.boot st.disk).head?).getD 0 := by
  rw [(fatAllocCluster_direct coherent wf.layout 1).1, directAlloc, clusterCount_one wf,
    directAllocScan_one _ _ _ (by decide), wf.scanLength_eq, firstFree_eq, lowestFree]

/-- The free clusters behind an extension: all but the lowest. -/
theorem lowestFree_extended (wf : st.boot.WellFormed) (coherent : Coherent st)
    (inRange : prevCluster < st.boot.totalClusters + 2) (used : fatEntry st.boot st.disk prevCluster ≠ 0)
    (room : (fatExtendChain prevCluster st).1 < endOfChain) :
    lowestFree st.boot (fatExtendChain prevCluster st).2.disk = (lowestFree st.boot st.disk).tail := by
  obtain ⟨value, _, _⟩ := fatExtendChain_direct coherent wf.layout inRange
  obtain ⟨_, outcome⟩ := fatExtendChain_coherent wf coherent inRange used
  rw [directExtend, wf.scanLength_eq, firstFree_eq, ← lowestFree] at value
  generalize fatExtendChain prevCluster st = extended at value outcome room ⊢
  obtain ⟨n, mid⟩ := extended
  dsimp only at value outcome room ⊢
  cases free : lowestFree st.boot st.disk with
  | nil =>
    rw [free] at value
    obtain rfl : n = 0x0FFFFFFF := value
    exact absurd room (by decide)
  | cons first rest =>
    rw [free] at value
    obtain rfl : n = first := value
    rcases outcome with ⟨full, _⟩ | ⟨_, taken⟩
    · have member := mem_lowestFree.mp (free ▸ List.mem_cons_self : n ∈ lowestFree st.boot st.disk)
      rw [full] at member
      exact absurd member (Finset.notMem_empty n)
    · have same : lowestFree st.boot mid.disk = (lowestFree st.boot st.disk).filter (· ≠ n) := by
        unfold lowestFree
        rw [List.filter_filter]
        apply List.filter_congr
        intro cluster inList
        have bounds := List.mem_range'_1.mp inList
        have data : st.boot.DataCluster cluster := ⟨bounds.1, by omega⟩
        have erased : cluster ∈ freeClusters st.boot mid.disk ↔ cluster ∈ (freeClusters st.boot st.disk).erase n := by
          rw [taken]
        rw [Finset.mem_erase, mem_freeClusters, mem_freeClusters, and_iff_right data, and_iff_right data] at erased
        rw [← Bool.decide_and]
        exact decide_eq_decide.mpr erased
      have sorted := lowestFree_sorted st.boot st.disk
      rw [free] at sorted
      have above := (List.pairwise_cons.mp sorted).1
      rw [same, free, List.filter_cons_of_neg (by simp), List.tail_cons, List.filter_eq_self]
      intro cluster member
      exact decide_eq_true (Nat.ne_of_gt (above cluster member))

theorem eq_some_of_getD {value : Option Nat} (nonzero : n ≠ 0) (given : n = value.getD 0) : value = some n := by
  cases value with
  | none => exact absurd given nonzero
  | some found => rw [given, Option.getD_some]

/-- On a cache that agrees with the disk `fat_create_dir` takes the lowest free cluster for the directory,
after the one that its parent may need. -/
theorem fatCreateDir_reserves {st : FatState} (wf : st.boot.WellFormed) (coherent : Coherent st)
    (directory : FatChain st.boot st.disk st.cwdCluster dirs)
    (created : fatCreateDir fuel name st = some (.created n, made)) (nonzero : n ≠ 0) :
    reservedCluster st dirs = some n := by
  have lagging := coherent.lagging wf.layout
  obtain ⟨mid, start, checked⟩ := fatCreateDir_checked wf lagging directory (by omega : dirs.length < dirs.length + 2) name
  have ends := List.getLast?_eq_some_getLast (List.ne_nil_of_length_pos directory.chain.length_pos)
  obtain ⟨last, loaded, _, placed⟩ := placeLoop_eq wf lagging (fillDir name) "Kein Platz mehr Übrig\n" directory
    start ends (by omega : dirs.length + 1 < dirs.length + 2)
  cases duplicate : (dirs.findSome? (dirDuplicateIn st.boot st.disk name)).getD false with
  | true =>
    rw [duplicate, if_pos rfl] at checked
    cases fatCreateDir_deterministic created checked
  | false =>
    rw [duplicate, if_neg Bool.false_ne_true, start.kept.cwdCluster, placed] at checked
    have same := congrArg Prod.fst (fatCreateDir_deterministic created checked)
    have stays := coherent.loaded loaded
    have boot := loaded.kept.boot
    have disk := loaded.disk
    unfold reservedCluster
    cases found : firstPlace st.boot st.disk Sector.slotFree dirs with
    | some place =>
      rw [found] at same
      have reserved : n = (fatAllocCluster 1 last).1 := CreateExit.created.inj same
      have lowest := fatAllocCluster_lowest (by rw [boot]; exact wf) stays
      rw [boot, disk, ← reserved] at lowest
      rw [if_pos Option.isSome_some, ← List.head?_eq_getElem?]
      exact eq_some_of_getD nonzero lowest
    | none =>
      rw [found] at same
      dsimp only [Option.elim] at same
      have member := List.getLast_mem (List.ne_nil_of_length_pos directory.chain.length_pos)
      generalize dirs.getLast _ = final at same member
      have inRange := (directory.data final member).2
      have used := directory.entry_ne_zero member
      rw [← boot] at inRange
      rw [← boot, ← disk] at used
      have behind := lowestFree_extended (by rw [boot]; exact wf) stays inRange used
      have coherent' := (fatExtendChain_coherent (by rw [boot]; exact wf) stays inRange used).1
      have kept := fatExtendChain_kept final last
      unfold placeBehind at same
      dsimp only at same
      split at same
      · cases same
      · rename_i room
        have reserved : n = (fatAllocCluster 1 (fatExtendChain final last).2).1 := CreateExit.created.inj same
        have lowest := fatAllocCluster_lowest (by rw [kept.boot, boot]; exact wf) coherent'
        rw [kept.boot, behind (Nat.lt_of_not_le room), boot, disk, ← reserved, List.head?_tail] at lowest
        rw [if_neg (by decide)]
        exact eq_some_of_getD nonzero lowest

/-- The clusters that a new directory may get: over a lagging cache any free one. -/
def MayReserve (st : FatState) (dirs : List Nat) (n : Nat) : Prop :=
  n ∈ freeClusters st.boot st.disk ∧ (Coherent st → reservedCluster st dirs = some n)

end LivlyOS.Fs
