import LivlyOS.Fs.ChainAlloc
import LivlyOS.Fs.Names
import LivlyOS.Fs.Saving
import LivlyOS.Fs.Storing

namespace LivlyOS.Fs

open LivlyOS.Lib

/-- The entry of an empty file: both fields padded with spaces, no size, its first cluster. -/
structure Sector.HoldsFile (sector : Sector) (slot : Nat) (name ext : CString) (cluster : Nat) : Prop where
  name : ∀ index < 8, sector.nameByte slot index = (padField 8 name).getD index 0
  ext : ∀ index < 3, sector.nameByte slot (8 + index) = (padField 3 ext).getD index 0
  attributes : sector.attributes slot = 0x20
  size : sector.slotSize slot = 0
  cluster : sector.slotCluster slot = cluster

theorem createdSlot_extByte (name ext : CString) (attributes : UInt8) (buf : Sector) (cluster : Nat)
    (inside : slot < 16) (below : index < 3) :
    (createdSlot name ext attributes buf slot cluster).nameByte slot (8 + index) = (padField 3 ext).getD index 0 := by
  have stored := @putBytes_inside (buf.setName slot name).bytes (32 * slot + 8) index (padField 3 ext)
    (by rw [padField_length]; exact below)
  rw [Sector.nameByte, ← Nat.add_assoc, createdSlot, newSlot, Sector.setCluster_other _ (by omega),
    Sector.setSize_other _ (by omega), Sector.putByte_other _ _ (by omega), Sector.setExt,
    Sector.bytes_ofBytes (by omega), stored]

theorem createdSlot_size (name ext : CString) (attributes : UInt8) (buf : Sector) (cluster : Nat)
    (inside : slot < 16) : (createdSlot name ext attributes buf slot cluster).slotSize slot = 0 := by
  have stored := Sector.slotSize_setSize (((buf.setName slot name).setExt slot ext).putByte slot 11 attributes)
    inside (by decide : 0 < 4294967296)
  rw [← stored]
  apply word_congr
  intro position above below
  exact Sector.setCluster_other _ (by omega)

theorem createdSlot_holds (name ext : CString) (buf : Sector) (inside : slot < 16) (small : cluster < 4294967296) :
    (createdSlot name ext 0x20 buf slot cluster).HoldsFile slot name ext cluster where
  name _ below := createdSlot_nameByte name ext 0x20 buf cluster inside below
  ext _ below := createdSlot_extByte name ext 0x20 buf cluster inside below
  attributes := createdSlot_attributes name ext 0x20 buf cluster inside
  size := createdSlot_size name ext 0x20 buf cluster inside
  cluster := createdSlot_cluster name ext 0x20 buf inside small

/-- A free cluster is marked as the end of a chain, and nothing else has changed. -/
structure TakesOnly (boot : FAT32BootSector) (disk disk' : Disk) (c : Nat) : Prop where
  free : c ∈ freeClusters boot disk
  last : fatEntry boot disk' c = 0x0FFFFFFF
  others : ∀ cluster, cluster < boot.totalClusters + 2 → cluster ≠ c →
    fatEntry boot disk' cluster = fatEntry boot disk cluster
  changes : ChangesOnly (EntryBytes boot c) disk disk'

theorem neededClusters_one {boot : FAT32BootSector} (wf : boot.WellFormed) : neededClusters boot 1 = 1 := by
  have block : 0 < boot.clusterSize := Nat.mul_pos wf.spc_pos (by decide)
  unfold neededClusters
  rw [Nat.add_sub_cancel_left, Nat.div_self block]

theorem fatAllocCluster_takes (wf : st.boot.WellFormed) (coherent : Coherent st)
    (room : freeClusters st.boot st.disk ≠ ∅) :
    TakesOnly st.boot st.disk (fatAllocCluster 1 st).2.disk (fatAllocCluster 1 st).1 := by
  have spc : st.boot.spc < 256 := UInt8.toNat_lt _
  have needed := neededClusters_one wf
  obtain ⟨cluster, member⟩ := Finset.nonempty_iff_ne_empty.mpr room
  have some := List.length_pos_of_mem (mem_lowestFree.mpr member)
  obtain ⟨length, built, _⟩ := fatAllocCluster_built wf coherent.represents (Nat.le_refl 1)
    (by unfold FAT32BootSector.clusterSize; omega) (by rw [needed]; exact some)
  have taken : ∀ cluster ∈ takenClusters st.boot st.disk 1, cluster ∈ freeClusters st.boot st.disk :=
    fun cluster member => mem_lowestFree.mp (List.mem_of_mem_take member)
  rw [needed] at length
  obtain ⟨c, alone⟩ := List.length_eq_one_iff.mp length
  rw [alone] at built taken
  obtain ⟨rfl, _⟩ := List.cons.inj built.chain.chain.cons.choose_spec
  refine ⟨taken _ List.mem_cons_self, built.links, fun cluster inside other => ?_, ?_⟩
  · exact built.others cluster inside (fun inTaken => other (List.mem_singleton.mp inTaken))
  · apply built.changes.mono
    rintro lba position ⟨cluster, inTaken, inEntry⟩
    rwa [← List.mem_singleton.mp inTaken]

/-- A slot gets the entry of an empty file with the free cluster `c`, and nothing else has changed. -/
structure StoresOnly (boot : FAT32BootSector) (disk disk' : Disk) (name ext : CString) (c owner s slot : Nat) : Prop where
  free : c ∈ freeClusters boot disk
  last : fatEntry boot disk' c = 0x0FFFFFFF
  others : ∀ cluster, cluster < boot.totalClusters + 2 → cluster ≠ c →
    fatEntry boot disk' cluster = fatEntry boot disk cluster
  entry : (clusterData boot disk' owner s).HoldsFile slot name ext c
  changes : ChangesOnly (fun lba position => SlotBytes boot owner s slot lba position ∨ EntryBytes boot c lba position)
    disk disk'

theorem placeSlot_storesOnly (wf : st.boot.WellFormed) (coherent : Coherent st)
    (room : freeClusters st.boot st.disk ≠ ∅) (data : st.boot.DataCluster owner) (inside : s < st.boot.spc)
    (below : hit.slot < 16) (lba : hit.lba = st.boot.clusterLba owner s)
    (buf : hit.buf = clusterData st.boot st.disk owner s) (name ext : CString) :
    StoresOnly st.boot st.disk (placeSlot name ext 0x20 hit st).2.disk name ext
      (placeSlot name ext 0x20 hit st).1 owner s hit.slot := by
  have takes := fatAllocCluster_takes wf coherent room
  unfold placeSlot
  dsimp only
  generalize fatAllocCluster 1 st = allocated at takes ⊢
  obtain ⟨c, mid⟩ := allocated
  dsimp only at takes ⊢
  have cData := (mem_freeClusters.mp takes.free).1
  have small := wf.totalClusters_lt
  have high := cData.2
  have fat : ∀ cluster, cluster < st.boot.totalClusters + 2 → ∀ sector,
      fatEntry st.boot (ataWriteSector mid.disk hit.lba sector) cluster = fatEntry st.boot mid.disk cluster := by
    intro cluster inRange sector
    apply fatEntry_congr wf.layout _ inRange
    intro _ isFat
    rw [lba]
    exact readFat_writeData wf mid.disk sector data inside isFat
  refine ⟨takes.free, ?_, fun cluster inRange other => ?_, ?_, ?_⟩
  · rw [fat c cData.2]
    exact takes.last
  · rw [fat cluster inRange]
    exact takes.others cluster inRange other
  · rw [lba, clusterData_write wf _ _ data data inside inside, if_pos ⟨rfl, rfl⟩]
    exact createdSlot_holds name ext hit.buf below (by omega)
  · have mark : ChangesOnly (fun lba position => SlotBytes st.boot owner s hit.slot lba position ∨
        EntryBytes st.boot c lba position) st.disk mid.disk := takes.changes.mono fun _ _ => .inr
    apply mark.trans
    apply ChangesOnly.write
    intro position outside
    have same := takes.changes.read hit.lba fun other _ => lba ▸ EntryBytes.offData wf cData.2 data inside other
    have here : ataReadSector mid.disk hit.lba = hit.buf := by
      rw [same, buf, lba]
      rfl
    have apart : position.val < 32 * hit.slot ∨ 32 * hit.slot + 32 ≤ position.val := by
      by_contra inSlot
      exact outside (.inl ⟨by rw [lba], by omega⟩)
    have stays := createdSlot_outside name ext 0x20 hit.buf c apart
    rw [Sector.bytes_fin, Sector.bytes_fin] at stays
    rw [here]
    exact stays

/-- A free slot of the directory `dirs` gets the entry. -/
structure FileStored (boot : FAT32BootSector) (disk disk' : Disk) (first : Nat) (dirs : List Nat) (name ext : CString)
    (c owner s slot : Nat) : Prop extends StoresOnly boot disk disk' name ext c owner s slot where
  member : owner ∈ dirs
  inside : s < boot.spc
  below : slot < 16
  wasFree : (clusterData boot disk owner s).slotFree slot = true
  chain : FatChain boot disk' first dirs

/-- A directory without a free slot grows by the cluster `n`, zeroed but for the entry in its first slot. -/
structure FileStoredBehind (boot : FAT32BootSector) (disk disk' : Disk) (first : Nat) (dirs : List Nat)
    (name ext : CString) (c final n : Nat) : Prop where
  full : ∀ cluster ∈ dirs, ∀ s < boot.spc, ∀ slot < 16, (clusterData boot disk cluster s).slotFree slot = false
  behind : dirs.getLast? = some final
  new : n ∈ freeClusters boot disk
  free : c ∈ freeClusters boot disk
  apart : c ≠ n
  chain : FatChain boot disk' first (dirs ++ [n])
  link : fatEntry boot disk' final = n
  newLast : fatEntry boot disk' n = 0x0FFFFFFF
  last : fatEntry boot disk' c = 0x0FFFFFFF
  entry : (clusterData boot disk' n 0).HoldsFile 0 name ext c
  zeroed : ∀ s < boot.spc, ∀ position : Fin 512, ¬SlotBytes boot n 0 0 (ataLba (boot.clusterLba n s)) position →
    clusterData boot disk' n s position = 0
  changes : ChangesOnly (fun lba position => EntryBytes boot c lba position ∨ EntryBytes boot final lba position ∨
    EntryBytes boot n lba position ∨ ClusterBytes boot n lba position) disk disk'

theorem FatChain.last_stops (chain : FatChain boot disk first clusters) (ends : clusters.getLast? = some final) :
    nextOf boot disk final = none := by
  obtain ⟨walk, -⟩ := chain
  induction walk with
  | last stop =>
    cases ends
    exact stop
  | link step rest ih =>
    rw [List.getLast?_cons_of_ne_nil (List.ne_nil_of_length_pos rest.length_pos)] at ends
    exact ih ends

theorem StoresOnly.chain (stores : StoresOnly boot disk disk' name ext c owner s slot)
    (chain : FatChain boot disk first clusters) : FatChain boot disk' first clusters := by
  apply chain.congr
  intro cluster member
  apply stores.others cluster (chain.data cluster member).2
  rintro rfl
  exact chain.entry_ne_zero member (mem_freeClusters.mp stores.free).2

theorem firstPlace_full (none : firstPlace boot disk Sector.slotFree dirs = none) :
    ∀ cluster ∈ dirs, ∀ s < boot.spc, ∀ slot < 16, (clusterData boot disk cluster s).slotFree slot = false := by
  intro cluster member s inside
  have missing := Option.map_eq_none_iff.mp (List.findSome?_eq_none_iff.mp none cluster member)
  exact findInSectors_absent missing s (Nat.zero_le s) (by omega)

/-- The file stands in the cluster by which the directory has just grown. -/
theorem StoresOnly.behind (wf : boot.WellFormed) (grows : ExtendsOnly boot disk mid final n)
    (step : Extends boot disk mid final n) (taken : freeClusters boot mid = (freeClusters boot disk).erase n)
    (stores : StoresOnly boot mid disk' name ext c n 0 0) (directory : FatChain boot disk first dirs)
    (ends : dirs.getLast? = some final) (none : firstPlace boot disk Sector.slotFree dirs = none) :
    FileStoredBehind boot disk disk' first dirs name ext c final n := by
  obtain ⟨nData, _⟩ := mem_freeClusters.mp grows.free
  obtain ⟨cData, cZero⟩ := mem_freeClusters.mp stores.free
  have erased := stores.free
  rw [taken, Finset.mem_erase] at erased
  obtain ⟨before, rfl⟩ := List.getLast?_eq_some_iff.mp ends
  have grown := step.chain wf directory
  have member : final ∈ before ++ [final] := List.mem_append_right _ List.mem_cons_self
  have other : ∀ cluster, fatEntry boot mid cluster ≠ 0 → cluster ≠ c := fun _ used same => used (same ▸ cZero)
  have positive := nData.1
  refine ⟨firstPlace_full none, ends, grows.free, erased.2, erased.1, ?_, ?_, ?_, stores.last, stores.entry, ?_, ?_⟩
  · rw [List.append_assoc]
    exact stores.chain grown
  · rw [stores.others final (directory.data final member).2 (other final (by rw [grows.link]; omega))]
    exact grows.link
  · rw [stores.others n nData.2 (other n (by rw [grows.last]; decide))]
    exact grows.last
  · intro s inside position outside
    have same := stores.changes (ataLba (boot.clusterLba n s)) position (by
      rintro (inSlot | inEntry)
      · exact outside inSlot
      · exact EntryBytes.offData wf cData.2 nData inside position inEntry)
    have zero := congrFun (grows.zeroed s inside) position
    exact same.trans zero
  · refine (grows.changes.mono ?_).trans (stores.changes.mono ?_)
    · exact fun lba position touched => .inr touched
    · rintro lba position (inSlot | inEntry)
      · exact .inr (.inr (.inr ⟨0, wf.spc_pos, inSlot.1⟩))
      · exact .inl inEntry

section Fill

variable (wf : st.boot.WellFormed) (coherent : Coherent st) (directory : FatChain st.boot st.disk first dirs)
  (room : 2 ≤ (freeClusters st.boot st.disk).card)
include wf coherent directory room

theorem fillFile_stores (found : firstPlace st.boot st.disk Sector.slotFree dirs = some (owner, hit)) (name ext : CString) :
    ∃ c st', fillFile name ext owner hit st = (.created c, st') ∧ Kept st st' ∧ Coherent st' ∧
      ∃ s, FileStored st.boot st.disk st'.disk first dirs name ext c owner s hit.slot := by
  have search := directory.search_found found
  obtain ⟨s, inside, lba, buf, slot⟩ := search.place
  obtain ⟨below, free, _⟩ := findInSector_some slot
  have member := directory.reach_mem search.found_reach.1
  have data := directory.data owner member
  have some : freeClusters st.boot st.disk ≠ ∅ := by
    intro none
    rw [none] at room
    exact absurd room (by decide)
  have stores := placeSlot_storesOnly wf coherent some data inside below lba buf name ext
  have kept := fatAllocCluster_kept 1 st
  refine ⟨_, _, rfl, ⟨kept.boot, kept.cwdCluster, kept.cwdPath⟩, ?_, s, stores, member, inside, below, buf ▸ free,
    stores.chain directory⟩
  exact placeSlot_coherent wf coherent (DataCluster.outsideFat wf data) inside lba name ext 0x20

theorem placeBehind_stores (ends : dirs.getLast? = some final)
    (none : firstPlace st.boot st.disk Sector.slotFree dirs = none) (name ext : CString) (fullText : String) :
    ∃ c st', placeBehind (fillFile name ext) fullText final st = (.created c, st') ∧ Kept st st' ∧ Coherent st' ∧
      ∃ n, FileStoredBehind st.boot st.disk st'.disk first dirs name ext c final n := by
  have member : final ∈ dirs := List.mem_of_getLast? ends
  have inRange := (directory.data final member).2
  have used := directory.entry_ne_zero member
  have stop := directory.last_stops ends
  have some : freeClusters st.boot st.disk ≠ ∅ := by
    intro none
    rw [none] at room
    exact absurd room (by decide)
  have last : endOfChain ≤ directNext st.boot final st.disk := by
    unfold nextOf at stop
    split at stop
    · assumption
    · cases stop
  have grows := (fatExtendChain_exact wf coherent inRange last).1 some
  have kept := fatExtendChain_kept final st
  obtain ⟨after, outcome⟩ := fatExtendChain_coherent wf coherent inRange used
  unfold placeBehind
  dsimp only
  generalize fatExtendChain final st = extended at grows kept after outcome ⊢
  obtain ⟨n, mid⟩ := extended
  dsimp only at grows kept after outcome ⊢
  obtain ⟨boot, cwd, path⟩ := kept
  rcases outcome with ⟨full, _⟩ | ⟨step, taken⟩
  · exact absurd full some
  · have more := Finset.card_erase_of_mem grows.free
    rw [← taken] at more
    have free : freeClusters st.boot mid.disk ≠ ∅ := by
      intro none
      rw [none, Finset.card_empty] at more
      omega
    have stores := @placeSlot_storesOnly mid n 0 ⟨st.boot.clusterLba n 0, Sector.zero, 0⟩
    have stays := @placeSlot_coherent mid n 0 ⟨st.boot.clusterLba n 0, Sector.zero, 0⟩
    have allocated := fatAllocCluster_kept 1 mid
    rw [boot] at stores stays
    rw [if_neg (Nat.not_le.mpr (data_lt_endOfChain wf step.data))]
    refine ⟨_, _, rfl, ⟨allocated.boot.trans boot, allocated.cwdCluster.trans cwd, allocated.cwdPath.trans path⟩, ?_,
      n, ?_⟩
    · exact stays wf after (DataCluster.outsideFat wf step.data) wf.spc_pos rfl name ext 0x20
    · exact (stores wf after free step.data wf.spc_pos (Nat.succ_pos 15) rfl (grows.zeroed 0 wf.spc_pos).symm name
        ext).behind wf grows step taken directory ends none

end Fill

/-- For every directory chain, `fat_write_file` returns and stores exactly one entry for a file without
contents: in a slot that was free, or behind a directory without one. -/
theorem fatWriteFile_exact {st : FatState} (wf : st.boot.WellFormed) (coherent : Coherent st)
    (directory : FatChain st.boot st.disk st.cwdCluster dirs) (room : 2 ≤ (freeClusters st.boot st.disk).card)
    (new : (dirs.findSome? (fileDuplicateIn st.boot st.disk name)).isSome = false) (enough : dirs.length + 1 < fuel)
    (ext : CString) :
    ∃ c st', fatWriteFile fuel name ext st = some (.created c, st') ∧ Kept st st' ∧ Coherent st' ∧
      ((∃ owner s slot, FileStored st.boot st.disk st'.disk st.cwdCluster dirs name ext c owner s slot) ∨
        ∃ final n, FileStoredBehind st.boot st.disk st'.disk st.cwdCluster dirs name ext c final n) := by
  have lagging := coherent.lagging wf.layout
  obtain ⟨mid, start, _, checked⟩ := fatWriteFile_checked wf lagging directory (by omega : dirs.length < fuel) name ext
  have ends := List.getLast?_eq_some_getLast (List.ne_nil_of_length_pos directory.chain.length_pos)
  obtain ⟨last, loaded, _, placed⟩ := placeLoop_eq wf lagging (fillFile name ext) "Kein Platz im Root-Directory\n"
    directory start ends enough
  rw [checked, new, if_neg Bool.false_ne_true, start.kept.cwdCluster, placed]
  have stays := coherent.loaded loaded
  have boot := loaded.kept.boot
  have disk := loaded.disk
  cases found : firstPlace st.boot st.disk Sector.slotFree dirs with
  | some place =>
    have stored := @fillFile_stores last st.cwdCluster dirs
    rw [boot, disk] at stored
    obtain ⟨c, st', result, kept, coherent', s, file⟩ := stored wf stays directory room found name ext
    exact ⟨c, st', congrArg some result, loaded.kept.trans kept, coherent', .inl ⟨_, s, _, file⟩⟩
  | none =>
    have stored := @placeBehind_stores last st.cwdCluster dirs
    rw [boot, disk] at stored
    obtain ⟨c, st', result, kept, coherent', n, file⟩ := stored wf stays directory room ends found name ext _
    exact ⟨c, st', congrArg some result, loaded.kept.trans kept, coherent', .inr ⟨_, n, file⟩⟩

/-- `create B T` next to the only file of a volume. -/
theorem fatWriteFile_exact_oneFile :
    ∃ c st', fatWriteFile 3 [0x42] [0x54] (mounted oneFileVolume) = some (.created c, st') ∧
      Kept (mounted oneFileVolume) st' ∧ Coherent st' ∧
      ((∃ owner s slot, FileStored (mounted oneFileVolume).boot (mounted oneFileVolume).disk st'.disk
          (mounted oneFileVolume).cwdCluster [2] [0x42] [0x54] c owner s slot) ∨
        ∃ final n, FileStoredBehind (mounted oneFileVolume).boot (mounted oneFileVolume).disk st'.disk
          (mounted oneFileVolume).cwdCluster [2] [0x42] [0x54] c final n) := by
  obtain ⟨boot, directory, _⟩ := oneFileVolume_directory
  exact fatWriteFile_exact (by rw [boot]; exact sampleBoot_wellFormed) (mounted_coherent _) directory
    (by decide +kernel) (by decide +kernel) (by decide) [0x54]

end LivlyOS.Fs
