import LivlyOS.Fs.ChainWalk
import LivlyOS.Fs.Coherence
import LivlyOS.Fs.Creation

namespace LivlyOS.Fs

open LivlyOS.Lib

/-- The sectors of a directory that may have grown by one zeroed cluster. -/
def sectorBefore (boot : FAT32BootSector) (disk : Disk) (dirs : List Nat) (cluster s : Nat) : Sector :=
  if cluster ∈ dirs then clusterData boot disk cluster s else Sector.zero

/-- A slot of the directory `dirs'` was free and now holds an entry with the
cluster `n`, whose first sector may be new as well. Nothing else in use changes. -/
structure EntryStored (boot : FAT32BootSector) (disk disk' : Disk) (first : Nat) (dirs dirs' : List Nat)
    (name ext : CString) (attributes : UInt8) (n owner s slot : Nat) : Prop where
  chain : FatChain boot disk' first dirs'
  grows : dirs' = dirs ∨ ∃ more, fatEntry boot disk more = 0 ∧ dirs' = dirs ++ [more]
  member : owner ∈ dirs'
  inside : s < boot.spc
  below : slot < 16
  free : (sectorBefore boot disk dirs owner s).slotFree slot = true
  sector : clusterData boot disk' owner s =
    createdSlot name ext attributes (sectorBefore boot disk dirs owner s) slot n
  others : ∀ cluster ∈ dirs', ∀ t < boot.spc, cluster ≠ owner ∨ t ≠ s →
    clusterData boot disk' cluster t = sectorBefore boot disk dirs cluster t
  contents : ∀ cluster, boot.DataCluster cluster → cluster ∉ dirs' → ∀ t < boot.spc, cluster ≠ n ∨ t ≠ 0 →
    clusterData boot disk' cluster t = clusterData boot disk cluster t
  entries : ∀ cluster, cluster < boot.totalClusters + 2 → cluster ∉ dirs →
    fatEntry boot disk cluster ≠ 0 → fatEntry boot disk' cluster = fatEntry boot disk cluster
  taken : n ≠ 0 → boot.DataCluster n ∧ fatEntry boot disk n = 0 ∧ fatEntry boot disk' n = 0x0FFFFFFF ∧
    n ∉ dirs'

/-- Storing an entry in a free slot of a directory sector. -/
theorem placeSlot_stored {hit : Hit} (wf : st.boot.WellFormed) (lagging : Lagging st)
    (chain : FatChain st.boot st.disk first dirs) (member : owner ∈ dirs) (inside : s < st.boot.spc)
    (below : hit.slot < 16) (lba : hit.lba = st.boot.clusterLba owner s)
    (buf : hit.buf = clusterData st.boot st.disk owner s) (free : hit.buf.slotFree hit.slot = true) :
    Lagging (placeSlot name ext attributes hit st).2 ∧ Kept st (placeSlot name ext attributes hit st).2 ∧
    EntryStored st.boot st.disk (placeSlot name ext attributes hit st).2.disk first dirs dirs name ext
      attributes (placeSlot name ext attributes hit st).1 owner s hit.slot := by
  have outcome := fatAllocCluster_lagging lagging wf
  have kept := fatAllocCluster_kept 1 st
  have data := chain.data owner member
  rw [placeSlot]
  generalize fatAllocCluster 1 st = allocated at outcome kept ⊢
  obtain ⟨n, ⟨disk, _, _, _, nr, cached, dirty, console⟩⟩ := allocated
  obtain ⟨rfl, rfl, rfl⟩ := kept
  simp only at outcome ⊢
  have offFat : ∀ sector lba, st.boot.IsFatSector lba →
      ataReadSector (ataWriteSector disk (st.boot.clusterLba owner s) sector) lba =
        ataReadSector disk lba :=
    fun sector _ fat => readFat_writeData wf disk sector data inside fat
  have entries : ∀ sector cluster, cluster < st.boot.totalClusters + 2 →
      fatEntry st.boot (ataWriteSector disk (st.boot.clusterLba owner s) sector) cluster =
        fatEntry st.boot disk cluster :=
    fun sector _ inRange => fatEntry_congr wf.layout (offFat sector) inRange
  have lagging' : Lagging ⟨disk, st.boot, st.cwdCluster, st.cwdPath, nr, cached, dirty, console⟩ := by
    rcases outcome with ⟨_, loaded⟩ | ⟨coherent, _⟩
    · exact lagging.loaded loaded
    · exact coherent.lagging wf.layout
  have contents : ∀ cluster, st.boot.DataCluster cluster → ∀ t < st.boot.spc,
      clusterData st.boot disk cluster t = clusterData st.boot st.disk cluster t := by
    rcases outcome with ⟨_, loaded⟩ | ⟨_, marks⟩
    · exact fun _ _ _ _ => by rw [show disk = st.disk from loaded.disk]
    · exact marks.contents
  have used : ∀ cluster, cluster < st.boot.totalClusters + 2 → fatEntry st.boot st.disk cluster ≠ 0 →
      fatEntry st.boot disk cluster = fatEntry st.boot st.disk cluster := by
    rcases outcome with ⟨_, loaded⟩ | ⟨_, marks⟩
    · exact fun _ _ _ => by rw [show disk = st.disk from loaded.disk]
    · exact marks.others
  rw [lba]
  refine ⟨lagging'.rewrite wf.layout _ (offFat _), ⟨rfl, rfl, rfl⟩, ?_⟩
  refine ⟨chain.congr (fun cluster present => ?_), .inl rfl, member, inside, below, ?_, ?_, ?_, ?_, ?_, ?_⟩
  · have range := (chain.data cluster present).2
    exact (entries _ cluster range).trans (used cluster range (chain.entry_ne_zero present))
  · rw [sectorBefore, if_pos member, ← buf]
    exact free
  · rw [sectorBefore, if_pos member, ← buf, clusterData_write wf disk _ data data inside inside,
      if_pos ⟨rfl, rfl⟩]
    rfl
  · intro cluster present t tInside elsewhere
    have other := chain.data cluster present
    rw [sectorBefore, if_pos present, clusterData_write wf disk _ data other inside tInside,
      if_neg (by omega)]
    exact contents cluster other t tInside
  · intro cluster other absent t tInside _
    rw [clusterData_write wf disk _ data other inside tInside,
      if_neg (fun same : cluster = owner ∧ t = s => absent (same.1 ▸ member))]
    exact contents cluster other t tInside
  · intro cluster range _ taken
    exact (entries _ cluster range).trans (used cluster range taken)
  · intro some
    rcases outcome with ⟨none, _⟩ | ⟨_, marks⟩
    · exact absurd none some
    · exact ⟨marks.data, marks.free, (entries _ n marks.data.2).trans marks.last,
        fun inChain => chain.entry_ne_zero inChain marks.free⟩

theorem EntryStored.sameSlot
    (entry : EntryStored boot disk disk' first dirs dirs' name ext attributes n owner s slot)
    (member : cluster ∈ dirs') (inside : t < boot.spc)
    (other : ¬ (cluster = owner ∧ t = s ∧ index = slot)) :
    Sector.SameSlot (clusterData boot disk' cluster t) (sectorBefore boot disk dirs cluster t) index := by
  by_cases here : cluster = owner ∧ t = s
  · rw [here.1, here.2, entry.sector]
    exact createdSlot_other name ext attributes _ n (fun same => other ⟨here.1, here.2, same⟩)
  · rw [entry.others cluster member t inside (by omega)]
    exact .refl _ _

/-- The last cluster of a chain is the one without a successor. -/
theorem FatChain.ends (chain : FatChain boot disk first clusters) (reach : Reach boot disk first final)
    (stop : nextOf boot disk final = none) : ∃ before, clusters = before ++ [final] := by
  obtain ⟨before, after, whole, tail⟩ := chain.chain.split (chain.reach_mem reach)
  rw [tail.unique (.last stop)] at whole
  exact ⟨before, whole⟩

/-- The entry stands in the cluster by which the directory has just grown. -/
theorem EntryStored.extended (step : Extends boot disk mid final more)
    (chain : FatChain boot disk first dirs) (ends : final ∈ dirs)
    (entry : EntryStored boot mid disk' first (dirs ++ [more]) (dirs ++ [more]) name ext attributes
      n owner s slot) :
    EntryStored boot disk disk' first dirs (dirs ++ [more]) name ext attributes n owner s slot := by
  have outside : more ∉ dirs := fun inChain => chain.entry_ne_zero inChain step.free
  have same : ∀ cluster ∈ dirs ++ [more], ∀ t < boot.spc,
      sectorBefore boot mid (dirs ++ [more]) cluster t = sectorBefore boot disk dirs cluster t := by
    intro cluster member t inside
    rw [sectorBefore, if_pos member, sectorBefore]
    rcases List.mem_append.mp member with old | new
    · rw [if_pos old]
      exact step.contents cluster (chain.data cluster old) (fun equal => outside (equal ▸ old)) t inside
    · rw [List.mem_singleton.mp new, if_neg outside]
      exact step.zeroed t inside
  have here := same owner entry.member s entry.inside
  have linked : ∀ cluster, cluster < boot.totalClusters + 2 → cluster ∉ dirs →
      fatEntry boot disk cluster ≠ 0 → fatEntry boot mid cluster = fatEntry boot disk cluster :=
    fun cluster range absent => step.others cluster range (fun equal => absent (equal ▸ ends))
  refine ⟨entry.chain, .inr ⟨more, step.free, rfl⟩, entry.member, entry.inside, entry.below,
    here ▸ entry.free, here ▸ entry.sector, ?_, ?_, ?_, ?_⟩
  · intro cluster member t inside elsewhere
    rw [entry.others cluster member t inside elsewhere]
    exact same cluster member t inside
  · intro cluster data absent t inside old
    rw [entry.contents cluster data absent t inside old]
    exact step.contents cluster data (fun equal => absent (by simp [equal])) t inside
  · intro cluster range absent used
    have before := linked cluster range absent used
    have new : cluster ≠ more := fun equal => used (equal ▸ step.free)
    rw [entry.entries cluster range (by simp [absent, new]) (by rw [before]; exact used), before]
  · intro some
    obtain ⟨data, fresh, last, apart⟩ := entry.taken some
    refine ⟨data, ?_, last, apart⟩
    by_contra used
    have absent : n ∉ dirs := fun inChain => apart (List.mem_append_left _ inChain)
    exact used ((linked n data.2 absent used).symm.trans fresh)

/-- The entry stands in the cluster the slot search ends in, a new one when no cluster
has a free slot, and lacks a cluster of its own only when none is left. -/
structure StoredAt (st : FatState) (dirs : List Nat) (n current s slot : Nat) : Prop where
  found : ∀ cluster hit, firstPlace st.boot st.disk Sector.slotFree dirs = some (cluster, hit) →
    current = cluster ∧ current ∈ dirs ∧ hit.lba = st.boot.clusterLba current s ∧ hit.slot = slot
  absent : firstPlace st.boot st.disk Sector.slotFree dirs = none → current ∉ dirs
  data : n ≠ 0 → st.boot.DataCluster n
  room : n = 0 → if current ∈ dirs then visibleFree st = ∅
    else (visibleFree st).card ≤ 1 ∧ (freeClusters st.boot st.disk).Nonempty

/-- There is neither a free slot nor a cluster for another one. -/
structure NoRoom (st : FatState) (dirs : List Nat) (result : CreateExit × FatState) : Prop where
  exit : result.1 = .full
  absent : firstPlace st.boot st.disk Sector.slotFree dirs = none
  loaded : Loaded st result.2
  none : visibleFree st = ∅

/-- An entry without a cluster means that the driver saw none. -/
theorem placeSlot_full {mid : FatState} {hit : Hit} (wf : mid.boot.WellFormed) (clean : mid.fatCacheDirty = false)
    (none : (placeSlot name ext attributes hit mid).1 = 0) : visibleFree mid = ∅ := by
  by_contra some
  exact fatAllocCluster_visible wf clean (Finset.nonempty_iff_ne_empty.mpr some) none

/-- How a creating call that passes its check ends: without a free cluster for the
full directory, or with an entry in a directory cluster. -/
theorem Placement.stored {st : FatState} (wf : st.boot.WellFormed) (lagging : Lagging st)
    (directory : FatChain st.boot st.disk st.cwdCluster dirs)
    (search : Search st.boot st.disk Sector.slotFree st.cwdCluster outcome)
    (placed : Placement fill st outcome result) :
    NoRoom st dirs result ∨
    ∃ current hit mid dirs' s, result = fill current hit mid ∧
      StoredAt st dirs (placeSlot name ext attributes hit mid).1 current s hit.slot ∧
      Lagging (placeSlot name ext attributes hit mid).2 ∧
      (Coherent st → Coherent (placeSlot name ext attributes hit mid).2) ∧
      Kept st (placeSlot name ext attributes hit mid).2 ∧
      EntryStored st.boot st.disk (placeSlot name ext attributes hit mid).2.disk st.cwdCluster dirs dirs'
        name ext attributes (placeSlot name ext attributes hit mid).1 current s hit.slot := by
  have place := directory.firstPlace_eq search
  cases placed with
  | @found mid cluster hit loaded =>
    obtain ⟨s, inside, lba, buf, found⟩ := search.place
    obtain ⟨below, free, _⟩ := findInSector_some found
    have member := directory.reach_mem search.found_reach.1
    have boot := loaded.kept.boot
    have disk := loaded.disk
    have entry := @placeSlot_stored mid st.cwdCluster dirs cluster s name ext attributes hit
    rw [boot, disk] at entry
    obtain ⟨lagging', kept, new⟩ := entry wf (lagging.loaded loaded) directory member inside below lba buf free
    have outside : OutsideFat mid.boot cluster := by
      rw [boot]
      exact DataCluster.outsideFat wf (directory.data cluster member)
    have coherent := fun before : Coherent st => @placeSlot_coherent mid cluster s hit (by rw [boot]; exact wf)
      (before.loaded loaded) outside (by rw [boot]; exact inside) (by rw [boot]; exact lba) name ext attributes
    rw [Outcome.place] at place
    refine .inr ⟨cluster, hit, mid, dirs, s, rfl, ⟨?_, fun none => ?_, fun some => (new.taken some).1,
      fun none => ?_⟩, lagging', coherent, loaded.kept.trans kept, new⟩
    · intro other hit' same
      cases place.symm.trans same
      exact ⟨rfl, member, lba, rfl⟩
    · cases place.symm.trans none
    · have full := placeSlot_full (by rw [boot]; exact wf) loaded.clean none
      rw [if_pos member]
      exact Finset.subset_empty.mp (full ▸ loaded.visibleFree)
  | full loaded none => exact .inl ⟨rfl, place, loaded, none⟩
  | @extended mid final n after kept step left =>
    obtain ⟨reach, stop⟩ := search.absent_reach
    obtain ⟨before, ends⟩ := directory.ends reach stop
    have grown := step.chain wf (ends ▸ directory)
    rw [← List.singleton_append, ← List.append_assoc, ← ends] at grown
    have boot := kept.boot
    have member : n ∈ dirs ++ [n] := by simp
    have outside : n ∉ dirs := fun inChain => directory.entry_ne_zero inChain step.free
    have entry := @placeSlot_stored mid st.cwdCluster (dirs ++ [n]) n 0 name ext attributes
      ⟨st.boot.clusterLba n 0, Sector.zero, 0⟩
    rw [boot] at entry
    obtain ⟨lagging', kept', new⟩ := entry wf (after.lagging (by rw [boot]; exact wf.layout)) grown member
      wf.spc_pos (Nat.succ_pos _) rfl (step.zeroed 0 wf.spc_pos).symm (Sector.zero_slotFree 0)
    have offFat : OutsideFat mid.boot n := by
      rw [boot]
      exact DataCluster.outsideFat wf step.data
    have coherent := @placeSlot_coherent mid n 0 ⟨st.boot.clusterLba n 0, Sector.zero, 0⟩
      (by rw [boot]; exact wf) after offFat (by rw [boot]; exact wf.spc_pos) (by rw [boot]) name ext attributes
    rw [Outcome.place] at place
    have stored := new.extended step directory (by simp [ends])
    refine .inr ⟨n, _, mid, dirs ++ [n], 0, rfl, ⟨fun _ _ some => ?_, fun _ => outside,
      fun some => (stored.taken some).1, fun none => ?_⟩, lagging', fun _ => coherent, kept.trans kept',
      stored⟩
    · cases place.symm.trans some
    have full := placeSlot_full (by rw [boot]; exact wf) after.clean none
    rw [after.visibleFree (by rw [boot]; exact wf.layout), boot] at full
    rw [full, Finset.subset_empty] at left
    have fewer := (Finset.pred_card_le_card_erase (s := visibleFree st) (a := n)).trans_eq (congrArg Finset.card left)
    rw [if_neg outside]
    exact ⟨Nat.sub_eq_zero_iff_le.mp (Nat.le_zero.mp fewer), n, mem_freeClusters.mpr ⟨step.data, step.free⟩⟩

/-- The name fields of a new directory: `.`, `..` and free slots. -/
theorem dirSector_nameByte (n parent slot : Nat) (below : index < 8) :
    (dirSector n parent).nameByte slot index =
      if slot = 0 then (padField 8 [0x2E]).getD index 0
      else if slot = 1 then (padField 8 [0x2E, 0x2E]).getD index 0 else 0 := by
  rw [dirSector_eq]
  by_cases second : slot = 1
  · rw [second, if_neg (by decide), if_pos rfl, Sector.setLink_nameByte _ _ _ (by decide) below]
  · rw [(Sector.setLink_other _ _ _ second).nameByte (by omega)]
    by_cases first : slot = 0
    · rw [if_pos first, first, Sector.setLink_nameByte _ _ _ (by decide) below]
    · rw [if_neg first, if_neg second, (Sector.setLink_other _ _ _ first).nameByte (by omega), Sector.nameByte,
        Sector.bytes_zero]

/-- The cluster `fat_init_dir_cluster` writes to is one of the volume, or the cluster 0
of a failed allocation with its sector outside the FAT. -/
def InitsAt (boot : FAT32BootSector) (n : Nat) : Prop := boot.DataCluster n ∨ (n = 0 ∧ OutsideFat boot 0)

section InitDir

variable {boot : FAT32BootSector} (wf : boot.WellFormed) (disk : Disk) (sector : Sector)
include wf

theorem readFat_initDir (inits : InitsAt boot n) (fat : boot.IsFatSector lba) :
    ataReadSector (ataWriteSector disk (boot.clusterSector n) sector) lba = ataReadSector disk lba := by
  rw [← boot.clusterLba_zero]
  rcases inits with data | ⟨rfl, outside⟩
  · exact readFat_writeData wf disk sector data wf.spc_pos fat
  · refine ataReadSector_other disk sector (fun same => ?_)
    rw [ataLba_of_lt fat.2.2] at same
    exact outside 0 wf.spc_pos (same ▸ fat)

theorem clusterData_initDir_other (inits : n ≠ 0 → boot.DataCluster n) (data : boot.DataCluster cluster)
    (different : cluster ≠ n) (inside : t < boot.spc) :
    clusterData boot (ataWriteSector disk (boot.clusterSector n) sector) cluster t =
      clusterData boot disk cluster t := by
  rw [← boot.clusterLba_zero]
  by_cases none : n = 0
  · refine ataReadSector_other disk sector ?_
    have place := (wf.clusterLba_eq data inside).1
    have missing := (clusterLba_missing wf wf.spc_pos).2
    rw [none, wf.ataLba_clusterLba data inside, ataLba_missing wf wf.spc_pos]
    omega
  · rw [clusterData_write wf disk sector (inits none) data wf.spc_pos inside,
      if_neg (fun both : _ ∧ _ => different both.1)]

theorem clusterData_initDir (data : boot.DataCluster n) (inside : t < boot.spc) :
    clusterData boot (ataWriteSector disk (boot.clusterSector n) sector) n t =
      if t = 0 then sector else clusterData boot disk n t := by
  rw [← boot.clusterLba_zero, clusterData_write wf disk sector data data wf.spc_pos inside]
  simp

end InitDir

theorem EntryStored.apart
    (entry : EntryStored boot disk disk' first dirs dirs' name ext attributes n owner s slot) :
    ∀ cluster ∈ dirs', cluster ≠ n := by
  rintro cluster member rfl
  have low := (entry.chain.data cluster member).1
  exact (entry.taken (by omega)).2.2.2 member

theorem EntryStored.initDir (wf : boot.WellFormed)
    (entry : EntryStored boot disk disk' first dirs dirs' name ext attributes n owner s slot)
    (inits : InitsAt boot n) (sector : Sector) :
    EntryStored boot disk (ataWriteSector disk' (boot.clusterSector n) sector) first dirs dirs' name ext
      attributes n owner s slot := by
  have taken := fun some : n ≠ 0 => (entry.taken some).1
  have same : ∀ cluster ∈ dirs', ∀ t < boot.spc,
      clusterData boot (ataWriteSector disk' (boot.clusterSector n) sector) cluster t =
        clusterData boot disk' cluster t :=
    fun cluster member _ inside => clusterData_initDir_other wf disk' sector taken
      (entry.chain.data cluster member) (entry.apart cluster member) inside
  have fat := fun cluster (range : cluster < boot.totalClusters + 2) =>
    fatEntry_congr wf.layout (fun _ fat => readFat_initDir wf disk' sector inits fat) range
  refine ⟨entry.chain.congr (fun cluster member => fat cluster (entry.chain.data cluster member).2), entry.grows,
    entry.member, entry.inside, entry.below, entry.free, ?_, ?_, ?_, ?_, ?_⟩
  · rw [same owner entry.member s entry.inside]
    exact entry.sector
  · intro cluster member t inside elsewhere
    rw [same cluster member t inside]
    exact entry.others cluster member t inside elsewhere
  · intro cluster data absent t inside old
    rw [← entry.contents cluster data absent t inside old]
    by_cases own : cluster = n
    · subst own
      rw [clusterData_initDir wf disk' sector data inside, if_neg (by omega)]
    · exact clusterData_initDir_other wf disk' sector taken data own inside
  · intro cluster range absent used
    rw [fat cluster range]
    exact entry.entries cluster range absent used
  · intro some
    obtain ⟨data, fresh, last, outside⟩ := entry.taken some
    exact ⟨data, fresh, (fat n data.2).trans last, outside⟩

/-- A call has stored an entry in the cluster `current`. -/
structure CreatedIn (st st' : FatState) (dirs dirs' : List Nat) (name ext : CString) (attributes : UInt8)
    (n current s slot : Nat) : Prop where
  place : StoredAt st dirs n current s slot
  kept : Kept st st'
  lagging : Lagging st'
  coherent : Coherent st → Coherent st'
  entry : EntryStored st.boot st.disk st'.disk st.cwdCluster dirs dirs' name ext attributes n current s slot

section Create

variable (wf : st.boot.WellFormed) (lagging : Lagging st)
  (directory : FatChain st.boot st.disk st.cwdCluster dirs) (enough : dirs.length + 1 < fuel)
include wf lagging directory enough

theorem fatWriteFile_stores (name ext : CString) :
    ∃ exit st', fatWriteFile fuel name ext st = some (exit, st') ∧
      ((dirs.findSome? (fileDuplicateIn st.boot st.disk name)).isSome = true →
        exit = .duplicate ∧ Loaded st st') ∧
      ((dirs.findSome? (fileDuplicateIn st.boot st.disk name)).isSome = false → NoRoom st dirs (exit, st') ∨
        ∃ n dirs' current s slot, exit = .created n ∧
          CreatedIn st st' dirs dirs' name ext 0x20 n current s slot) := by
  obtain ⟨⟨exit, st'⟩, total, duplicate, stored⟩ := fatWriteFile_total wf lagging directory enough name ext
  refine ⟨exit, st', total, duplicate, fun absent => ?_⟩
  obtain ⟨outcome, search, placed⟩ := stored absent
  rcases @Placement.stored _ _ _ _ name ext 0x20 _ wf lagging directory search placed with
    full | ⟨current, hit, mid, dirs', s, same, place, lagging', coherent, kept, entry⟩
  · exact .inl full
  · cases same
    exact .inr ⟨_, dirs', current, s, hit.slot, rfl, place, kept, lagging', coherent, entry⟩

/-- The entry of a new directory and the first sector of its cluster. -/
theorem fatCreateDir_stores (name : CString) :
    ∃ exit st', fatCreateDir fuel name st = some (exit, st') ∧
      (dirs.findSome? (dirDuplicateIn st.boot st.disk name) = some true →
        exit = .duplicate ∧ Loaded st st') ∧
      (dirs.findSome? (dirDuplicateIn st.boot st.disk name) ≠ some true → NoRoom st dirs (exit, st') ∨
        ∃ n dirs' current s slot placed, exit = .created n ∧
          CreatedIn st placed dirs dirs' name [] 0x10 n current s slot ∧
          st' = fatInitDirCluster n current placed) := by
  obtain ⟨⟨exit, st'⟩, total, duplicate, stored⟩ := fatCreateDir_total wf lagging directory enough name
  refine ⟨exit, st', total, fun found => duplicate (dirDuplicate_getD.mpr found), fun absent => ?_⟩
  obtain ⟨outcome, search, placed⟩ := stored
    (Bool.eq_false_iff.mpr (fun found => absent (dirDuplicate_getD.mp found)))
  rcases @Placement.stored _ _ _ _ name [] 0x10 _ wf lagging directory search placed with
    full | ⟨current, hit, mid, dirs', s, same, place, lagging', coherent, kept, entry⟩
  · exact .inl full
  · cases same
    exact .inr ⟨_, dirs', current, s, hit.slot, _, rfl, ⟨place, kept, lagging', coherent, entry⟩, rfl⟩

end Create

/-- A new directory whose first sector lies in a cluster of the volume, or outside the FAT. -/
theorem CreatedIn.initDir (wf : st.boot.WellFormed)
    (created : CreatedIn st placed dirs dirs' name ext attributes n current s slot)
    (inits : InitsAt st.boot n) :
    CreatedIn st (fatInitDirCluster n current placed) dirs dirs' name ext attributes n current s slot ∧
      (n ≠ 0 → clusterData st.boot (fatInitDirCluster n current placed).disk n 0 = dirSector n current) := by
  obtain ⟨place, kept, lagging, coherent, entry⟩ := created
  have boot := kept.boot
  have fat := fun lba (fat : st.boot.IsFatSector lba) =>
    readFat_initDir wf placed.disk (dirSector n current) inits fat
  rw [← boot] at fat
  refine ⟨⟨place, ⟨kept.boot, kept.cwdCluster, kept.cwdPath⟩, ?_, fun before => ?_, ?_⟩, fun some => ?_⟩
  · exact lagging.rewrite (by rw [boot]; exact wf.layout) _ fat
  · exact ⟨(coherent before).clean, fun isFat => ((coherent before).current isFat).trans (fat _ isFat).symm⟩
  · simp only [fatInitDirCluster, boot]
    exact entry.initDir wf inits _
  · simp only [fatInitDirCluster, boot]
    rw [clusterData_initDir wf _ _ (entry.taken some).1 wf.spc_pos, if_pos rfl]

end LivlyOS.Fs
