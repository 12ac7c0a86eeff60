import LivlyOS.Fs.Coherence

namespace LivlyOS.Fs

open LivlyOS.Lib

/-- The clusters met by following the links from a cluster, with the state of the
cache at each of them. -/
def followed (cluster : Nat) (st : FatState) (count : Nat) : Nat × FatState :=
  (fun point => fatNextCluster point.1 point.2)^[count] (cluster, st)

theorem followed_succ (cluster : Nat) (st : FatState) (count : Nat) :
    followed cluster st (count + 1) =
      followed (fatNextCluster cluster st).1 (fatNextCluster cluster st).2 count := by
  rw [followed, Function.iterate_succ_apply, followed]

theorem followed_last (cluster : Nat) (st : FatState) (count : Nat) :
    followed cluster st (count + 1) =
      fatNextCluster (followed cluster st count).1 (followed cluster st count).2 :=
  Function.iterate_succ_apply' _ _ _

/-- The parts of a state a link is read from. -/
structure SameLinks (st st' : FatState) : Prop where
  disk : st'.disk = st.disk
  boot : st'.boot = st.boot
  nr : st'.cachedFatSectorNr = st.cachedFatSectorNr
  buf : st'.cachedFatBuf = st.cachedFatBuf
  dirty : st'.fatCacheDirty = st.fatCacheDirty

theorem SameLinks.refl (st : FatState) : SameLinks st st := ⟨rfl, rfl, rfl, rfl, rfl⟩

theorem SameLinks.trans (first : SameLinks st mid) (second : SameLinks mid st') : SameLinks st st' :=
  ⟨second.disk.trans first.disk, second.boot.trans first.boot, second.nr.trans first.nr,
    second.buf.trans first.buf, second.dirty.trans first.dirty⟩

theorem SameLinks.next (same : SameLinks st st') (cluster : Nat) :
    (fatNextCluster cluster st').1 = (fatNextCluster cluster st).1 ∧
      SameLinks (fatNextCluster cluster st).2 (fatNextCluster cluster st').2 := by
  obtain ⟨disk, boot, cwd, path, nr, buf, dirty, console⟩ := st
  obtain ⟨disk', boot', cwd', path', nr', buf', dirty', console'⟩ := st'
  obtain ⟨rfl, rfl, rfl, rfl, rfl⟩ := same
  simp only [fatNextCluster, fatCacheEntry, fatCacheLoad, fatCacheFlush]
  split
  · split
    · exact ⟨rfl, rfl, rfl, rfl, rfl, rfl⟩
    · exact ⟨rfl, rfl, rfl, rfl, rfl, rfl⟩
  · exact ⟨rfl, rfl, rfl, rfl, rfl, rfl⟩

theorem followed_clean (clean : st.fatCacheDirty = false) (cluster count : Nat) :
    Loaded st (followed cluster st count).2 := by
  induction count with
  | zero => exact .refl clean
  | succ count ih =>
    rw [followed_last]
    exact ih.next _

/-- The walks with the test in front: `fat_list_dir`, the checks of `fat_write_file`
and `fat_create_dir`, `fat_open_dir` and the copying loop of `fat_read_file`. -/
inductive DiskWalk where
  | list
  | fileDuplicate (name : CString)
  | dirDuplicate (name : CString)
  | openDir (name : CString)
  | readData (offset : Nat) (out : Bytes)

/-- What a walk finds in a cluster that lets it stop there. -/
def DiskWalk.decides (boot : FAT32BootSector) (disk : Disk) (cluster : Nat) : DiskWalk → Bool
  | .list => (listSectors disk (boot.clusterSector cluster) boot.spc 0).2
  | .fileDuplicate name =>
    duplicateInSector name (ataReadSector disk (boot.clusterSector cluster)) = .duplicate
  | .dirDuplicate name =>
    duplicateInSectors name disk (boot.clusterSector cluster) boot.spc 0 ≠ .absent
  | .openDir name =>
    (findInSectors (Sector.slotIsDirNamed name) disk (boot.clusterSector cluster) boot.spc 0).isSome
  | .readData _ _ => false

/-- The walk ends when it starts at a cluster. -/
def DiskWalk.Ends (cluster : Nat) (st : FatState) : DiskWalk → Prop
  | .list => ∃ fuel, (loop listTurn fuel (cluster, st)).isSome = true
  | .fileDuplicate name => ∃ fuel, (loop (fileDuplicateTurn name) fuel (cluster, st)).isSome = true
  | .dirDuplicate name => ∃ fuel, (loop (dirDuplicateTurn name) fuel (cluster, st)).isSome = true
  | .openDir name => ∃ fuel, (loop (openTurn name) fuel (cluster, st)).isSome = true
  | .readData offset out => ∃ fuel, (loop readTurn fuel ⟨cluster, offset, out, st⟩).isSome = true

/-- `fat_open_dir` finds a directory in a cluster or leaves the state as it is. -/
theorem openInSectors_found (name : CString) (sektor count s : Nat) (found : Bool) (st : FatState) :
    (openInSectors name sektor count s found st).1 =
      (found || (findInSectors (Sector.slotIsDirNamed name) st.disk sektor count s).isSome) := by
  induction count generalizing s found st with
  | zero => simp [openInSectors, findInSectors]
  | succ count ih =>
    rw [openInSectors, findInSectors]
    cases findInSector (Sector.slotIsDirNamed name) (ataReadSector st.disk (u32 (sektor + s))) with
    | some slot => simp [ih]
    | none => exact ih (s + 1) found st

theorem openInSectors_absent (name : CString) (sektor count s : Nat) (found : Bool) (st : FatState)
    (absent : findInSectors (Sector.slotIsDirNamed name) st.disk sektor count s = none) :
    openInSectors name sektor count s found st = (found, st) := by
  induction count generalizing s with
  | zero => rfl
  | succ count ih =>
    rw [findInSectors] at absent
    rw [openInSectors]
    cases here : findInSector (Sector.slotIsDirNamed name) (ataReadSector st.disk (u32 (sektor + s))) with
    | some slot =>
      rw [here] at absent
      cases absent
    | none =>
      rw [here] at absent
      exact ih (s + 1) absent

/-- A turn of `fat_open_dir` by what the sectors of its cluster hold. -/
theorem openTurn_eq (name : CString) (cluster : Nat) (st : FatState) :
    openTurn name (cluster, st) =
      if endOfChain ≤ cluster then .leave (false, st)
      else if (findInSectors (Sector.slotIsDirNamed name) st.disk (st.boot.clusterSector cluster)
          st.boot.spc 0).isSome = true then
        .leave (true, (fatNextCluster cluster
          (openInSectors name (st.boot.clusterSector cluster) st.boot.spc 0 false st).2).2)
      else .again (fatNextCluster cluster st) := by
  have found := openInSectors_found name (st.boot.clusterSector cluster) st.boot.spc 0 false st
  have stays := openInSectors_absent name (st.boot.clusterSector cluster) st.boot.spc 0 false st
  rw [Bool.false_or] at found
  rw [openTurn]
  dsimp only
  rw [found]
  cases here : findInSectors (Sector.slotIsDirNamed name) st.disk (st.boot.clusterSector cluster) st.boot.spc 0 with
  | some hit => rfl
  | none => rw [stays here]

/-- A point where a walk stops: an end-of-chain value or a cluster that decides it. -/
def Stops (decides : Nat → Bool) (cluster : Nat) : Prop :=
  endOfChain ≤ cluster ∨ decides cluster = true

/-- A loop over clusters with its test in front, and the links it follows. -/
theorem clusterLoop_isSome_iff (clean : st.fatCacheDirty = false) (decides : Nat → Bool)
    (turn : Nat × FatState → Turn (Nat × FatState) ρ)
    (front : ∀ cluster mid, endOfChain ≤ cluster → ∃ result, turn (cluster, mid) = .leave result)
    (stop : ∀ cluster mid, mid.disk = st.disk → mid.boot = st.boot → ¬ endOfChain ≤ cluster →
      decides cluster = true → ∃ result, turn (cluster, mid) = .leave result)
    (follow : ∀ cluster mid, mid.disk = st.disk → mid.boot = st.boot → ¬ endOfChain ≤ cluster →
      decides cluster = false →
      ∃ mid', SameLinks mid mid' ∧ turn (cluster, mid) = .again (fatNextCluster cluster mid')) :
    (∃ fuel, (loop turn fuel (cluster, st)).isSome = true) ↔
      ∃ count, Stops decides (followed cluster st count).1 := by
  refine loop_isSome_iff (fun point => fatNextCluster point.1 point.2) (fun point => Stops decides point.1)
    (fun state point => state.1 = point.1 ∧ Loaded st point.2 ∧ SameLinks point.2 state.2) (cluster, st) ?_ ?_
    ⟨rfl, .refl clean, .refl st⟩
  · rintro ⟨current, mid⟩ ⟨_, start⟩ ⟨rfl, loaded, same⟩ stopped
    by_cases ended : endOfChain ≤ current
    · exact front current mid ended
    · exact stop current mid (same.disk.trans loaded.disk) (same.boot.trans loaded.kept.boot) ended
        (stopped.resolve_left ended)
  · rintro ⟨current, mid⟩ ⟨_, start⟩ ⟨rfl, loaded, same⟩ going
    obtain ⟨inside, undecided⟩ := not_or.mp going
    obtain ⟨mid', kept, again⟩ := follow current mid (same.disk.trans loaded.disk)
      (same.boot.trans loaded.kept.boot) inside (Bool.eq_false_iff.mpr undecided)
    have link := (same.trans kept).next current
    exact ⟨_, again, link.1, loaded.next current, link.2⟩

/-- A walk with its test in front ends exactly when the links it follows come to an
end-of-chain value or to a cluster that decides it. -/
theorem DiskWalk.ends_iff (clean : st.fatCacheDirty = false) (walk : DiskWalk) (cluster : Nat) :
    walk.Ends cluster st ↔
      ∃ count, Stops (fun current => walk.decides st.boot st.disk current) (followed cluster st count).1 := by
  cases walk with
  | list =>
    refine clusterLoop_isSome_iff clean _ listTurn (fun _ mid ended => ⟨mid, if_pos ended⟩) ?_ ?_
    · intro current mid disk boot inside decided
      have ended : (listSectors st.disk (st.boot.clusterSector current) st.boot.spc 0).2 = true := decided
      rw [listTurn, if_neg inside]
      simp only [disk, boot, ended, ↓reduceIte]
      exact ⟨_, rfl⟩
    · intro current mid disk boot inside undecided
      have more : (listSectors mid.disk (mid.boot.clusterSector current) mid.boot.spc 0).2 = false := by
        rw [disk, boot]
        exact undecided
      have printed : SameLinks mid { mid with console := mid.console ++
          (listSectors mid.disk (mid.boot.clusterSector current) mid.boot.spc 0).1 } :=
        ⟨rfl, rfl, rfl, rfl, rfl⟩
      refine ⟨_, printed, ?_⟩
      rw [listTurn, if_neg inside]
      simp only [more, Bool.false_eq_true, ↓reduceIte]
  | fileDuplicate name =>
    refine clusterLoop_isSome_iff clean _ (fileDuplicateTurn name) (fun _ mid ended => ⟨(false, mid), if_pos ended⟩)
      ?_ ?_
    · intro current mid disk boot inside decided
      rw [fileDuplicateTurn, if_neg inside, disk, boot, if_pos (of_decide_eq_true decided)]
      exact ⟨_, rfl⟩
    · intro current mid disk boot inside undecided
      refine ⟨mid, .refl mid, ?_⟩
      rw [fileDuplicateTurn, if_neg inside, disk, boot, if_neg (of_decide_eq_false undecided)]
  | dirDuplicate name =>
    refine clusterLoop_isSome_iff clean _ (dirDuplicateTurn name) (fun _ mid ended => ⟨(false, mid), if_pos ended⟩)
      ?_ ?_
    · intro current mid disk boot inside decided
      have present := of_decide_eq_true decided
      rw [dirDuplicateTurn, if_neg inside, disk, boot]
      cases found : duplicateInSectors name st.disk (st.boot.clusterSector current) st.boot.spc 0 with
      | absent => exact absurd found present
      | duplicate => exact ⟨_, rfl⟩
      | endMark => exact ⟨_, rfl⟩
    · intro current mid disk boot inside undecided
      have absent := not_not.mp (of_decide_eq_false undecided)
      refine ⟨mid, .refl mid, ?_⟩
      rw [dirDuplicateTurn, if_neg inside, disk, boot, absent]
  | openDir name =>
    refine clusterLoop_isSome_iff clean _ (openTurn name) (fun _ mid ended => ⟨(false, mid), if_pos ended⟩) ?_ ?_
    · intro current mid disk boot inside decided
      rw [openTurn_eq, if_neg inside, disk, boot]
      exact ⟨_, if_pos decided⟩
    · intro current mid disk boot inside undecided
      rw [openTurn_eq, if_neg inside, disk, boot]
      exact ⟨mid, .refl mid, if_neg (Bool.eq_false_iff.mp undecided)⟩
  | readData offset out =>
    refine loop_isSome_iff (fun point => fatNextCluster point.1 point.2)
      (fun point => Stops (fun _ => false) point.1)
      (fun rd point => rd.fileCluster = point.1 ∧ rd.st = point.2) (cluster, st) ?_ ?_ ⟨rfl, rfl⟩
    · rintro rd ⟨_, _⟩ ⟨rfl, rfl⟩ (ended | decided)
      · exact ⟨(rd.out, rd.st), if_pos ended⟩
      · cases decided
    · rintro rd ⟨_, _⟩ ⟨rfl, rfl⟩ going
      refine ⟨_, if_neg (not_or.mp going).1, rfl, rfl⟩

/-- The search of `fat_read_file`, `fat_write_data`, `fat_rename_file` and
`fat_delete_file` tests the link behind each cluster. -/
theorem locateLoop_isSome_iff (clean : st.fatCacheDirty = false) (name : CString) (cluster : Nat) :
    (∃ fuel, (loop (locateTurn name) fuel (cluster, st)).isSome = true) ↔
      ∃ count, (findInCluster (Sector.slotMatches name) st (followed cluster st count).1).isSome = true ∨
        endOfChain ≤ (followed cluster st (count + 1)).1 := by
  refine (loop_isSome_iff (fun point => fatNextCluster point.1 point.2)
    (fun point => (findInCluster (Sector.slotMatches name) st point.1).isSome = true ∨
      endOfChain ≤ (fatNextCluster point.1 point.2).1)
    (fun state point => state = point ∧ Loaded st point.2) (cluster, st)
    ?stop ?follow ⟨rfl, .refl clean⟩).trans ?same
  case same =>
    constructor
    · rintro ⟨count, found | ended⟩
      · exact ⟨count, .inl found⟩
      · exact ⟨count, .inr (by rw [followed_last]; exact ended)⟩
    · rintro ⟨count, found | ended⟩
      · exact ⟨count, .inl found⟩
      · rw [followed_last] at ended
        exact ⟨count, .inr ended⟩
  · rintro _ ⟨current, mid⟩ ⟨rfl, loaded⟩ stopped
    have same : findInCluster (Sector.slotMatches name) mid current =
        findInCluster (Sector.slotMatches name) st current := by
      rw [findInCluster, findInCluster, loaded.disk, loaded.kept.boot]
    rw [locateTurn, same]
    cases found : findInCluster (Sector.slotMatches name) st current with
    | some hit => exact ⟨_, rfl⟩
    | none =>
      rcases stopped with some | ended
      · rw [found] at some
        cases some
      · exact ⟨_, if_pos ended⟩
  · rintro _ ⟨current, mid⟩ ⟨rfl, loaded⟩ going
    obtain ⟨absent, inside⟩ := not_or.mp going
    have missing : findInCluster (Sector.slotMatches name) mid current = none := by
      rw [findInCluster, loaded.disk, loaded.kept.boot, ← findInCluster]
      exact Option.not_isSome_iff_eq_none.mp absent
    refine ⟨fatNextCluster current mid, ?_, rfl, loaded.next current⟩
    simp only [locateTurn, missing]
    exact if_neg inside

/-- Following the links comes to an end-of-chain value over different clusters. -/
def ReachesEnd (cluster : Nat) (st : FatState) : Prop :=
  ∃ count, endOfChain ≤ (followed cluster st count).1 ∧
    (∀ index < count, (followed cluster st index).1 < endOfChain) ∧
    ((List.range count).map (fun index => (followed cluster st index).1)).Nodup

/-- Below the end-of-chain values a cluster number determines its FAT entry. -/
theorem entry_place_inj (boot : FAT32BootSector) (small : cluster < endOfChain) (otherSmall : other < endOfChain)
    (sector : boot.fatSector cluster = boot.fatSector other) (index : entryIndex cluster = entryIndex other) :
    cluster = other := by
  rw [endOfChain] at small otherSmall
  rw [boot.fatSector_eq, boot.fatSector_eq, u32_of_lt (by omega), u32_of_lt (by omega)] at sector
  rw [entryIndex, entryIndex, u32_of_lt (by omega), u32_of_lt (by omega)] at index
  omega

/-- Two states that agree on the FAT entries of all clusters that are not yet freed. -/
structure AgreesBut (freed : List Nat) (st mid : FatState) : Prop where
  boot : mid.boot = st.boot
  nr : mid.cachedFatSectorNr = st.cachedFatSectorNr
  clean : st.fatCacheDirty = false
  cleanToo : mid.fatCacheDirty = false
  disk : ∀ cluster < endOfChain, cluster ∉ freed →
    fatEntry st.boot mid.disk cluster = fatEntry st.boot st.disk cluster
  buf : ∀ cluster < endOfChain, cluster ∉ freed → st.boot.fatSector cluster = st.cachedFatSectorNr →
    mid.cachedFatBuf.entry (entryIndex cluster) = st.cachedFatBuf.entry (entryIndex cluster)

/-- Reading a link keeps the agreement and gives the same link. -/
theorem AgreesBut.next (agrees : AgreesBut freed st mid) (small : cluster < endOfChain)
    (fresh : cluster ∉ freed) : (fatNextCluster cluster mid).1 = (fatNextCluster cluster st).1 ∧
      AgreesBut freed (fatNextCluster cluster st).2 (fatNextCluster cluster mid).2 := by
  obtain ⟨boot, nr, clean, cleanToo, disk, buf⟩ := agrees
  simp only [fatNextCluster, fatCacheEntry, fatCacheLoad, fatCacheFlush_clean clean,
    fatCacheFlush_clean cleanToo, boot, nr]
  split
  · have entry := disk cluster small fresh
    rw [fatEntry, fatEntry] at entry
    refine ⟨by rw [entry], ⟨rfl, rfl, clean, cleanToo, disk, ?_⟩⟩
    intro other otherSmall otherFresh same
    have entry := disk other otherSmall otherFresh
    rw [fatEntry, fatEntry, same] at entry
    exact entry
  · rename_i same
    have same := not_not.mp same
    exact ⟨by rw [buf cluster small fresh same], boot, nr, clean, cleanToo, disk, buf⟩

theorem AgreesBut.free (agrees : AgreesBut freed st mid) (small : cluster < endOfChain) :
    AgreesBut (cluster :: freed) st { mid with disk := setFatEntry mid.boot cluster 0 mid.disk } where
  boot := agrees.boot
  nr := agrees.nr
  clean := agrees.clean
  cleanToo := agrees.cleanToo
  disk other otherSmall fresh := by
    obtain ⟨different, fresh⟩ := not_or.mp (List.mem_cons.not.mp fresh)
    rw [← agrees.disk other otherSmall fresh, agrees.boot, fatEntry, fatEntry, setFatEntry]
    by_cases sector : st.boot.fatSector other = st.boot.fatSector cluster
    · rw [sector, ataReadSector_same _ _ rfl, Sector.entry_setEntry_other _ (entryIndex_lt other)]
      intro index
      exact different (entry_place_inj st.boot otherSmall small sector index)
    · rw [ataReadSector_other _ _ (by rw [st.boot.ataLba_fatSector, st.boot.ataLba_fatSector]; exact sector)]
  buf other otherSmall fresh := agrees.buf other otherSmall (not_or.mp (List.mem_cons.not.mp fresh)).2

/-- The freeing loop visits the clusters the links led to before it began. -/
theorem freeLoop_ends (agrees : AgreesBut freed st mid) (count : Nat)
    (ended : endOfChain ≤ (followed cluster st count).1)
    (inside : ∀ index < count, (followed cluster st index).1 < endOfChain)
    (distinct : ((List.range count).map (fun index => (followed cluster st index).1)).Nodup)
    (fresh : ∀ index < count, (followed cluster st index).1 ∉ freed) :
    ∃ fuel, (loop freeTurn fuel (cluster, mid)).isSome = true := by
  induction count generalizing cluster st mid freed with
  | zero =>
    have leave : freeTurn (cluster, mid) = .leave mid := if_pos ended
    exact ⟨1, by rw [loop_leave leave]; rfl⟩
  | succ count ih =>
    have small := inside 0 (Nat.succ_pos count)
    have unfreed := fresh 0 (Nat.succ_pos count)
    change cluster < endOfChain at small
    change cluster ∉ freed at unfreed
    obtain ⟨link, next⟩ := agrees.next small unfreed
    have boot := (fatNextCluster_kept cluster mid).boot
    have turn : freeTurn (cluster, mid) = .again ((fatNextCluster cluster st).1,
        { (fatNextCluster cluster mid).2 with
          disk := setFatEntry (fatNextCluster cluster mid).2.boot cluster 0 (fatNextCluster cluster mid).2.disk }) := by
      rw [← link]
      exact if_neg (Nat.not_le.mpr small)
    have tail := followed_succ cluster st
    rw [List.range_succ_eq_map, List.map_cons, List.nodup_cons, List.map_map] at distinct
    obtain ⟨fuel, finished⟩ := ih (next.free small) (by rw [← tail]; exact ended)
      (fun index below => by rw [← tail]; exact inside (index + 1) (by omega))
      (by simpa only [Function.comp_def, Nat.succ_eq_add_one, tail] using distinct.2) (by
        intro index below
        rw [← tail]
        refine List.not_mem_cons_of_ne_of_not_mem (fun same => distinct.1 ?_) (fresh (index + 1) (by omega))
        exact List.mem_map.mpr ⟨index, List.mem_range.mpr below, same⟩)
    exact ⟨fuel + 1, by rw [loop_again turn]; exact finished⟩

theorem fatCachePut_flushed (index value : Nat) (st : FatState) :
    Coherent (fatCacheFlush (fatCachePut index value st)) where
  clean := rfl
  current _ := (ataReadSector_same _ _ rfl).symm

/-- Extending a chain behind any cluster number, over any clean cache. -/
theorem fatExtendChain_outcome (clean : st.fatCacheDirty = false) (prevCluster : Nat) :
    (fatExtendChain prevCluster st).1 = 0x0FFFFFFF ∨
      (st.boot.DataCluster (fatExtendChain prevCluster st).1 ∧ Coherent (fatExtendChain prevCluster st).2) := by
  simp only [fatExtendChain]
  rcases extendScan_clean (.refl clean) st.boot.scanLength 2 with
    ⟨absent, _⟩ | ⟨n, mid, low, high, _, _, _, found⟩
  · rw [absent]
    exact .inl rfl
  · rw [found]
    have bound := @scanLength_le st.boot
    have data : st.boot.DataCluster n := ⟨low, by omega⟩
    exact .inr ⟨data, fatCachePut_flushed _ _ _⟩

/-- An extension takes a free cluster and frees none. -/
theorem extendedDisk_fewer (wf : boot.WellFormed) (prevInRange : prevCluster < boot.totalClusters + 2)
    (data : boot.DataCluster n) (disk : Disk) :
    freeClusters boot (extendedDisk boot prevCluster n disk) ⊆ (freeClusters boot disk).erase n := by
  intro cluster member
  obtain ⟨inData, zero⟩ := mem_freeClusters.mp member
  change fatEntry boot (linkedDisk boot prevCluster n (setFatEntry boot n 0x0FFFFFFF disk)) cluster = 0 at zero
  rw [fatEntry_linkedDisk wf prevInRange data _ inData.2] at zero
  split at zero
  · have low := data.1
    omega
  · rw [fatEntry_setFatEntry wf disk data.2 inData.2 (by decide)] at zero
    split at zero
    · cases zero
    · rename_i different
      exact Finset.mem_erase.mpr ⟨different, mem_freeClusters.mpr ⟨inData, zero⟩⟩

/-- The writing loop ends from every data cluster: each turn takes a free cluster. -/
theorem writeLoop_ends (wf : st.boot.WellFormed) (coherent : Coherent st)
    (data : st.boot.DataCluster current) (buf : Bytes) (size offset turns : Nat)
    (room : (freeClusters st.boot st.disk).card < turns) :
    ∃ fuel, (loop (writeTurn buf size) fuel ⟨current, offset, st⟩).isSome = true := by
  induction turns generalizing st current offset with
  | zero => exact absurd room (Nat.not_lt_zero _)
  | succ turns ih =>
    have free : freeClusters st.boot (writtenDisk st.boot buf size offset current st.disk) =
        freeClusters st.boot st.disk := freeClusters_writtenDisk wf buf st.disk data
    have small := data_lt_endOfChain wf data
    rcases writeTurn_cases buf size offset small st with leave | ⟨offset', again⟩
    · exact ⟨1, by rw [loop_leave leave]; rfl⟩
    · have rewritten := coherent.rewrite (writtenDisk st.boot buf size offset current st.disk)
        (writtenDisk_offFat wf buf st.disk data)
      have direct := fatExtendChain_direct rewritten wf.layout data.2
      have kept := fatExtendChain_kept current
        { st with disk := writtenDisk st.boot buf size offset current st.disk }
      generalize fatExtendChain current
        { st with disk := writtenDisk st.boot buf size offset current st.disk } = extended
        at again direct kept
      obtain ⟨n, mid⟩ := extended
      obtain ⟨value, disk, after⟩ := direct
      have boot : mid.boot = st.boot := kept.boot
      simp only [directExtend] at value disk
      cases found : firstFree st.boot (writtenDisk st.boot buf size offset current st.disk)
          st.boot.scanLength 2 with
      | none =>
        rw [found] at value
        change n = 0x0FFFFFFF at value
        have leave := writeTurn_end buf size offset' (by rw [value]; decide : endOfChain ≤ n) mid
        exact ⟨2, by rw [loop_again again, loop_leave leave]; rfl⟩
      | some cluster =>
        rw [found] at value disk
        obtain ⟨low, high, zero⟩ := firstFree_some found
        have bound := @scanLength_le st.boot
        have newData : st.boot.DataCluster cluster := ⟨low, by omega⟩
        have fewer := Finset.card_le_card (extendedDisk_fewer wf data.2 newData
          (writtenDisk st.boot buf size offset current st.disk))
        have member := mem_freeClusters.mpr ⟨newData, zero⟩
        have some := Finset.card_pos.mpr ⟨cluster, member⟩
        rw [Finset.card_erase_of_mem member, free] at fewer
        rw [free] at some
        change mid.disk = extendedDisk st.boot current cluster _ at disk
        have next := @ih mid cluster (by rw [boot]; exact wf) after (by rw [boot]; exact newData) offset'
          (by rw [boot, disk]; omega)
        obtain ⟨fuel, finished⟩ := next
        change n = cluster at value
        exact ⟨fuel + 1, by rw [loop_again again, value]; exact finished⟩

/-- From any cluster number and over any clean cache one turn leads to a data cluster. -/
theorem writeLoop_ends_anywhere (wf : st.boot.WellFormed) (clean : st.fatCacheDirty = false) (cluster : Nat)
    (buf : Bytes) (size offset : Nat) :
    ∃ fuel, (loop (writeTurn buf size) fuel ⟨cluster, offset, st⟩).isSome = true := by
  rcases Nat.lt_or_ge cluster endOfChain with small | ended
  · rcases writeTurn_cases buf size offset small st with leave | ⟨offset', again⟩
    · exact ⟨1, by rw [loop_leave leave]; rfl⟩
    · have outcome := @fatExtendChain_outcome
        { st with disk := writtenDisk st.boot buf size offset cluster st.disk } clean cluster
      have kept := fatExtendChain_kept cluster
        { st with disk := writtenDisk st.boot buf size offset cluster st.disk }
      generalize fatExtendChain cluster
        { st with disk := writtenDisk st.boot buf size offset cluster st.disk } = extended
        at again outcome kept
      obtain ⟨n, mid⟩ := extended
      have boot : mid.boot = st.boot := kept.boot
      rcases outcome with full | ⟨data, coherent⟩
      · change n = 0x0FFFFFFF at full
        have leave := writeTurn_end buf size offset' (by rw [full]; decide : endOfChain ≤ n) mid
        exact ⟨2, by rw [loop_again again, loop_leave leave]; rfl⟩
      · obtain ⟨fuel, finished⟩ := @writeLoop_ends mid n (by rw [boot]; exact wf) coherent
          (by rw [boot]; exact data) buf size offset' _ (Nat.lt_succ_self _)
        exact ⟨fuel + 1, by rw [loop_again again]; exact finished⟩
  · exact ⟨1, by rw [loop_leave (writeTurn_end buf size offset ended st)]; rfl⟩

/-- Where the walks end: those that only read, exactly when the links come to an
end-of-chain value or to a cluster that decides them; the freeing walk of
`fat_delete_file`, when they come to an end-of-chain value over different clusters;
the writing loop of `fat_write_data`, always. -/
theorem walks_end {st : FatState} (wf : st.boot.WellFormed) (clean : st.fatCacheDirty = false)
    (cluster : Nat) :
    (∀ walk : DiskWalk, walk.Ends cluster st ↔ ∃ count,
      Stops (fun current => walk.decides st.boot st.disk current) (followed cluster st count).1) ∧
    (∀ name, (∃ fuel, (loop (locateTurn name) fuel (cluster, st)).isSome = true) ↔
      ∃ count, (findInCluster (Sector.slotMatches name) st (followed cluster st count).1).isSome = true ∨
        endOfChain ≤ (followed cluster st (count + 1)).1) ∧
    (ReachesEnd cluster st → ∃ fuel, (loop freeTurn fuel (cluster, st)).isSome = true) ∧
    ∀ buf size offset, ∃ fuel, (loop (writeTurn buf size) fuel ⟨cluster, offset, st⟩).isSome = true := by
  refine ⟨fun walk => walk.ends_iff clean cluster, fun name => locateLoop_isSome_iff clean name cluster, ?_,
    fun buf size offset => writeLoop_ends_anywhere wf clean cluster buf size offset⟩
  rintro ⟨count, ended, inside, distinct⟩
  have agrees : AgreesBut [] st st := ⟨rfl, rfl, clean, clean, fun _ _ _ => rfl, fun _ _ _ _ => rfl⟩
  exact freeLoop_ends agrees count ended inside distinct (fun _ _ => List.not_mem_nil)

theorem walks_end_oneFile :
    (∀ walk : DiskWalk, walk.Ends 2 (mounted oneFileVolume) ↔ ∃ count,
      Stops (fun current => walk.decides (mounted oneFileVolume).boot (mounted oneFileVolume).disk current)
        (followed 2 (mounted oneFileVolume) count).1) ∧
    (∀ name, (∃ fuel, (loop (locateTurn name) fuel (2, mounted oneFileVolume)).isSome = true) ↔
      ∃ count, (findInCluster (Sector.slotMatches name) (mounted oneFileVolume)
          (followed 2 (mounted oneFileVolume) count).1).isSome = true ∨
        endOfChain ≤ (followed 2 (mounted oneFileVolume) (count + 1)).1) ∧
    (ReachesEnd 2 (mounted oneFileVolume) →
      ∃ fuel, (loop freeTurn fuel (2, mounted oneFileVolume)).isSome = true) ∧
    ∀ buf size offset, ∃ fuel,
      (loop (writeTurn buf size) fuel ⟨2, offset, mounted oneFileVolume⟩).isSome = true := by
  have boot : (mounted oneFileVolume).boot = sampleBoot := (mounted_image _ _ _).1
  exact walks_end (by rw [boot]; exact sampleBoot_wellFormed) rfl 2

/-- A root directory that is linked to itself and has neither an end mark nor a
free slot. -/
def cyclicVolume : Disk :=
  image sampleBoot (assigned 0 [(0, 0x0FFFFFF8), (1, 0x0FFFFFFF), (2, 2)]) (fun _ _ _ => 0x42)

theorem cyclicVolume_followed (coherent : Coherent st) (boot : st.boot = sampleBoot)
    (disk : st.disk = cyclicVolume) (count : Nat) : (followed 2 st count).1 = 2 := by
  have loaded := followed_clean coherent.clean 2 count
  induction count with
  | zero => rfl
  | succ count ih =>
    have before := followed_clean coherent.clean 2 count
    have here := ih before
    have direct := @fatNextCluster_direct (followed 2 st count).2 2 (coherent.loaded before)
      (by rw [before.kept.boot, boot]; exact sampleBoot_wellFormed.layout)
      (by rw [before.kept.boot, boot]; decide)
    rw [followed_last, here, direct, before.kept.boot, before.disk, boot, disk]
    decide +kernel

theorem cyclicVolume_walk (st : FatState) (coherent : Coherent st) (boot : st.boot = sampleBoot)
    (disk : st.disk = cyclicVolume) (root : cluster = 2) (walk : DiskWalk)
    (undecided : walk.decides sampleBoot cyclicVolume 2 = false) : ¬ walk.Ends cluster st := by
  rw [root, walk.ends_iff coherent.clean]
  rintro ⟨count, stopped⟩
  rw [cyclicVolume_followed coherent boot disk, boot, disk] at stopped
  rcases stopped with ended | decided
  · exact absurd ended (by decide)
  · exact absurd (undecided.symm.trans decided) Bool.false_ne_true

theorem cyclicVolume_locate (fuel : Nat) : locate fuel [0x41] (mounted cyclicVolume) = none := by
  have boot : (mounted cyclicVolume).boot = sampleBoot := (mounted_image _ _ _).1
  have disk : (mounted cyclicVolume).disk = cyclicVolume := (mounted_image _ _ _).2.2
  by_contra finished
  obtain ⟨count, stopped⟩ := (locateLoop_isSome_iff rfl [0x41] 2).mp
    ⟨fuel, Option.isSome_iff_ne_none.mpr finished⟩
  rw [cyclicVolume_followed (mounted_coherent _) boot disk,
    cyclicVolume_followed (mounted_coherent _) boot disk] at stopped
  rcases stopped with found | ended
  · exact absurd found (by decide +kernel)
  · exact absurd ended (by decide)

theorem fatCreateDir_stuck (stuck : ∀ console,
    loop (dirDuplicateTurn name) fuel (st.cwdCluster, { st with console := console }) = none) :
    fatCreateDir fuel name st = none := by
  rw [fatCreateDir, stuck]

/-- On this volume none of the calls returns. -/
theorem cyclicVolume_hangs :
    (mounted cyclicVolume).boot.WellFormed ∧ ∀ fuel,
      fatListDir fuel (mounted cyclicVolume) = none ∧
      fatWriteFile fuel [0x41] [] (mounted cyclicVolume) = none ∧
      fatCreateDir fuel [0x41] (mounted cyclicVolume) = none ∧
      fatOpenDir fuel [0x41] (mounted cyclicVolume) = none ∧
      fatDeleteFile fuel [0x41] (mounted cyclicVolume) = none ∧
      fatRenameFile fuel [0x41] [0x43] (mounted cyclicVolume) = none ∧
      fatReadFile fuel [0x41] (fun _ => 0) (mounted cyclicVolume) = none ∧
      fatWriteData fuel [0x41] (fun _ => 0) 5 (mounted cyclicVolume) = none := by
  have boot : (mounted cyclicVolume).boot = sampleBoot := (mounted_image _ _ _).1
  have disk : (mounted cyclicVolume).disk = cyclicVolume := (mounted_image _ _ _).2.2
  have root : (mounted cyclicVolume).cwdCluster = 2 := (mounted_image _ _ _).2.1
  have coherent := mounted_coherent cyclicVolume
  have never : ∀ {ρ} {result : Nat → Option ρ}, (¬ ∃ fuel, (result fuel).isSome = true) → ∀ fuel, result fuel = none :=
    fun endless fuel => Option.not_isSome_iff_eq_none.mp (fun finished => endless ⟨fuel, finished⟩)
  refine ⟨by rw [boot]; exact sampleBoot_wellFormed, fun fuel => ⟨?_, ?_, ?_, ?_, ?_, ?_, ?_, ?_⟩⟩
  · exact never (cyclicVolume_walk _ coherent boot disk root .list (by decide +kernel)) fuel
  · rw [fatWriteFile,
      never (cyclicVolume_walk _ coherent boot disk root (.fileDuplicate [0x41]) (by decide +kernel)) fuel]
  · have endless : ∀ console, ¬ DiskWalk.Ends (mounted cyclicVolume).cwdCluster
        { mounted cyclicVolume with console := console } (.dirDuplicate [0x41]) := fun console =>
      cyclicVolume_walk { mounted cyclicVolume with console := console }
        ⟨coherent.clean, coherent.current⟩ boot disk root _ (by decide +kernel)
    exact fatCreateDir_stuck (fun console => never (endless console) fuel)
  · rw [fatOpenDir,
      never (cyclicVolume_walk _ coherent boot disk root (.openDir [0x41]) (by decide +kernel)) fuel]
  · rw [fatDeleteFile, cyclicVolume_locate]
  · rw [fatRenameFile, cyclicVolume_locate]
  · rw [fatReadFile, cyclicVolume_locate]
  · rw [fatWriteData, cyclicVolume_locate]

end LivlyOS.Fs
