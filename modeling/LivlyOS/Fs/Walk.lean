import LivlyOS.Fs.Lookup
import LivlyOS.Fs.Operations
import LivlyOS.Fs.VisibleRoom
import Mathlib.Logic.Relation

namespace LivlyOS.Fs

open LivlyOS.Lib

variable (boot : FAT32BootSector) (disk : Disk)

/-- The clusters a walk along the FAT links gets to. -/
def Reach : Nat → Nat → Prop :=
  Relation.ReflTransGen (fun cluster successor => nextOf boot disk cluster = some successor)

/-- A walk from here only meets FAT entries that exist and are taken. -/
def Walkable (first : Nat) : Prop :=
  ∀ cluster, Reach boot disk first cluster →
    cluster < boot.totalClusters + 2 ∧ fatEntry boot disk cluster ≠ 0

inductive Outcome where
  | found (cluster : Nat) (hit : Hit)
  | absent (last : Nat)

/-- The outcome of a search for the first wanted slot from a cluster on. -/
inductive Search (wanted : Sector → Nat → Bool) : Nat → Outcome → Prop where
  | here (found : findInSectors wanted disk (boot.clusterSector cluster) boot.spc 0 = some hit) :
      Search wanted cluster (.found cluster hit)
  | last (missing : findInSectors wanted disk (boot.clusterSector cluster) boot.spc 0 = none)
      (stop : nextOf boot disk cluster = none) : Search wanted cluster (.absent cluster)
  | next (missing : findInSectors wanted disk (boot.clusterSector cluster) boot.spc 0 = none)
      (step : nextOf boot disk cluster = some successor) (rest : Search wanted successor outcome) :
      Search wanted cluster outcome

variable {boot disk}

theorem Walkable.next (walkable : Walkable boot disk first)
    (step : nextOf boot disk first = some successor) : Walkable boot disk successor :=
  fun cluster reach => walkable cluster (.head step reach)

theorem FatChain.reach_mem (chain : FatChain boot disk first clusters)
    (reach : Reach boot disk first cluster) : cluster ∈ clusters := by
  induction reach with
  | refl => exact chain.chain.first_mem
  | @tail mid successor _ step ih =>
    obtain ⟨before, after, whole, tail⟩ := chain.chain.split ih
    cases tail with
    | last stop => simp [stop] at step
    | link other rest =>
      have same := Option.some.inj (other.symm.trans step)
      subst same
      rw [whole]
      simp [rest.first_mem]

theorem FatChain.walkable (chain : FatChain boot disk first clusters) : Walkable boot disk first :=
  fun _ reach => ⟨(chain.data _ (chain.reach_mem reach)).2, chain.entry_ne_zero (chain.reach_mem reach)⟩

theorem Search.found_reach (search : Search boot disk wanted first (.found cluster hit)) :
    Reach boot disk first cluster ∧
      findInSectors wanted disk (boot.clusterSector cluster) boot.spc 0 = some hit := by
  generalize whole : Outcome.found cluster hit = outcome at search
  induction search with
  | here found =>
    cases whole
    exact ⟨.refl, found⟩
  | last _ _ => cases whole
  | next _ step _ ih =>
    obtain ⟨reach, found⟩ := ih whole
    exact ⟨.head step reach, found⟩

theorem Search.absent_reach (search : Search boot disk wanted first (.absent final)) :
    Reach boot disk first final ∧ nextOf boot disk final = none := by
  generalize whole : Outcome.absent final = outcome at search
  induction search with
  | here _ => cases whole
  | last _ stop =>
    cases whole
    exact ⟨.refl, stop⟩
  | next _ step _ ih =>
    obtain ⟨reach, stop⟩ := ih whole
    exact ⟨.head step reach, stop⟩

theorem Search.unique (left : Search boot disk wanted first outcome)
    (right : Search boot disk wanted first outcome') : outcome = outcome' := by
  induction left with
  | here found =>
    cases right with
    | here other =>
      rw [Option.some.inj (found.symm.trans other)]
    | last missing _ => simp [found] at missing
    | next missing _ _ => simp [found] at missing
  | last missing stop =>
    cases right with
    | here other => simp [missing] at other
    | last _ _ => rfl
    | next _ step _ => simp [stop] at step
  | next missing step _ ih =>
    cases right with
    | here other => simp [missing] at other
    | last _ stop => simp [stop] at step
    | next _ other rest =>
      have same := Option.some.inj (step.symm.trans other)
      subst same
      exact ih rest

theorem Search.place (search : Search boot disk wanted first (.found cluster hit)) :
    ∃ s < boot.spc, hit.lba = boot.clusterLba cluster s ∧ hit.buf = clusterData boot disk cluster s ∧
      findInSector wanted hit.buf = some hit.slot := by
  obtain ⟨s, _, inside, lba, buf, found⟩ := findInSectors_some search.found_reach.2
  refine ⟨s, by omega, lba, ?_, found⟩
  rw [buf, lba]
  rfl

theorem Walkable.follow (walkable : Walkable st.boot st.disk cluster) (lagging : Lagging st) :
    (endOfChain ≤ (fatNextCluster cluster st).1 ∧ nextOf st.boot st.disk cluster = none) ∨
      ((fatNextCluster cluster st).1 < endOfChain ∧
        nextOf st.boot st.disk cluster = some (fatNextCluster cluster st).1) := by
  obtain ⟨inRange, used⟩ := walkable cluster .refl
  rw [lagging.read inRange used, nextOf]
  split
  · rename_i ended
    exact .inl ⟨ended, rfl⟩
  · rename_i going
    exact .inr ⟨by omega, rfl⟩

/-- What `locate` reports of a search. -/
def Outcome.hit : Outcome → Option Hit
  | .found _ hit => some hit
  | .absent _ => none

theorem locateLoop_search (lagging : Lagging st) (walkable : Walkable st.boot st.disk current)
    (finished : loop (locateTurn name) fuel (current, st) = some (found, st')) :
    Loaded st st' ∧ ∃ outcome, Search st.boot st.disk (Sector.slotMatches name) current outcome ∧
      found = outcome.hit := by
  induction fuel generalizing st current with
  | zero => simp [loop] at finished
  | succ fuel ih =>
    have loaded := (Loaded.refl lagging.clean).next current
    simp only [loop, locateTurn, findInCluster] at finished
    cases here : findInSectors (Sector.slotMatches name) st.disk (st.boot.clusterSector current)
      st.boot.spc 0 with
    | some hit =>
      simp only [here, Option.some.injEq, Prod.mk.injEq] at finished
      obtain ⟨rfl, rfl⟩ := finished
      exact ⟨.refl lagging.clean, _, .here here, rfl⟩
    | none =>
      rcases walkable.follow lagging with ⟨ended, stop⟩ | ⟨going, step⟩
      · simp only [here, ended, ↓reduceIte, Option.some.injEq, Prod.mk.injEq] at finished
        obtain ⟨rfl, rfl⟩ := finished
        exact ⟨loaded, _, .last here stop, rfl⟩
      · simp only [here, Nat.not_le.mpr going, ↓reduceIte] at finished
        obtain ⟨loaded', outcome, search, same⟩ := ih (lagging.loaded loaded)
          (by rw [loaded.kept.boot, loaded.disk]; exact walkable.next step) finished
        rw [loaded.kept.boot, loaded.disk] at search
        exact ⟨loaded.trans loaded', outcome, .next here step search, same⟩

theorem locate_found (lagging : Lagging st) (walkable : Walkable st.boot st.disk st.cwdCluster)
    (located : locate fuel name st = some (some hit, mid)) :
    Loaded st mid ∧ ∃ cluster, Search st.boot st.disk (Sector.slotMatches name) st.cwdCluster (.found cluster hit) := by
  obtain ⟨loaded, outcome, search, same⟩ := locateLoop_search lagging walkable located
  cases outcome with
  | found cluster hit =>
    cases same
    exact ⟨loaded, cluster, search⟩
  | absent final => cases same

/-- Without a hit the walk ends in a last cluster. -/
theorem locate_absent (lagging : Lagging st) (walkable : Walkable st.boot st.disk st.cwdCluster)
    (located : locate fuel name st = some (none, mid)) :
    Loaded st mid ∧ ∃ final, Search st.boot st.disk (Sector.slotMatches name) st.cwdCluster (.absent final) := by
  obtain ⟨loaded, outcome, search, same⟩ := locateLoop_search lagging walkable located
  cases outcome with
  | found cluster hit => cases same
  | absent final => exact ⟨loaded, final, search⟩

/-- How the slot search of `fat_write_file` and `fat_create_dir` ends. -/
inductive Placement (fill : Nat → Hit → FatState → CreateExit × FatState) (st : FatState) :
    Outcome → CreateExit × FatState → Prop where
  | found (loaded : Loaded st mid) : Placement fill st (.found cluster hit) (fill cluster hit mid)
  | full (loaded : Loaded st st') (none : visibleFree st = ∅) :
      Placement fill st (.absent final) (.full, st')
  | extended (coherent : Coherent mid) (kept : Kept st mid)
      (step : Extends st.boot st.disk mid.disk final n)
      (left : (visibleFree st).erase n ⊆ freeClusters st.boot mid.disk) :
      Placement fill st (.absent final) (fill n ⟨st.boot.clusterLba n 0, Sector.zero, 0⟩ mid)

theorem Placement.loaded (loaded : Loaded st mid) (placed : Placement fill mid outcome result) :
    Placement fill st outcome result := by
  have boot := loaded.kept.boot
  have disk := loaded.disk
  cases placed with
  | found other => exact .found (loaded.trans other)
  | full other none => exact .full (loaded.trans other) (Finset.subset_empty.mp (none ▸ loaded.visibleFree))
  | extended coherent kept step left =>
    rw [boot, disk] at step
    rw [boot] at left ⊢
    exact .extended coherent (loaded.kept.trans kept) step
      ((Finset.erase_subset_erase _ loaded.visibleFree).trans left)

theorem findInCluster_zeroed (st : FatState) (n : Nat) (spc : 1 ≤ st.boot.spc)
    (zeroed : ∀ s < st.boot.spc, clusterData st.boot st.disk n s = Sector.zero) :
    findInCluster Sector.slotFree st n = some ⟨st.boot.clusterLba n 0, Sector.zero, 0⟩ := by
  obtain ⟨count, whole⟩ : ∃ count, st.boot.spc = count + 1 := ⟨st.boot.spc - 1, by omega⟩
  have first := zeroed 0 spc
  rw [clusterData, FAT32BootSector.clusterLba] at first
  have free : findInSector Sector.slotFree Sector.zero = some 0 := by
    simp [findInSector, List.range_succ_eq_map, Sector.zero_slotFree]
  rw [findInCluster, whole]
  simp only [findInSectors, first, free]
  rfl

/-- The search behind the last cluster of the directory. -/
theorem placeLoop_extend (wf : st.boot.WellFormed) (lagging : Lagging st)
    (inRange : final < st.boot.totalClusters + 2) (used : fatEntry st.boot st.disk final ≠ 0)
    (finished : (if endOfChain ≤ (fatExtendChain final st).1 then
        some (CreateExit.full, (fatExtendChain final st).2.kprintf fullText)
      else loop (placeTurn fill fullText) fuel (fatExtendChain final st)) = some result) :
    Placement fill st (.absent final) result := by
  have kept := fatExtendChain_kept final st
  rcases fatExtendChain_lagging lagging wf inRange used with ⟨failed, loaded⟩ | ⟨coherent, step⟩
  · have ended : endOfChain ≤ (fatExtendChain final st).1 := by
      rw [failed]
      decide
    simp only [ended, ↓reduceIte, Option.some.injEq] at finished
    rw [← finished]
    refine .full (loaded.kprintf fullText) (Finset.not_nonempty_iff_eq_empty.mp fun room => ?_)
    have small := data_lt_endOfChain wf (fatExtendChain_visible lagging wf inRange used room).2.1.data
    omega
  · have going := data_lt_endOfChain wf step.data
    simp only [Nat.not_le.mpr going, ↓reduceIte] at finished
    have zeroed := findInCluster_zeroed (fatExtendChain final st).2 (fatExtendChain final st).1
      (by rw [kept.boot]; exact wf.spc_pos) (by rw [kept.boot]; exact step.zeroed)
    cases fuel with
    | zero => simp [loop] at finished
    | succ fuel =>
      simp only [loop, placeTurn, zeroed, Option.some.injEq] at finished
      rw [← finished, kept.boot]
      refine .extended coherent kept step ?_
      rcases (visibleFree st).eq_empty_or_nonempty with none | room
      · rw [none, Finset.erase_empty]
        exact Finset.empty_subset _
      · exact (fatExtendChain_visible lagging wf inRange used room).2.2

theorem placeLoop_search (wf : st.boot.WellFormed) (lagging : Lagging st)
    (walkable : Walkable st.boot st.disk current)
    (finished : loop (placeTurn fill fullText) fuel (current, st) = some result) :
    ∃ outcome, Search st.boot st.disk Sector.slotFree current outcome ∧
      Placement fill st outcome result := by
  induction fuel generalizing st current with
  | zero => simp [loop] at finished
  | succ fuel ih =>
    have loaded := (Loaded.refl lagging.clean).next current
    cases here : findInCluster Sector.slotFree st current with
    | some hit =>
      simp only [loop, placeTurn, here, Option.some.injEq] at finished
      rw [← finished]
      exact ⟨_, .here here, .found (.refl lagging.clean)⟩
    | none =>
      rcases walkable.follow lagging with ⟨ended, stop⟩ | ⟨going, step⟩
      · obtain ⟨inRange, used⟩ := walkable current .refl
        have extending : (if endOfChain ≤ (fatExtendChain current (fatNextCluster current st).2).1 then
            some (CreateExit.full,
              (fatExtendChain current (fatNextCluster current st).2).2.kprintf fullText)
          else loop (placeTurn fill fullText) fuel
            (fatExtendChain current (fatNextCluster current st).2)) = some result := by
          by_cases full : endOfChain ≤ (fatExtendChain current (fatNextCluster current st).2).1
          · simp only [loop, placeTurn, here, ended, full, ↓reduceIte] at finished ⊢
            exact finished
          · simp only [loop, placeTurn, here, ended, full, ↓reduceIte] at finished ⊢
            exact finished
        have placed := placeLoop_extend (by rw [loaded.kept.boot]; exact wf) (lagging.loaded loaded)
          (by rw [loaded.kept.boot]; exact inRange)
          (by rw [loaded.kept.boot, loaded.disk]; exact used) extending
        exact ⟨_, .last here stop, placed.loaded loaded⟩
      · simp only [loop, placeTurn, here, Nat.not_le.mpr going, ↓reduceIte] at finished
        obtain ⟨outcome, search, placed⟩ := ih (by rw [loaded.kept.boot]; exact wf)
          (lagging.loaded loaded)
          (by rw [loaded.kept.boot, loaded.disk]; exact walkable.next step) finished
        rw [loaded.kept.boot, loaded.disk] at search
        exact ⟨outcome, .next here step search, placed.loaded loaded⟩

theorem fileDuplicate_loaded (clean : st.fatCacheDirty = false)
    (finished : loop (fileDuplicateTurn name) fuel (chk, st) = some result) : Loaded st result.2 := by
  refine loop_ends (fun p => Loaded st p.2) (fun result => Loaded st result.2) ?_ (.refl clean) finished
  rintro ⟨current, mid⟩ loaded
  rw [fileDuplicateTurn]
  split
  · exact loaded
  · split
    · exact loaded
    · exact loaded.next current

theorem dirDuplicate_loaded (clean : st.fatCacheDirty = false)
    (finished : loop (dirDuplicateTurn name) fuel (chk, st) = some result) : Loaded st result.2 := by
  refine loop_ends (fun p => Loaded st p.2) (fun result => Loaded st result.2) ?_ (.refl clean) finished
  rintro ⟨current, mid⟩ loaded
  rw [dirDuplicateTurn]
  split
  · exact loaded
  · split
    · exact loaded
    · exact loaded
    · exact loaded.next current

theorem locate_loaded (clean : st.fatCacheDirty = false)
    (finished : locate fuel name st = some result) : Loaded st result.2 := by
  refine loop_ends (fun p => Loaded st p.2) (fun result => Loaded st result.2) ?_ (.refl clean) finished
  rintro ⟨current, mid⟩ loaded
  rw [locateTurn]
  split
  · exact loaded
  · dsimp only
    split
    · exact loaded.next current
    · exact loaded.next current

theorem fatListDir_loaded (clean : st.fatCacheDirty = false)
    (finished : fatListDir fuel st = some st') : Loaded st st' := by
  refine loop_ends (fun p => Loaded st p.2) (Loaded st) ?_ (.refl clean) finished
  rintro ⟨current, mid⟩ loaded
  rw [listTurn]
  split
  · exact loaded
  · dsimp only
    split
    · exact loaded.printed _
    · exact (loaded.printed _).next current

/-- `fat_open_dir` keeps the state its search ends in, or prints there. -/
theorem fatOpenDir_cases (finished : fatOpenDir fuel name st = some st') :
    ∃ found mid, loop (openTurn name) fuel (st.cwdCluster, st) = some (found, mid) ∧
      (st' = mid ∨ ∃ text, st' = mid.kprintf text) := by
  rw [fatOpenDir] at finished
  split at finished
  · cases finished
  · rename_i mid looped
    exact ⟨true, mid, looped, .inl (Option.some.inj finished).symm⟩
  · rename_i mid looped
    exact ⟨false, mid, looped, .inr ⟨_, (Option.some.inj finished).symm⟩⟩

/-- `fat_cd_back` prints in the root, and goes to the cluster in the second slot elsewhere. -/
theorem fatCdBack_cases (finished : fatCdBack fuel st = some st') :
    (∃ text, st' = st.kprintf text) ∨
      st.cwdCluster ≠ st.boot.rootCluster.toNat ∧ ∃ parent path,
        parent = (ataReadSector st.disk (st.boot.clusterSector st.cwdCluster)).slotCluster 1 ∧
        st' = { st with
          cwdCluster := if parent = 0 then st.boot.rootCluster.toNat else parent
          cwdPath := path } := by
  rw [fatCdBack] at finished
  split at finished
  · exact .inl ⟨_, (Option.some.inj finished).symm⟩
  · rename_i below
    dsimp only at finished
    split at finished
    · cases finished
    · exact .inr ⟨below, _, _, rfl, (Option.some.inj finished).symm⟩

theorem fatRenameFile_cases (finished : fatRenameFile fuel name newName st = some st') :
    (∃ mid text, locate fuel name st = some (none, mid) ∧ st' = mid.kprintf text) ∨
      ∃ hit mid, locate fuel name st = some (some hit, mid) ∧
        st' = { mid with disk := ataWriteSector mid.disk hit.lba (hit.buf.setName hit.slot newName) } := by
  rw [fatRenameFile] at finished
  split at finished
  · cases finished
  · rename_i mid located
    exact .inl ⟨mid, _, located, (Option.some.inj finished).symm⟩
  · rename_i hit mid located
    exact .inr ⟨hit, mid, located, (Option.some.inj finished).symm⟩

theorem fatDeleteFile_cases (finished : fatDeleteFile fuel name st = some st') :
    (∃ mid text, locate fuel name st = some (none, mid) ∧ st' = mid.kprintf text) ∨
      ∃ hit mid, locate fuel name st = some (some hit, mid) ∧
        deleteSlots fuel name hit.lba (List.range 16) hit.buf mid = some st' := by
  rw [fatDeleteFile] at finished
  split at finished
  · cases finished
  · rename_i mid located
    exact .inl ⟨mid, _, located, (Option.some.inj finished).symm⟩
  · rename_i hit mid located
    exact .inr ⟨hit, mid, located, finished⟩

theorem readLoop_loaded (loaded : Loaded st rd.st)
    (finished : loop readTurn fuel rd = some result) : Loaded st result.2 := by
  refine loop_ends (fun rd => Loaded st rd.st) (fun result => Loaded st result.2) ?_ loaded finished
  intro rd loaded
  rw [readTurn]
  split
  · exact loaded
  · exact loaded.next _

theorem fatReadFile_loaded (clean : st.fatCacheDirty = false)
    (finished : fatReadFile fuel name out st = some result) : Loaded st result.2.2 := by
  rw [fatReadFile] at finished
  split at finished
  · cases finished
  · rename_i found
    cases finished
    exact (locate_loaded clean found).kprintf _
  · rename_i found
    have searched := locate_loaded clean found
    dsimp only at finished
    split at finished
    · cases finished
      exact searched
    · split at finished
      · cases finished
      · rename_i read
        cases finished
        exact readLoop_loaded (by exact searched) read

/-- Creating a file or a directory: a duplicate changes nothing, otherwise the
slot search decides. -/
def CreateSpec (fill : Nat → Hit → FatState → CreateExit × FatState) (st : FatState)
    (result : CreateExit × FatState) : Prop :=
  (result.1 = .duplicate ∧ Loaded st result.2) ∨
    ∃ outcome, Search st.boot st.disk Sector.slotFree st.cwdCluster outcome ∧
      Placement fill st outcome result

theorem createSpec_of_place (wf : st.boot.WellFormed) (lagging : Lagging st)
    (walkable : Walkable st.boot st.disk st.cwdCluster) (loaded : Loaded st mid)
    (finished : loop (placeTurn fill fullText) fuel (mid.cwdCluster, mid) = some result) :
    CreateSpec fill st result := by
  obtain ⟨boot, cwd, _⟩ := loaded.kept
  have disk := loaded.disk
  rw [← boot] at wf
  rw [← boot, ← disk, ← cwd] at walkable
  obtain ⟨outcome, search, placed⟩ := placeLoop_search wf (lagging.loaded loaded) walkable finished
  rw [boot, disk, cwd] at search
  exact .inr ⟨outcome, search, placed.loaded loaded⟩

theorem fatWriteFile_spec (wf : st.boot.WellFormed) (lagging : Lagging st)
    (walkable : Walkable st.boot st.disk st.cwdCluster)
    (finished : fatWriteFile fuel name ext st = some result) :
    CreateSpec (fillFile name ext) st result := by
  rw [fatWriteFile] at finished
  split at finished
  · cases finished
  · rename_i checked
    cases finished
    exact .inl ⟨rfl, (fileDuplicate_loaded lagging.clean checked).kprintf _⟩
  · rename_i checked
    exact createSpec_of_place wf lagging walkable (fileDuplicate_loaded lagging.clean checked) finished

theorem fatCreateDir_spec (wf : st.boot.WellFormed) (lagging : Lagging st)
    (walkable : Walkable st.boot st.disk st.cwdCluster)
    (finished : fatCreateDir fuel name st = some result) : CreateSpec (fillDir name) st result := by
  rw [fatCreateDir] at finished
  split at finished
  · cases finished
  · rename_i checked
    cases finished
    have loaded := dirDuplicate_loaded (by exact lagging.clean) checked
    exact .inl ⟨rfl, ⟨⟨loaded.kept.boot, loaded.kept.cwdCluster, loaded.kept.cwdPath⟩,
      loaded.disk, loaded.clean, loaded.cache⟩⟩
  · rename_i checked
    have loaded := dirDuplicate_loaded (by exact lagging.clean) checked
    exact createSpec_of_place wf lagging walkable
      ⟨⟨loaded.kept.boot, loaded.kept.cwdCluster, loaded.kept.cwdPath⟩, loaded.disk, loaded.clean,
        loaded.cache⟩ finished

end LivlyOS.Fs
