import LivlyOS.Fs.Calls
import LivlyOS.Fs.Slots
import LivlyOS.Fs.MissingFile
import LivlyOS.Fs.RoundTrip

/-! When the FAT cache agrees with the disk at the return of every call.
`fat_delete_file` clears FAT entries behind the back of the cache. -/

namespace LivlyOS.Fs

open LivlyOS.Lib

/-- No sector of the cluster belongs to the FAT. -/
def OutsideFat (boot : FAT32BootSector) (cluster : Nat) : Prop :=
  ∀ s < boot.spc, ¬ boot.IsFatSector (ataLba (boot.clusterLba cluster s))

theorem DataCluster.outsideFat {boot : FAT32BootSector} (wf : boot.WellFormed) (data : boot.DataCluster cluster) :
    OutsideFat boot cluster :=
  fun s inside fat => wf.layout.disjoint _ cluster s fat data inside rfl

/-- A cluster the writing loop may start from. -/
def WritableFrom (boot : FAT32BootSector) (cluster : Nat) : Prop :=
  endOfChain ≤ cluster ∨ (cluster < boot.totalClusters + 2 ∧ OutsideFat boot cluster)

/-- The call writes no FAT sector behind the back of the cache. -/
def FsCall.OffFat (st : FatState) : FsCall → Prop
  | .openDir _ | .cdBack | .cdRoot | .listDir | .readFile _ _ => True
  | .writeFile _ _ => st.boot.WellFormed ∧ Walkable st.boot st.disk st.cwdCluster ∧
      ∀ cluster hit, Search st.boot st.disk Sector.slotFree st.cwdCluster (.found cluster hit) →
        OutsideFat st.boot cluster
  | .createDir _ => st.boot.WellFormed ∧ Walkable st.boot st.disk st.cwdCluster ∧
      (∀ cluster hit, Search st.boot st.disk Sector.slotFree st.cwdCluster (.found cluster hit) →
        OutsideFat st.boot cluster ∧
          ((freeClusters st.boot st.disk).card ≠ 0 ∨ OutsideFat st.boot 0)) ∧
      ∀ final, Search st.boot st.disk Sector.slotFree st.cwdCluster (.absent final) →
        (freeClusters st.boot st.disk).card ≠ 1 ∨ OutsideFat st.boot 0
  | .renameFile name _ => st.boot.WellFormed ∧ Walkable st.boot st.disk st.cwdCluster ∧
      ∀ cluster hit,
        Search st.boot st.disk (Sector.slotMatches name) st.cwdCluster (.found cluster hit) →
          OutsideFat st.boot cluster
  | .deleteFile name => st.boot.WellFormed ∧ Walkable st.boot st.disk st.cwdCluster ∧
      ∀ cluster hit,
        Search st.boot st.disk (Sector.slotMatches name) st.cwdCluster (.found cluster hit) →
          OutsideFat st.boot cluster ∧ ∀ slot < 16, hit.buf.slotMatches name slot = true →
            endOfChain ≤ hit.buf.slotCluster slot
  | .writeData name _ size => st.boot.WellFormed ∧ Walkable st.boot st.disk st.cwdCluster ∧
      (∀ cluster hit,
        Search st.boot st.disk (Sector.slotMatches name) st.cwdCluster (.found cluster hit) →
          OutsideFat st.boot cluster ∧
            (size = 0 ∨ WritableFrom st.boot (hit.buf.slotCluster hit.slot))) ∧
      ∀ final, Search st.boot st.disk (Sector.slotMatches name) st.cwdCluster (.absent final) →
        size = 0 ∨ WritableFrom st.boot 0

/-- A sector of such a cluster may be written directly. -/
theorem OutsideFat.write (outside : OutsideFat st.boot cluster) (inside : s < st.boot.spc)
    (coherent : Coherent st) (lba : hit = st.boot.clusterLba cluster s) (buf : Sector) :
    Coherent { st with disk := ataWriteSector st.disk hit buf } := by
  apply coherent.rewrite
  intro other fat
  apply ataReadSector_other
  intro same
  rw [ataLba_of_lt fat.2.2, lba] at same
  exact outside s inside (same ▸ fat)

theorem Coherent.printed (coherent : Coherent st) (console : List String) :
    Coherent { st with console := console } :=
  ⟨coherent.clean, coherent.current⟩

theorem Coherent.kprintf (coherent : Coherent st) (text : String) : Coherent (st.kprintf text) :=
  coherent.printed _

theorem Coherent.moved (coherent : Coherent st) (cwd : Nat) (path : Bytes) :
    Coherent { st with cwdCluster := cwd, cwdPath := path } :=
  ⟨coherent.clean, coherent.current⟩

theorem placeSlot_coherent (wf : st.boot.WellFormed) (coherent : Coherent st)
    (outside : OutsideFat st.boot cluster) (inside : s < st.boot.spc)
    (lba : hit.lba = st.boot.clusterLba cluster s) (name ext : CString) (attributes : UInt8) :
    Coherent (placeSlot name ext attributes hit st).2 := by
  obtain ⟨_, _, after⟩ := fatAllocCluster_direct coherent wf.layout 1
  have boot := (fatAllocCluster_kept 1 st).boot
  exact OutsideFat.write (by rw [boot]; exact outside) (by rw [boot]; exact inside) after
    (by rw [boot]; exact lba) _

theorem fillDir_coherent (wf : st.boot.WellFormed) (coherent : Coherent st)
    (outside : OutsideFat st.boot cluster) (inside : s < st.boot.spc)
    (lba : hit.lba = st.boot.clusterLba cluster s) (name : CString) (current : Nat)
    (room : (freeClusters st.boot st.disk).card ≠ 0 ∨ OutsideFat st.boot 0) :
    Coherent (fillDir name current hit st).2 := by
  have placed := placeSlot_coherent wf coherent outside inside lba name [] 0x10
  have boot : (placeSlot name [] 0x10 hit st).2.boot = st.boot := (fatAllocCluster_kept 1 st).boot
  have target : OutsideFat st.boot (fatAllocCluster 1 st).1 := by
    rcases fatAllocCluster_lagging (coherent.lagging wf.layout) wf with ⟨none, _⟩ | ⟨_, marks⟩
    · rcases room with some | zero
      · exact DataCluster.outsideFat wf (fatAllocCluster_free wf coherent some)
      · rw [none]
        exact zero
    · exact DataCluster.outsideFat wf marks.data
  refine OutsideFat.write (by rw [boot]; exact target) (by rw [boot]; exact wf.spc_pos) placed ?_ _
  rw [boot, FAT32BootSector.clusterLba_zero]
  rfl

theorem Placement.writeFile_coherent (wf : st.boot.WellFormed) (coherent : Coherent st)
    (search : Search st.boot st.disk Sector.slotFree st.cwdCluster outcome)
    (outside : ∀ cluster hit,
      Search st.boot st.disk Sector.slotFree st.cwdCluster (.found cluster hit) →
        OutsideFat st.boot cluster)
    (placed : Placement (fillFile name ext) st outcome result) : Coherent result.2 := by
  cases placed with
  | found loaded =>
    obtain ⟨s, inside, lba, _⟩ := search.place
    have boot := loaded.kept.boot
    exact placeSlot_coherent (by rw [boot]; exact wf) (coherent.loaded loaded)
      (by rw [boot]; exact outside _ _ search) (by rw [boot]; exact inside) (by rw [boot]; exact lba)
      name ext 0x20
  | full loaded _ => exact coherent.loaded loaded
  | extended after kept step _ =>
    have boot := kept.boot
    exact placeSlot_coherent (by rw [boot]; exact wf) after
      (by rw [boot]; exact DataCluster.outsideFat wf step.data) (by rw [boot]; exact wf.spc_pos)
      (by rw [boot]) name ext 0x20

theorem Placement.createDir_coherent (wf : st.boot.WellFormed) (coherent : Coherent st)
    (search : Search st.boot st.disk Sector.slotFree st.cwdCluster outcome)
    (present : ∀ cluster hit,
      Search st.boot st.disk Sector.slotFree st.cwdCluster (.found cluster hit) →
        OutsideFat st.boot cluster ∧
          ((freeClusters st.boot st.disk).card ≠ 0 ∨ OutsideFat st.boot 0))
    (missing : ∀ final, Search st.boot st.disk Sector.slotFree st.cwdCluster (.absent final) →
      (freeClusters st.boot st.disk).card ≠ 1 ∨ OutsideFat st.boot 0)
    (placed : Placement (fillDir name) st outcome result) : Coherent result.2 := by
  cases placed with
  | found loaded =>
    obtain ⟨s, inside, lba, _⟩ := search.place
    obtain ⟨outside, room⟩ := present _ _ search
    have boot := loaded.kept.boot
    exact fillDir_coherent (by rw [boot]; exact wf) (coherent.loaded loaded)
      (by rw [boot]; exact outside) (by rw [boot]; exact inside) (by rw [boot]; exact lba) name _
      (by rw [boot, loaded.disk]; exact room)
  | full loaded _ => exact coherent.loaded loaded
  | @extended mid final n after kept step left =>
    have boot := kept.boot
    -- one free cluster went into the directory, a second one must be left
    have room : (freeClusters st.boot mid.disk).card ≠ 0 ∨ OutsideFat st.boot 0 := by
      rcases missing _ search with many | zero
      · left
        have member : n ∈ freeClusters st.boot st.disk := mem_freeClusters.mpr ⟨step.data, step.free⟩
        have some := Finset.card_pos.mpr ⟨n, member⟩
        have more := Finset.card_le_card left
        rw [coherent.visibleFree wf.layout, Finset.card_erase_of_mem member] at more
        omega
      · exact .inr zero
    exact fillDir_coherent (by rw [boot]; exact wf) after
      (by rw [boot]; exact DataCluster.outsideFat wf step.data) (by rw [boot]; exact wf.spc_pos)
      (by rw [boot]) name _ (by rw [boot]; exact room)

theorem openInSectors_moves (name : CString) (sektor count s : Nat) (found : Bool) (st : FatState) :
    ∃ cwd path, (openInSectors name sektor count s found st).2 =
      { st with cwdCluster := cwd, cwdPath := path } := by
  induction count generalizing s found st with
  | zero => exact ⟨st.cwdCluster, st.cwdPath, rfl⟩
  | succ count ih =>
    simp only [openInSectors]
    split
    · exact ih _ _ _
    · exact ih _ _ _

/-- `fat_open_dir` only moves the current directory. -/
theorem fatOpenDir_moves (clean : st.fatCacheDirty = false) (finished : fatOpenDir fuel name st = some st') :
    ∃ cwd path, Loaded { st with cwdCluster := cwd, cwdPath := path } st' := by
  have step : ∀ current mid, (∃ cwd path, Loaded { st with cwdCluster := cwd, cwdPath := path } mid) →
      ∃ cwd path, Loaded { st with cwdCluster := cwd, cwdPath := path } (fatNextCluster current
        (openInSectors name (mid.boot.clusterSector current) mid.boot.spc 0 false mid).2).2 := by
    rintro current mid ⟨cwd, path, loaded⟩
    obtain ⟨cwd', path', moved⟩ := openInSectors_moves name (mid.boot.clusterSector current) mid.boot.spc 0 false mid
    rw [moved]
    exact ⟨cwd', path', (loaded.moved cwd' path').next current⟩
  have opened : ∀ result, loop (openTurn name) fuel (st.cwdCluster, st) = some result →
      ∃ cwd path, Loaded { st with cwdCluster := cwd, cwdPath := path } result.2 := by
    intro result finished
    refine loop_ends (fun p => ∃ cwd path, Loaded { st with cwdCluster := cwd, cwdPath := path } p.2)
      (fun result => ∃ cwd path, Loaded { st with cwdCluster := cwd, cwdPath := path } result.2) ?_
      ⟨st.cwdCluster, st.cwdPath, .refl clean⟩ finished
    rintro ⟨current, mid⟩ before
    rw [openTurn]
    split
    · exact before
    · dsimp only
      split
      · exact step current mid before
      · exact step current mid before
  obtain ⟨_, mid, looped, rfl | ⟨_, rfl⟩⟩ := fatOpenDir_cases finished
  · exact opened _ looped
  · obtain ⟨cwd, path, loaded⟩ := opened _ looped
    exact ⟨cwd, path, loaded.kprintf _⟩

theorem fatOpenDir_coherent (coherent : Coherent st) (finished : fatOpenDir fuel name st = some st') :
    Coherent st' := by
  obtain ⟨cwd, path, loaded⟩ := fatOpenDir_moves coherent.clean finished
  exact (coherent.moved cwd path).loaded loaded

theorem fatCdBack_coherent (coherent : Coherent st) (finished : fatCdBack fuel st = some st') :
    Coherent st' := by
  rcases fatCdBack_cases finished with ⟨_, rfl⟩ | ⟨_, parent, path, _, rfl⟩
  · exact coherent.kprintf _
  · exact coherent.moved _ _

theorem fatRenameFile_coherent (wf : st.boot.WellFormed) (coherent : Coherent st)
    (walkable : Walkable st.boot st.disk st.cwdCluster)
    (outside : ∀ cluster hit,
      Search st.boot st.disk (Sector.slotMatches name) st.cwdCluster (.found cluster hit) →
        OutsideFat st.boot cluster)
    (finished : fatRenameFile fuel name newName st = some st') : Coherent st' := by
  rcases fatRenameFile_cases finished with ⟨mid, _, located, rfl⟩ | ⟨hit, mid, located, rfl⟩
  · exact (coherent.loaded (locate_loaded coherent.clean located)).kprintf _
  · obtain ⟨loaded, cluster, search⟩ := locate_found (coherent.lagging wf.layout) walkable located
    obtain ⟨s, inside, lba, _⟩ := search.place
    have boot := loaded.kept.boot
    exact OutsideFat.write (by rw [boot]; exact outside _ _ search) (by rw [boot]; exact inside)
      (coherent.loaded loaded) (by rw [boot]; exact lba) _

/-- Slots that hold no chain are freed without touching the FAT. -/
theorem deleteSlots_coherent (coherent : Coherent st) (outside : OutsideFat st.boot cluster)
    (inside : s < st.boot.spc) (lba : hit = st.boot.clusterLba cluster s) (slots : List Nat)
    (nodup : slots.Nodup) (buf : Sector)
    (chainless : ∀ slot ∈ slots, buf.slotMatches name slot = true →
      endOfChain ≤ buf.slotCluster slot)
    (finished : deleteSlots fuel name hit slots buf st = some st') : Coherent st' := by
  induction slots generalizing st buf with
  | nil =>
    cases finished
    exact coherent
  | cons slot rest ih =>
    obtain ⟨fresh, nodup⟩ := List.nodup_cons.mp nodup
    have later : ∀ other ∈ rest, other ≠ slot := by
      rintro other member rfl
      exact fresh member
    rw [deleteSlots] at finished
    split at finished
    · rename_i hits
      have ended := chainless slot (by simp) hits
      have written := outside.write inside coherent lba (buf.putByte slot 0 0xE5)
      have stop : ∀ st : FatState, freeTurn (buf.slotCluster slot, st) = .leave st := by
        intro st
        simp only [freeTurn, ended, ↓reduceIte]
      dsimp only at finished
      cases fuel with
      | zero => simp [loop] at finished
      | succ fuel =>
        rw [loop_leave (stop _)] at finished
        refine ih written outside inside lba nodup (buf.putByte slot 0 0xE5) ?_ finished
        intro other member hits
        have kept := Sector.putByte_sameSlot buf 0 0xE5 (by decide) (later other member)
        rw [kept.slotMatches] at hits
        rw [kept.slotCluster]
        exact chainless other (by simp [member]) hits
    · exact ih coherent outside inside lba nodup buf
        (fun other member => chainless other (by simp [member])) finished

theorem fatDeleteFile_coherent (wf : st.boot.WellFormed) (coherent : Coherent st)
    (walkable : Walkable st.boot st.disk st.cwdCluster)
    (chainless : ∀ cluster hit,
      Search st.boot st.disk (Sector.slotMatches name) st.cwdCluster (.found cluster hit) →
        OutsideFat st.boot cluster ∧ ∀ slot < 16, hit.buf.slotMatches name slot = true →
          endOfChain ≤ hit.buf.slotCluster slot)
    (finished : fatDeleteFile fuel name st = some st') : Coherent st' := by
  rcases fatDeleteFile_cases finished with ⟨mid, _, located, rfl⟩ | ⟨hit, mid, located, deleted⟩
  · exact (coherent.loaded (locate_loaded coherent.clean located)).kprintf _
  · obtain ⟨loaded, cluster, search⟩ := locate_found (coherent.lagging wf.layout) walkable located
    obtain ⟨s, inside, lba, _⟩ := search.place
    obtain ⟨outside, ended⟩ := chainless _ _ search
    have boot := loaded.kept.boot
    exact deleteSlots_coherent (coherent.loaded loaded) (by rw [boot]; exact outside)
      (by rw [boot]; exact inside) (by rw [boot]; exact lba) (List.range 16) List.nodup_range hit.buf
      (fun slot member => ended slot (List.mem_range.mp member)) deleted

/-- The sectors of such a cluster may be written directly. -/
theorem OutsideFat.writeSectors (outside : OutsideFat st.boot cluster) (coherent : Coherent st)
    (buf : Bytes) (size offset : Nat) :
    Coherent { st with disk := writtenDisk st.boot buf size offset cluster st.disk } := by
  apply coherent.rewrite
  intro lba fat
  apply writeSectors_other
  intro s _ inside same
  rw [ataLba_of_lt fat.2.2] at same
  exact outside s (by omega) (same ▸ fat)

theorem fatExtendChain_writable (wf : st.boot.WellFormed) (coherent : Coherent st)
    (inRange : cluster < st.boot.totalClusters + 2) :
    Coherent (fatExtendChain cluster st).2 ∧ WritableFrom st.boot (fatExtendChain cluster st).1 := by
  refine ⟨(fatExtendChain_direct coherent wf.layout inRange).2.2, ?_⟩
  rcases fatExtendChain_clean coherent.clean wf inRange with
    ⟨failed, _⟩ | ⟨n, _, data, _, _, _, value, _⟩
  · left
    rw [failed]
    decide
  · right
    rw [value]
    exact ⟨data.2, DataCluster.outsideFat wf data⟩

/-- Each turn of the writing loop stays outside the FAT. -/
theorem writeLoop_coherent (wf : st.boot.WellFormed) (coherent : Coherent st)
    (start : WritableFrom st.boot first) (buf : Bytes) (size offset : Nat)
    (finished : loop (writeTurn buf size) fuel ⟨first, offset, st⟩ = some st') : Coherent st' := by
  refine loop_ends
    (fun wr => Coherent wr.st ∧ wr.st.boot = st.boot ∧ WritableFrom st.boot wr.fileCluster)
    Coherent ?_ ⟨coherent, rfl, start⟩ finished
  rintro ⟨cluster, offset, mid⟩ ⟨before, boot, writable⟩
  simp only at before boot writable
  rw [← boot] at wf writable ⊢
  rw [writeTurn]
  split
  · exact before
  · rename_i going
    obtain ⟨inRange, outside⟩ := writable.resolve_left going
    have written := outside.writeSectors before buf size offset
    dsimp only
    split
    · obtain ⟨after, more⟩ := fatExtendChain_writable (by exact wf) written inRange
      exact ⟨after, (fatExtendChain_kept _ _).boot, more⟩
    · exact written

/-- With nothing to store the loop writes no sector. -/
theorem writeLoop_empty (coherent : Coherent st) (first : Nat) (buf : Bytes)
    (finished : loop (writeTurn buf 0) fuel ⟨first, 0, st⟩ = some st') : Coherent st' := by
  cases fuel with
  | zero => simp [loop] at finished
  | succ fuel =>
    have none : writtenDisk st.boot buf 0 0 first st.disk = st.disk :=
      writeSectors_unchanged buf st.disk (clusterSize_small st.boot)
        (fun _ _ _ below => absurd below (Nat.not_lt_zero _))
    by_cases small : first < endOfChain
    · rw [loop_leave (writeTurn_leave buf first small st (clusterSize_small st.boot) (Nat.zero_le _)),
        none] at finished
      cases finished
      exact coherent
    · have leave : writeTurn buf 0 ⟨first, 0, st⟩ = .leave st := by
        simp only [writeTurn, Nat.le_of_not_lt small, ↓reduceIte]
      rw [loop_leave leave] at finished
      cases finished
      exact coherent

theorem writeLoop_offFat (wf : st.boot.WellFormed) (coherent : Coherent st)
    (start : size = 0 ∨ WritableFrom st.boot first) (buf : Bytes)
    (finished : loop (writeTurn buf size) fuel ⟨first, 0, st⟩ = some st') : Coherent st' := by
  rcases start with rfl | writable
  · exact writeLoop_empty coherent first buf finished
  · exact writeLoop_coherent wf coherent writable buf size 0 finished

theorem fatWriteData_coherent (wf : st.boot.WellFormed) (coherent : Coherent st)
    (walkable : Walkable st.boot st.disk st.cwdCluster)
    (present : ∀ cluster hit,
      Search st.boot st.disk (Sector.slotMatches name) st.cwdCluster (.found cluster hit) →
        OutsideFat st.boot cluster ∧
          (size = 0 ∨ WritableFrom st.boot (hit.buf.slotCluster hit.slot)))
    (missing : ∀ final,
      Search st.boot st.disk (Sector.slotMatches name) st.cwdCluster (.absent final) →
        size = 0 ∨ WritableFrom st.boot 0)
    (finished : fatWriteData fuel name buf size st = some st') : Coherent st' := by
  rw [fatWriteData] at finished
  split at finished
  · cases finished
  · rename_i mid located
    obtain ⟨loaded, final, search⟩ := locate_absent (coherent.lagging wf.layout) walkable located
    have boot := loaded.kept.boot
    exact writeLoop_offFat (by rw [FatState.kprintf, boot]; exact wf)
      ((coherent.loaded loaded).kprintf _) (by rw [FatState.kprintf, boot]; exact missing _ search)
      buf finished
  · rename_i hit mid located
    obtain ⟨loaded, cluster, search⟩ := locate_found (coherent.lagging wf.layout) walkable located
    obtain ⟨s, inside, lba, _⟩ := search.place
    obtain ⟨outside, start⟩ := present _ _ search
    have boot := loaded.kept.boot
    have sized : Coherent { mid with
        disk := ataWriteSector mid.disk hit.lba (hit.buf.setSize hit.slot size) } :=
      OutsideFat.write (by rw [boot]; exact outside) (by rw [boot]; exact inside)
        (coherent.loaded loaded) (by rw [boot]; exact lba) _
    exact writeLoop_offFat (by rw [boot]; exact wf) sized (by rw [boot]; exact start) buf finished

/-- One call that writes no FAT sector behind the back of the cache. -/
theorem FsCall.coherent (call : FsCall) (before : Coherent st) (offFat : call.OffFat st)
    (returns : FsCall.Returns st call st') : Coherent st' := by
  obtain ⟨fuel, exit, returned⟩ := returns
  cases FsCall.run_cases returned with
  | writeFile finished =>
    obtain ⟨wf, walkable, outside⟩ := offFat
    rcases fatWriteFile_spec wf (before.lagging wf.layout) walkable finished with
      ⟨_, loaded⟩ | ⟨outcome, search, placed⟩
    · exact before.loaded loaded
    · exact placed.writeFile_coherent wf before search outside
  | createDir finished =>
    obtain ⟨wf, walkable, present, missing⟩ := offFat
    rcases fatCreateDir_spec wf (before.lagging wf.layout) walkable finished with
      ⟨_, loaded⟩ | ⟨outcome, search, placed⟩
    · exact before.loaded loaded
    · exact placed.createDir_coherent wf before search present missing
  | openDir finished =>
    exact fatOpenDir_coherent before finished
  | cdBack finished =>
    exact fatCdBack_coherent before finished
  | cdRoot =>
    exact before.moved _ _
  | listDir finished =>
    exact before.loaded (fatListDir_loaded before.clean finished)
  | renameFile finished =>
    obtain ⟨wf, walkable, outside⟩ := offFat
    exact fatRenameFile_coherent wf before walkable outside finished
  | deleteFile finished =>
    obtain ⟨wf, walkable, chainless⟩ := offFat
    exact fatDeleteFile_coherent wf before walkable chainless finished
  | readFile finished =>
    exact before.loaded (fatReadFile_loaded before.clean finished)
  | writeData finished =>
    obtain ⟨wf, walkable, present, missing⟩ := offFat
    exact fatWriteData_coherent wf before walkable present missing finished

/-- After `fat_init` the cache is coherent at the return of every call. -/
theorem coherent_run (disk : Disk) (run : Run FsCall.Returns FsCall.OffFat (mounted disk) calls st) :
    Coherent st :=
  run.invariant Coherent (fun _ call _ before offFat returns => call.coherent before offFat returns)
    (mounted_coherent disk)

theorem coherent_run_emptyVolume : ∃ st,
    Run FsCall.Returns FsCall.OffFat (mounted emptyVolume) [.writeFile [0x41] [], .cdRoot] st ∧
      Coherent st := by
  have boot : (mounted emptyVolume).boot = sampleBoot := (mounted_image _ _ _).1
  have wf : (mounted emptyVolume).boot.WellFormed := by
    rw [boot]
    exact sampleBoot_wellFormed
  have directory : FatChain (mounted emptyVolume).boot (mounted emptyVolume).disk 2 [2] := by
    rw [boot]
    exact emptyVolume_directory
  have offFat : FsCall.OffFat (mounted emptyVolume) (.writeFile [0x41] []) := by
    refine ⟨wf, directory.walkable, fun cluster hit search => ?_⟩
    have root := directory.reach_mem search.found_reach.1
    exact DataCluster.outsideFat wf (directory.data cluster root)
  obtain ⟨⟨exit, st⟩, returned⟩ := Option.isSome_iff_exists.mp
    (by decide +kernel : ((FsCall.writeFile [0x41] []).run 3 (mounted emptyVolume)).isSome)
  have run : Run FsCall.Returns FsCall.OffFat (mounted emptyVolume) [.writeFile [0x41] [], .cdRoot]
      (fatCdRoot st) := .next offFat ⟨3, exit, returned⟩ (.next trivial ⟨0, none, rfl⟩ .done)
  exact ⟨_, run, coherent_run emptyVolume run⟩

/-- Deleting the only file leaves its FAT entry in the cache: the sector on disk
holds zero for cluster 3, the cached copy an end mark. -/
theorem fatDeleteFile_stale : ∃ st,
    FsCall.Returns (mounted oneFileVolume) (.deleteFile [0x41]) st ∧
      st.boot.IsFatSector st.cachedFatSectorNr ∧
      st.cachedFatBuf.entry 3 = 0x0FFFFFFF ∧
      (ataReadSector st.disk st.cachedFatSectorNr).entry 3 = 0 ∧ ¬ Coherent st := by
  obtain ⟨st, returned, fat, cached, onDisk⟩ : ∃ st,
      fatDeleteFile 3 [0x41] (mounted oneFileVolume) = some st ∧
        st.boot.IsFatSector st.cachedFatSectorNr ∧ st.cachedFatBuf.entry 3 = 0x0FFFFFFF ∧
        (ataReadSector st.disk st.cachedFatSectorNr).entry 3 = 0 := by
    obtain ⟨st, returned, facts⟩ := Option.map_eq_some_iff.mp (by decide +kernel :
      (fatDeleteFile 3 [0x41] (mounted oneFileVolume)).map (fun st =>
        decide (st.boot.IsFatSector st.cachedFatSectorNr ∧ st.cachedFatBuf.entry 3 = 0x0FFFFFFF ∧
          (ataReadSector st.disk st.cachedFatSectorNr).entry 3 = 0)) = some true)
    exact ⟨st, returned, of_decide_eq_true facts⟩
  refine ⟨st, ⟨3, none, by simp [FsCall.run, returned]⟩, fat, cached, onDisk, ?_⟩
  intro coherent
  rw [coherent.current fat, onDisk] at cached
  exact absurd cached (by decide)

end LivlyOS.Fs
