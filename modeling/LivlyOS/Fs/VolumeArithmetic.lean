import LivlyOS.Fs.Calls
import LivlyOS.Fs.DirectFat
import LivlyOS.Fs.WalksEnd

namespace LivlyOS.Fs

open LivlyOS.Lib

/-- `a / b`, nothing when the divisor is zero. -/
def divide (a b : Nat) : Option Nat := if b = 0 then none else some (a / b)

/-- `a - b` of two `uint32_t`, nothing when it wraps below zero. -/
def subtract (a b : Nat) : Option Nat := if a < b then none else some (a - b)

namespace FAT32BootSector

variable (boot : FAT32BootSector)

/-- `total_clusters`, as `fat_extend_chain` computes it first. -/
def extendArithmetic : Option Nat :=
  (subtract boot.totalSectors32.toNat (sub32 boot.dataStart fat32PartitionStart)).bind fun sectors =>
    divide sectors boot.spc

/-- `count` and `total_clusters`, as `fat_alloc_cluster` computes them first. -/
def allocArithmetic (size : Nat) : Option (Nat × Nat) :=
  (divide (sub32 (u32 (size + boot.clusterSize)) 1) boot.clusterSize).bind fun count =>
    boot.extendArithmetic.map fun total => (count, total)

/-- The fields leave room for the metadata and name a cluster size. -/
structure Sensible : Prop where
  spc : boot.spc ≠ 0
  room : sub32 boot.dataStart fat32PartitionStart ≤ boot.totalSectors32.toNat

variable {boot}

theorem extendArithmetic_isSome : boot.extendArithmetic.isSome = true ↔ boot.Sensible := by
  unfold extendArithmetic subtract divide
  constructor
  · intro done
    split at done
    · cases done
    · rename_i room
      rw [Option.bind_some] at done
      split at done
      · cases done
      · rename_i spc
        exact ⟨spc, Nat.not_lt.mp room⟩
  · rintro ⟨spc, room⟩
    rw [if_neg (Nat.not_lt.mpr room), Option.bind_some, if_neg spc]
    rfl

/-- What is checked is what the allocators go on with. -/
theorem extendArithmetic_eq (done : boot.extendArithmetic = some total) : total = boot.totalClusters := by
  obtain ⟨spc, room⟩ := extendArithmetic_isSome.mp (by rw [done]; rfl)
  rw [extendArithmetic, subtract, if_neg (Nat.not_lt.mpr room), Option.bind_some, divide, if_neg spc] at done
  rw [totalClusters, sub32_of_le room (UInt32.toNat_lt _)]
  exact (Option.some.inj done).symm

theorem allocArithmetic_isSome (size : Nat) : (boot.allocArithmetic size).isSome = true ↔ boot.Sensible := by
  rw [← extendArithmetic_isSome, allocArithmetic, divide]
  split
  · rename_i zero
    have spc : boot.spc = 0 := by
      rw [clusterSize] at zero
      omega
    refine iff_of_false Bool.false_ne_true (mt extendArithmetic_isSome.mp fun sensible => sensible.spc spc)
  · rw [Option.bind_some, Option.isSome_map]

theorem allocArithmetic_eq (done : boot.allocArithmetic size = some (count, total)) :
    count = boot.clusterCount size ∧ total = boot.totalClusters := by
  obtain ⟨_, first, rest⟩ := Option.bind_eq_some_iff.mp done
  obtain ⟨_, second, same⟩ := Option.map_eq_some_iff.mp rest
  cases same
  refine ⟨?_, extendArithmetic_eq second⟩
  rw [divide] at first
  split at first
  · cases first
  · exact (Option.some.inj first).symm

end FAT32BootSector

/-- `fat_alloc_cluster`; nothing when its arithmetic faults. -/
def checkedAlloc (size : Nat) (st : FatState) : Option (Nat × FatState) :=
  (st.boot.allocArithmetic size).map fun _ => fatAllocCluster size st

/-- `fat_extend_chain`; nothing when its arithmetic faults. -/
def checkedExtend (prevCluster : Nat) (st : FatState) : Option (Nat × FatState) :=
  st.boot.extendArithmetic.map fun _ => fatExtendChain prevCluster st

theorem checkedExtend_eq (sensible : st.boot.Sensible) (prevCluster : Nat) :
    checkedExtend prevCluster st = some (fatExtendChain prevCluster st) := by
  obtain ⟨_, done⟩ := Option.isSome_iff_exists.mp (FAT32BootSector.extendArithmetic_isSome.mpr sensible)
  rw [checkedExtend, done, Option.map_some]

/-- `placeTurn`, with a fault as one of its exits. -/
def checkedPlaceTurn (fill : Nat → Hit → FatState → Option (CreateExit × FatState)) (fullText : String) :
    Nat × FatState → Turn (Nat × FatState) (Option (CreateExit × FatState))
  | (current, st) =>
    match findInCluster Sector.slotFree st current with
    | some hit => .leave (fill current hit st)
    | none =>
      let link := fatNextCluster current st
      if endOfChain ≤ link.1 then
        match checkedExtend current link.2 with
        | none => .leave none
        | some extended =>
          if endOfChain ≤ extended.1 then .leave (some (.full, extended.2.kprintf fullText))
          else .again extended
      else .again link

/-- `fillFile` and `fillDir` start with `fat_alloc_cluster(1)` on the state they are given. -/
def checkedFill (fill : Nat → Hit → FatState → CreateExit × FatState) (current : Nat) (hit : Hit) (st : FatState) :
    Option (CreateExit × FatState) :=
  (st.boot.allocArithmetic 1).map fun _ => fill current hit st

def checkedWriteFile (fuel : Nat) (name ext : CString) (st : FatState) :
    Option (Option (CreateExit × FatState)) :=
  match loop (fileDuplicateTurn name) fuel (st.cwdCluster, st) with
  | none => none
  | some (true, st) => some (some (.duplicate, st.kprintf "Datei existiert bereits\n"))
  | some (false, st) =>
    loop (checkedPlaceTurn (checkedFill (fillFile name ext)) "Kein Platz im Root-Directory\n") fuel (st.cwdCluster, st)

def checkedCreateDir (fuel : Nat) (name : CString) (st : FatState) : Option (Option (CreateExit × FatState)) :=
  let st := { st with
    console := st.console ++ (((name.take 8).takeWhile (· ≠ 0)).map
      (fun byte => String.singleton (Char.ofNat byte.toNat)) ++ ["\n"]) }
  match loop (dirDuplicateTurn name) fuel (st.cwdCluster, st) with
  | none => none
  | some (true, st) => some (some (.duplicate, st.kprintf "Datei existiert bereits\n"))
  | some (false, st) =>
    loop (checkedPlaceTurn (checkedFill (fillDir name)) "Kein Platz mehr Übrig\n") fuel (st.cwdCluster, st)

/-- `writeTurn`, with a fault as one of its exits. -/
def checkedWriteTurn (buf : Bytes) (size : Nat) (wr : WriteState) : Turn WriteState (Option FatState) :=
  if endOfChain ≤ wr.fileCluster then .leave (some wr.st)
  else
    let written := writeSectors buf size (wr.st.boot.clusterSector wr.fileCluster)
      wr.st.boot.spc 0 wr.offset wr.st.disk
    let st := { wr.st with disk := written.2 }
    if written.1 < size then
      match checkedExtend wr.fileCluster st with
      | none => .leave none
      | some extended => .again ⟨extended.1, written.1, extended.2⟩
    else .leave (some st)

def checkedWriteData (fuel : Nat) (name : CString) (buf : Bytes) (size : Nat) (st : FatState) :
    Option (Option FatState) :=
  match locate fuel name st with
  | none => none
  | some (none, st) =>
    loop (checkedWriteTurn buf size) fuel ⟨0, 0, st.kprintf "Nicht genügend Speicherplatz!\n"⟩
  | some (some hit, st) =>
    let fileCluster := hit.buf.slotCluster hit.slot
    let sector := hit.buf.setSize hit.slot size
    loop (checkedWriteTurn buf size) fuel
      ⟨fileCluster, 0, { st with disk := ataWriteSector st.disk hit.lba sector }⟩

/-- The functions that `fat.h` declares, other than `fat_init`. -/
inductive VolumeCall where
  | file (call : FsCall)
  | allocCluster (size : Nat)
  | extendChain (prevCluster : Nat)
  | nextCluster (cluster : Nat)

namespace VolumeCall

/-- How a call ends: not within the fuel, with a fault, or in a state. -/
def run (fuel : Nat) : VolumeCall → FatState → Option (Option FatState)
  | file (.writeFile name ext), st => (checkedWriteFile fuel name ext st).map (·.map Prod.snd)
  | file (.createDir name), st => (checkedCreateDir fuel name st).map (·.map Prod.snd)
  | file (.writeData name buf size), st => checkedWriteData fuel name buf size st
  | file call, st => (call.run fuel st).map fun result => some result.2
  | allocCluster size, st => some ((checkedAlloc size st).map Prod.snd)
  | extendChain prevCluster, st => some ((checkedExtend prevCluster st).map Prod.snd)
  | nextCluster cluster, st => some (some (fatNextCluster cluster st).2)

/-- The call divides by zero or wraps below zero. -/
def Faults (st : FatState) (call : VolumeCall) : Prop := ∃ fuel, call.run fuel st = some none

def Returns (st : FatState) (call : VolumeCall) (st' : FatState) : Prop := ∃ fuel, call.run fuel st = some (some st')

end VolumeCall

/-- Where a turn leads, the copy of the boot sector is this one. -/
def TurnKeeps (get : σ → FatState) (view : ρ → FatState) (boot : FAT32BootSector) : Turn σ ρ → Prop
  | .again next => (get next).boot = boot
  | .leave result => (view result).boot = boot

/-- A loop whose turns leave the copy of the boot sector alone. -/
def KeepsBoot (get : σ → FatState) (view : ρ → FatState) (body : σ → Turn σ ρ) : Prop :=
  ∀ state, TurnKeeps get view (get state).boot (body state)

theorem KeepsBoot.again {get : σ → FatState} {view : ρ → FatState} {body : σ → Turn σ ρ}
    (keeps : KeepsBoot get view body) (turn : body state = .again next) : (get next).boot = (get state).boot := by
  have kept := keeps state
  rwa [turn] at kept

theorem KeepsBoot.loop {get : σ → FatState} {view : ρ → FatState} {body : σ → Turn σ ρ} (keeps : KeepsBoot get view body)
    (finished : loop body fuel state = some result) : (view result).boot = (get state).boot := by
  refine loop_invariant (fun other => (get other).boot = (get state).boot)
    (fun result => (view result).boot = (get state).boot) (fun other next same turn => (keeps.again turn).trans same) ?_
    rfl finished
  intro other result same leave
  have kept := keeps other
  rw [leave] at kept
  exact kept.trans same

theorem fileDuplicateTurn_boot (name : CString) : KeepsBoot Prod.snd Prod.snd (fileDuplicateTurn name) := by
  rintro ⟨chk, st⟩
  rw [fileDuplicateTurn]
  split
  · rfl
  · split
    · rfl
    · exact (fatNextCluster_kept chk st).boot

theorem dirDuplicateTurn_boot (name : CString) : KeepsBoot Prod.snd Prod.snd (dirDuplicateTurn name) := by
  rintro ⟨chk, st⟩
  rw [dirDuplicateTurn]
  split
  · rfl
  · split
    · rfl
    · rfl
    · exact (fatNextCluster_kept chk st).boot

theorem placeTurn_boot {fill : Nat → Hit → FatState → CreateExit × FatState}
    (kept : ∀ current hit st, (fill current hit st).2.boot = st.boot) (fullText : String) :
    KeepsBoot Prod.snd Prod.snd (placeTurn fill fullText) := by
  rintro ⟨current, st⟩
  have link := (fatNextCluster_kept current st).boot
  have extended := (fatExtendChain_kept current (fatNextCluster current st).2).boot.trans link
  rw [placeTurn]
  split
  · exact kept _ _ _
  · dsimp only
    split
    · split <;> exact extended
    · exact link

theorem fillFile_boot (name ext : CString) (current : Nat) (hit : Hit) (st : FatState) :
    (fillFile name ext current hit st).2.boot = st.boot := (fatAllocCluster_kept 1 st).boot

theorem fillDir_boot (name : CString) (current : Nat) (hit : Hit) (st : FatState) :
    (fillDir name current hit st).2.boot = st.boot := (fatAllocCluster_kept 1 st).boot

theorem openTurn_boot (name : CString) : KeepsBoot Prod.snd Prod.snd (openTurn name) := by
  rintro ⟨current, st⟩
  rw [openTurn_eq]
  split
  · rfl
  · split
    · obtain ⟨cwd, path, moved⟩ := openInSectors_moves name (st.boot.clusterSector current) st.boot.spc 0 false st
      rw [moved]
      exact (fatNextCluster_kept current _).boot
    · exact (fatNextCluster_kept current st).boot

theorem listTurn_boot : KeepsBoot Prod.snd id listTurn := by
  rintro ⟨current, st⟩
  rw [listTurn]
  split
  · rfl
  · dsimp only
    split
    · rfl
    · exact (fatNextCluster_kept current _).boot

theorem locateTurn_boot (name : CString) : KeepsBoot Prod.snd Prod.snd (locateTurn name) := by
  rintro ⟨current, st⟩
  rw [locateTurn]
  split
  · rfl
  · dsimp only
    split <;> exact (fatNextCluster_kept current st).boot

theorem freeTurn_boot : KeepsBoot Prod.snd id freeTurn := by
  rintro ⟨cluster, st⟩
  rw [freeTurn]
  split
  · rfl
  · exact (fatNextCluster_kept cluster st).boot

theorem readTurn_boot : KeepsBoot ReadState.st Prod.snd readTurn := by
  intro rd
  unfold readTurn
  split
  · rfl
  · exact (fatNextCluster_kept rd.fileCluster rd.st).boot

theorem writeTurn_boot (buf : Bytes) (size : Nat) : KeepsBoot WriteState.st id (writeTurn buf size) := by
  intro wr
  unfold writeTurn
  split
  · rfl
  · dsimp only
    split
    · exact (fatExtendChain_kept wr.fileCluster _).boot
    · rfl

theorem deleteSlots_boot (finished : deleteSlots fuel name lba slots buf st = some st') : st'.boot = st.boot := by
  induction slots generalizing buf st with
  | nil => exact congrArg FatState.boot (Option.some.inj finished).symm
  | cons slot rest ih =>
    rw [deleteSlots] at finished
    split at finished
    · dsimp only at finished
      split at finished
      · cases finished
      · rename_i freed
        exact (ih finished).trans (freeTurn_boot.loop freed)
    · exact ih finished

theorem fatWriteFile_boot (finished : fatWriteFile fuel name ext st = some (exit, st')) : st'.boot = st.boot := by
  rw [fatWriteFile] at finished
  split at finished
  · cases finished
  · rename_i checked
    cases finished
    exact (fileDuplicateTurn_boot name).loop checked
  · rename_i checked
    have placed := (placeTurn_boot (fillFile_boot name ext) _).loop finished
    exact placed.trans ((fileDuplicateTurn_boot name).loop checked)

theorem fatCreateDir_boot (finished : fatCreateDir fuel name st = some (exit, st')) : st'.boot = st.boot := by
  rw [fatCreateDir] at finished
  dsimp only at finished
  split at finished
  · cases finished
  · rename_i checked
    cases finished
    exact (dirDuplicateTurn_boot name).loop checked
  · rename_i checked
    have placed := (placeTurn_boot (fillDir_boot name) _).loop finished
    exact placed.trans ((dirDuplicateTurn_boot name).loop checked)

theorem fatOpenDir_boot (finished : fatOpenDir fuel name st = some st') : st'.boot = st.boot := by
  obtain ⟨_, mid, looped, rfl | ⟨_, rfl⟩⟩ := fatOpenDir_cases finished
  · exact (openTurn_boot name).loop looped
  · exact (openTurn_boot name).loop looped

theorem fatCdBack_boot (finished : fatCdBack fuel st = some st') : st'.boot = st.boot := by
  rcases fatCdBack_cases finished with ⟨_, rfl⟩ | ⟨_, parent, path, _, rfl⟩
  · rfl
  · rfl

theorem fatRenameFile_boot (finished : fatRenameFile fuel name newName st = some st') : st'.boot = st.boot := by
  rcases fatRenameFile_cases finished with ⟨mid, _, located, rfl⟩ | ⟨hit, mid, located, rfl⟩
  · exact (locateTurn_boot name).loop located
  · exact (locateTurn_boot name).loop located

theorem fatDeleteFile_boot (finished : fatDeleteFile fuel name st = some st') : st'.boot = st.boot := by
  rcases fatDeleteFile_cases finished with ⟨mid, _, located, rfl⟩ | ⟨hit, mid, located, deleted⟩
  · exact (locateTurn_boot name).loop located
  · exact (deleteSlots_boot deleted).trans ((locateTurn_boot name).loop located)

theorem fatReadFile_boot (finished : fatReadFile fuel name out st = some (size, out', st')) : st'.boot = st.boot := by
  rw [fatReadFile] at finished
  split at finished
  · cases finished
  · rename_i located
    cases finished
    exact (locateTurn_boot name).loop located
  · rename_i located
    have boot := (locateTurn_boot name).loop located
    dsimp only at finished
    split at finished
    · cases finished
      exact boot
    · split at finished
      · cases finished
      · rename_i copied
        cases finished
        exact (readTurn_boot.loop copied).trans boot

theorem fatWriteData_boot (finished : fatWriteData fuel name buf size st = some st') : st'.boot = st.boot := by
  rw [fatWriteData] at finished
  split at finished
  · cases finished
  · rename_i located
    exact ((writeTurn_boot buf size).loop finished).trans ((locateTurn_boot name).loop located)
  · rename_i located
    exact ((writeTurn_boot buf size).loop finished).trans ((locateTurn_boot name).loop located)

/-- No file system call writes the copy of the boot sector. -/
theorem FsCall.run_boot (call : FsCall) (returned : call.run fuel st = some (exit, st')) : st'.boot = st.boot := by
  cases FsCall.run_cases returned with
  | cdRoot =>
    rfl
  | writeFile finished =>
    exact fatWriteFile_boot finished
  | createDir finished =>
    exact fatCreateDir_boot finished
  | openDir finished =>
    exact fatOpenDir_boot finished
  | cdBack finished =>
    exact fatCdBack_boot finished
  | listDir finished =>
    exact listTurn_boot.loop finished
  | renameFile finished =>
    exact fatRenameFile_boot finished
  | deleteFile finished =>
    exact fatDeleteFile_boot finished
  | readFile finished =>
    exact fatReadFile_boot finished
  | writeData finished =>
    exact fatWriteData_boot finished

theorem checkedPlaceTurn_eq (sensible : st.boot.Sensible) (fill : Nat → Hit → FatState → CreateExit × FatState)
    (fullText : String) (current : Nat) :
    checkedPlaceTurn (checkedFill fill) fullText (current, st) = (placeTurn fill fullText (current, st)).map some := by
  obtain ⟨_, done⟩ := Option.isSome_iff_exists.mp ((FAT32BootSector.allocArithmetic_isSome 1).mpr sensible)
  have extended := @checkedExtend_eq (fatNextCluster current st).2
    ((fatNextCluster_kept current st).boot.symm ▸ sensible) current
  rw [checkedPlaceTurn, placeTurn]
  cases findInCluster Sector.slotFree st current with
  | some hit =>
    dsimp only
    rw [checkedFill, done]
    rfl
  | none =>
    dsimp only
    rw [extended]
    split
    · dsimp only
      split <;> rfl
    · rfl

theorem checkedPlace_loop (sensible : st.boot.Sensible) {fill : Nat → Hit → FatState → CreateExit × FatState}
    (kept : ∀ current hit st, (fill current hit st).2.boot = st.boot) (fullText : String) (fuel current : Nat) :
    loop (checkedPlaceTurn (checkedFill fill) fullText) fuel (current, st) =
      (loop (placeTurn fill fullText) fuel (current, st)).map some :=
  loop_map some (fun point : Nat × FatState => point.2.boot.Sensible)
    (fun _ _ before turn => (placeTurn_boot kept fullText).again turn ▸ before)
    (fun (current, _) before => checkedPlaceTurn_eq before fill fullText current) sensible fuel

theorem checkedWriteTurn_eq (wr : WriteState) (sensible : wr.st.boot.Sensible) (buf : Bytes) (size : Nat) :
    checkedWriteTurn buf size wr = (writeTurn buf size wr).map some := by
  have extended := @checkedExtend_eq { wr.st with
    disk := (writeSectors buf size (wr.st.boot.clusterSector wr.fileCluster) wr.st.boot.spc 0 wr.offset wr.st.disk).2 }
    sensible wr.fileCluster
  rw [checkedWriteTurn, writeTurn]
  split
  · rfl
  · dsimp only
    rw [extended]
    split <;> rfl

theorem checkedWrite_loop (wr : WriteState) (sensible : wr.st.boot.Sensible) (buf : Bytes) (size fuel : Nat) :
    loop (checkedWriteTurn buf size) fuel wr = (loop (writeTurn buf size) fuel wr).map some :=
  loop_map some (fun wr : WriteState => wr.st.boot.Sensible)
    (fun _ _ before turn => (writeTurn_boot buf size).again turn ▸ before)
    (fun wr before => checkedWriteTurn_eq wr before buf size) sensible fuel

namespace VolumeCall

/-- With sensible fields the checked calls are the calls. -/
theorem run_file (sensible : st.boot.Sensible) (call : FsCall) :
    (file call).run fuel st = (call.run fuel st).map fun result => some result.2 := by
  cases call with
  | writeFile name ext =>
    rw [run, checkedWriteFile, FsCall.run, fatWriteFile]
    cases checked : loop (fileDuplicateTurn name) fuel (st.cwdCluster, st) with
    | none => rfl
    | some result =>
      obtain ⟨_ | _, mid⟩ := result
      · have boot : mid.boot = st.boot := (fileDuplicateTurn_boot name).loop checked
        dsimp only
        rw [checkedPlace_loop (boot.symm ▸ sensible) (fillFile_boot name ext)]
        simp only [Option.map_map, Function.comp_def, Option.map_some]
      · rfl
  | createDir name =>
    rw [run, checkedCreateDir, FsCall.run, fatCreateDir]
    dsimp only
    generalize checked : loop (dirDuplicateTurn name) fuel _ = result
    obtain _ | ⟨_ | _, mid⟩ := result
    · rfl
    · have boot : mid.boot = st.boot := (dirDuplicateTurn_boot name).loop checked
      dsimp only
      rw [checkedPlace_loop (boot.symm ▸ sensible) (fillDir_boot name)]
      simp only [Option.map_map, Function.comp_def, Option.map_some]
    · rfl
  | writeData name buf size =>
    rw [run, checkedWriteData, FsCall.run, fatWriteData]
    cases located : locate fuel name st with
    | none => rfl
    | some result =>
      obtain ⟨hit, mid⟩ := result
      have boot : mid.boot = st.boot := (locateTurn_boot name).loop located
      cases hit with
      | none =>
        dsimp only
        rw [checkedWrite_loop _ (boot.symm ▸ sensible), Option.map_map]
        rfl
      | some hit =>
        dsimp only
        rw [checkedWrite_loop _ (boot.symm ▸ sensible), Option.map_map]
        rfl
  | openDir name => rfl
  | cdBack => rfl
  | cdRoot => rfl
  | listDir => rfl
  | renameFile name newName => rfl
  | deleteFile name => rfl
  | readFile name out => rfl

theorem not_faults (sensible : st.boot.Sensible) (call : VolumeCall) : ¬call.Faults st := by
  rintro ⟨fuel, faulted⟩
  cases call with
  | file call =>
    rw [run_file sensible] at faulted
    obtain ⟨_, _, same⟩ := Option.map_eq_some_iff.mp faulted
    cases same
  | allocCluster size =>
    obtain ⟨_, done⟩ := Option.isSome_iff_exists.mp ((FAT32BootSector.allocArithmetic_isSome size).mpr sensible)
    rw [run, checkedAlloc, done] at faulted
    cases faulted
  | extendChain prevCluster =>
    rw [run, checkedExtend_eq sensible] at faulted
    cases faulted
  | nextCluster cluster => cases faulted

theorem Returns.boot (sensible : st.boot.Sensible) (returned : Returns st call st') : st'.boot = st.boot := by
  obtain ⟨fuel, ran⟩ := returned
  cases call with
  | file call =>
    rw [run_file sensible] at ran
    obtain ⟨⟨exit, mid⟩, answered, same⟩ := Option.map_eq_some_iff.mp ran
    cases same
    exact call.run_boot answered
  | allocCluster size =>
    obtain ⟨_, done⟩ := Option.isSome_iff_exists.mp ((FAT32BootSector.allocArithmetic_isSome size).mpr sensible)
    rw [run, checkedAlloc, done] at ran
    cases ran
    exact (fatAllocCluster_kept size st).boot
  | extendChain prevCluster =>
    rw [run, checkedExtend_eq sensible] at ran
    cases ran
    exact (fatExtendChain_kept prevCluster st).boot
  | nextCluster cluster =>
    cases ran
    exact (fatNextCluster_kept cluster st).boot

end VolumeCall

/-- After `fat_init` no call of any run faults exactly when the first sector of the
partition names a cluster size and leaves room for the metadata. -/
theorem volume_safe_iff (first : Sector) :
    (∀ disk calls st, ataReadSector disk fat32PartitionStart = first →
      Run VolumeCall.Returns (fun _ _ => True) (mounted disk) calls st → ∀ call, ¬VolumeCall.Faults st call) ↔
    (FAT32BootSector.ofSector first).Sensible := by
  constructor
  · intro safe
    by_contra senseless
    refine safe (fun _ => first) [] _ rfl .done (.allocCluster 1) ⟨0, ?_⟩
    have none : (FAT32BootSector.ofSector first).allocArithmetic 1 = none :=
      Option.not_isSome_iff_eq_none.mp (mt (FAT32BootSector.allocArithmetic_isSome 1).mp senseless)
    have boot : (mounted fun _ => first).boot = FAT32BootSector.ofSector first := rfl
    rw [VolumeCall.run, checkedAlloc, boot, none]
    rfl
  · intro sensible disk calls st same run call
    have boot : (mounted disk).boot = FAT32BootSector.ofSector first := congrArg FAT32BootSector.ofSector same
    have kept := run.invariant (fun st : FatState => st.boot.Sensible)
      (fun st call st' before _ returned => (VolumeCall.Returns.boot before returned).symm ▸ before)
      (boot.symm ▸ sensible)
    exact VolumeCall.not_faults kept call

/-- A boot sector without a cluster size, its root directory one cluster long. -/
def sizelessVolume : Disk :=
  image { sampleBoot with sectorsPerCluster := 0 } (assigned 0 [(2, 0x0FFFFFFF)]) fun _ _ => Sector.zero

/-- A volume that is shorter than its metadata. -/
def shortVolume : Disk :=
  image { sampleBoot with totalSectors32 := 1 } (assigned 0 [(2, 0x0FFFFFFF)]) fun _ _ => Sector.zero

/-- `fat_write_file` gets to `fat_extend_chain` and divides by zero, or gets to
`fat_alloc_cluster` and wraps. -/
theorem volume_faults :
    VolumeCall.Faults (mounted sizelessVolume) (.file (.writeFile [0x41] [])) ∧
      VolumeCall.Faults (mounted shortVolume) (.file (.writeFile [0x41] [])) ∧
      subtract (mounted shortVolume).boot.totalSectors32.toNat
        (sub32 (mounted shortVolume).boot.dataStart fat32PartitionStart) = none ∧
      ¬∀ first disk calls st, ataReadSector disk fat32PartitionStart = first →
        Run VolumeCall.Returns (fun _ _ => True) (mounted disk) calls st → ∀ call, ¬VolumeCall.Faults st call := by
  have faults : ∀ {call : VolumeCall} {st : FatState},
      (call.run 2 st).map Option.isNone = some true → call.Faults st := by
    intro call st faulted
    obtain ⟨result, ran, none⟩ := Option.map_eq_some_iff.mp faulted
    rw [Option.isNone_iff_eq_none.mp none] at ran
    exact ⟨2, ran⟩
  have sizeless : VolumeCall.Faults (mounted sizelessVolume) (.file (.writeFile [0x41] [])) := faults (by decide +kernel)
  refine ⟨sizeless, faults (by decide +kernel), by decide +kernel, fun safe => ?_⟩
  exact safe _ sizelessVolume [] _ rfl .done _ sizeless

end LivlyOS.Fs
