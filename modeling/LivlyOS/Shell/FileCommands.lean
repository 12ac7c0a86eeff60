import LivlyOS.Apps.FileBuffer
import LivlyOS.Fs.FileListing
import LivlyOS.Shell.Commands

namespace LivlyOS.Shell

open LivlyOS.Apps LivlyOS.Fs LivlyOS.Lib

/-- The text as the name of a file, if the driver stores it in full and compares it as it is. -/
def fileName (text : List UInt8) : Option FileName :=
  if fits : CString.Visible text ∧ text ≠ [] ∧ text.length ≤ 8 then some ⟨text, fits.1, fits.2.1, fits.2.2⟩ else none

namespace Call

/-- The call as one on files. What the buffer of `cmd_cat` held before has no influence on the answer. -/
def fileCall : Call → Option FileCall
  | .fatWriteFile name ext => (fileName name).map (.create · ext)
  | .fatDeleteFile name => (fileName name).map .remove
  | .fatRenameFile name neu => (fileName name).bind fun name => (fileName neu).map (.rename name)
  | .fatReadFile name => (fileName name).map (.load · fun _ => 0)
  | _ => none

/-- What a call does to the volume, and what a file system function hands back; `buf` is what `kmalloc` gives
to `cmd_cat`. The editor, which reads the keyboard itself, and what ends the shell are left out. -/
def run (buf : Option Bytes) (fuel : Nat) : Call → FatState → Option (Option FileAnswer × FatState)
  | .kprintf _ _, st => some (none, st)
  | .help, st => some (none, st)
  | .clear, st => some (none, st)
  | .mem, st => some (none, st)
  | .ps, st => some (none, st)
  | .test, st => some (none, st)
  | .editorHelp, st => some (none, st)
  | .memmoryTest, st => some (none, st)
  | .dir, st => (fatListDir fuel st).map fun st => (none, st)
  | .fatWriteFile name ext, st => (Fs.fatWriteFile fuel name ext st).map fun result =>
      (some (if result.1 = .duplicate then .duplicate else .done), result.2)
  | .fatCreateDir name, st => (Fs.fatCreateDir fuel name st).map fun result => (none, result.2)
  | .fatCdRoot, st => some (none, Fs.fatCdRoot st)
  | .fatCdBack, st => (Fs.fatCdBack fuel st).map fun st => (none, st)
  | .fatOpenDir name, st => (Fs.fatOpenDir fuel name st).map fun st => (none, st)
  | .fatDeleteFile name, st => (Fs.fatDeleteFile fuel name st).map fun st => (some .done, st)
  | .fatRenameFile name neu, st => (Fs.fatRenameFile fuel name neu st).map fun st => (some .done, st)
  | .fatReadFile name, st => (catFile fuel name buf st).map fun result => (some (.contents result.1), result.2)
  | .reboot, _ => none
  | .schedularRemove _, _ => none
  | .fatEditFile _, _ => none

/-- The calls that leave the files and the directory alone. -/
def quiet : Call → Bool
  | .kprintf _ _ | .help | .clear | .mem | .ps | .dir | .test | .editorHelp | .memmoryTest => true
  | _ => false

/-- `cmd_cat` has its buffer, and the file fits into it. -/
def Buffered (buf : Option Bytes) (st : FatState) : Call → Prop
  | .fatReadFile name => buf ≠ none ∧ CatFits name st
  | _ => True

/-- The calls that stay on the files of the directory: those on files are served, the others are quiet. -/
def Served (foreign : Set FileName) (buf : Option Bytes) (state : FatState × FileStore) (call : Call) : Prop :=
  call.Buffered buf state.1 ∧
    match call.fileCall with
    | some file => file.Served foreign state
    | none => call.quiet = true

/-- The map after the call. -/
def onStore (store : FileStore) (call : Call) : FileStore := call.fileCall.elim store (FileStore.spec.next store)

end Call

theorem keeps_console {foreign : Set FileName} (keeps : Keeps foreign st store) (console : List String) :
    Keeps foreign { st with console } store := by
  obtain ⟨layout, holds⟩ := keeps
  exact ⟨layout, { holds with lagging := ⟨holds.lagging.clean, holds.lagging.entries⟩ }⟩

theorem keeps_listDir {foreign : Set FileName} (keeps : Keeps foreign st store) :
    ∃ enough, ∀ fuel, enough ≤ fuel → ∃ printed, fatListDir fuel st = some printed ∧ Keeps foreign printed store := by
  obtain ⟨layout, holds⟩ := keeps
  refine ⟨layout.dirs.length + 1, fun fuel enough => ?_⟩
  obtain ⟨printed, result, loaded, _⟩ := listLoop holds.wf holds.lagging holds.directory (.refl holds.lagging.clean)
    (by omega : layout.dirs.length < fuel)
  exact ⟨printed, result, layout, holds.loaded loaded⟩

/-- `cmd_cat` hands out a file that fits into its buffer. -/
theorem keeps_cat {foreign : Set FileName} {name : FileName} (keeps : Keeps foreign st store) (known : name ∉ foreign)
    (fits : CatFits name.text st) (out : Bytes) :
    ∃ enough, ∀ fuel, enough ≤ fuel → ∃ st', catFile fuel name.text (some out) st = some ((store name).getD [], st') ∧
      Keeps foreign st' store := by
  have regular : ∃ dirs, FatChain st.boot st.disk st.cwdCluster dirs ∧
      ∀ hit, firstHit st.boot st.disk (Sector.slotMatches name.text) dirs = some hit →
        hit.buf.slotSize hit.slot ≠ 0 → ∃ files, FatChain st.boot st.disk (hit.buf.slotCluster hit.slot) files := by
    obtain ⟨layout, holds⟩ := keeps
    refine ⟨layout.dirs, holds.directory, fun hit found _ => ?_⟩
    cases stored : store name with
    | none => cases found.symm.trans (holds.missing known stored)
    | some data =>
      cases found.symm.trans (holds.found stored)
      exact ⟨_, (holds.entry name data stored).2.2.chain⟩
  obtain ⟨dirs, directory, regular⟩ := regular
  have lagging : Lagging st := by
    obtain ⟨_, holds⟩ := keeps
    exact holds.lagging
  have served : (FileCall.load name out).Served foreign (st, store) := known
  obtain ⟨enough, runs⟩ := keeps.serves served
  refine ⟨enough, fun fuel more => ?_⟩
  obtain ⟨st', ran, still⟩ := runs fuel more
  obtain ⟨⟨size, bytes, after⟩, read, same⟩ := Option.map_eq_some_iff.mp ran
  have listed : (List.range size).map bytes = (store name).getD [] := FileAnswer.contents.inj (congrArg Prod.fst same)
  obtain rfl : after = st' := congrArg Prod.snd same
  obtain ⟨console, printed⟩ := catFile_eq lagging directory fits regular read
  exact ⟨_, by rw [printed, listed], keeps_console still console⟩

/-- A volume that is no larger than the buffer has no file that is. -/
theorem catFits_small {foreign : Set FileName} {name : FileName} (keeps : Keeps foreign st store) (known : name ∉ foreign)
    (small : st.boot.totalClusters * st.boot.clusterSize ≤ bufferSize) : CatFits name.text st := by
  intro dirs hit directory found
  obtain ⟨layout, holds⟩ := keeps
  obtain rfl : layout.dirs = dirs := holds.directory.chain.unique directory.chain
  cases stored : store name with
  | none => cases found.symm.trans (holds.missing known stored)
  | some data =>
    cases found.symm.trans (holds.found stored)
    have file := (holds.entry name data stored).2.2
    have inside : layout.chain name ⊆ List.range' 2 st.boot.totalClusters := by
      intro cluster member
      obtain ⟨low, high⟩ := file.chain.data cluster member
      exact List.mem_range'_1.mpr ⟨low, by omega⟩
    have few := (List.subperm_of_subset file.chain.chain.nodup inside).length_le
    rw [List.length_range'] at few
    have bound := Nat.le_trans (Nat.mul_le_mul_right st.boot.clusterSize few) small
    refine .inr ⟨?_, fun files chain => ?_⟩
    · exact Nat.le_trans (Nat.le_of_eq file.size) (Nat.le_trans file.long bound)
    · rw [chain.chain.unique file.chain.chain]
      exact bound

theorem fileName_text (named : fileName text = some name) : name.text = text := by
  rw [fileName] at named
  split at named
  · cases named
    rfl
  · cases named

namespace Call

variable {buf : Option Bytes} {foreign : Set FileName} {call : Call}

/-- But for `cmd_cat`, a call on a file runs as the function of the file system. -/
theorem run_file {file : FileCall} (onFile : file ∈ call.fileCall) (other : ∀ name, call ≠ .fatReadFile name) (fuel : Nat)
    (st : FatState) : call.run buf fuel st = (file.run fuel st).map fun result => (some result.1, result.2) := by
  cases call <;> first | cases onFile | skip
  · obtain ⟨name, named, rfl⟩ := Option.map_eq_some_iff.mp onFile
    rw [run, FileCall.run, fileName_text named, Option.map_map]
    rfl
  · obtain ⟨name, named, rfl⟩ := Option.map_eq_some_iff.mp onFile
    rw [run, FileCall.run, fileName_text named, Option.map_map]
    rfl
  · obtain ⟨name, named, renamed⟩ := Option.bind_eq_some_iff.mp onFile
    obtain ⟨neu, fresh, rfl⟩ := Option.map_eq_some_iff.mp renamed
    rw [run, FileCall.run, fileName_text named, fileName_text fresh, Option.map_map]
    rfl
  · exact absurd rfl (other _)

theorem run_quiet (keeps : Keeps foreign st store) (silent : call.quiet = true) :
    ∃ enough, ∀ fuel, enough ≤ fuel → ∃ st', call.run buf fuel st = some (none, st') ∧ Keeps foreign st' store := by
  cases call <;> first | cases silent; done | exact ⟨0, fun _ _ => ⟨st, rfl, keeps⟩⟩ | skip
  obtain ⟨enough, lists⟩ := keeps_listDir keeps
  refine ⟨enough, fun fuel more => ?_⟩
  obtain ⟨printed, result, still⟩ := lists fuel more
  exact ⟨printed, by rw [run, result, Option.map_some], still⟩

theorem run_cat {text : CString} (keeps : Keeps foreign st store)
    (served : (Call.fatReadFile text).Served foreign buf (st, store)) : ∃ enough, ∀ fuel, enough ≤ fuel → ∃ st',
      (Call.fatReadFile text).run buf fuel st =
        some ((Call.fatReadFile text).fileCall.map (FileStore.spec.answer store), st') ∧ Keeps foreign st' store := by
  obtain ⟨⟨given, fits⟩, served⟩ := served
  obtain ⟨out, rfl⟩ := Option.ne_none_iff_exists'.mp given
  cases named : fileName text with
  | none =>
    rw [fileCall, named] at served
    cases served
  | some name =>
    rw [fileCall, named] at served ⊢
    obtain rfl := fileName_text named
    obtain ⟨enough, runs⟩ := keeps_cat keeps served fits out
    refine ⟨enough, fun fuel more => ?_⟩
    obtain ⟨st', printed, still⟩ := runs fuel more
    exact ⟨st', by rw [run, printed]; rfl, still⟩

/-- A served call gives the answer of the map, if any, and the volume keeps the next map. -/
theorem run_serves (keeps : Keeps foreign st store) (served : call.Served foreign buf (st, store)) :
    ∃ enough, ∀ fuel, enough ≤ fuel → ∃ st',
      call.run buf fuel st = some (call.fileCall.map (FileStore.spec.answer store), st') ∧
        Keeps foreign st' (call.onStore store) := by
  by_cases reads : ∃ name, call = .fatReadFile name
  · obtain ⟨text, rfl⟩ := reads
    obtain ⟨enough, runs⟩ := run_cat keeps served
    refine ⟨enough, fun fuel more => ?_⟩
    obtain ⟨st', ran, still⟩ := runs fuel more
    refine ⟨st', ran, ?_⟩
    cases named : fileName text <;> rw [onStore, fileCall, named] <;> exact still
  · obtain ⟨_, served⟩ := served
    rw [onStore]
    cases file : call.fileCall with
    | some file' =>
      rw [file] at served
      obtain ⟨enough, runs⟩ := keeps.serves served
      refine ⟨enough, fun fuel more => ?_⟩
      obtain ⟨st', finished, still⟩ := runs fuel more
      exact ⟨st', by rw [run_file file (not_exists.mp reads), finished]; rfl, still⟩
    | none =>
      rw [file] at served
      exact run_quiet keeps served

theorem run_mono (served : call.Served foreign buf state) (finished : call.run buf fuel st = some result)
    (enough : fuel ≤ more) : call.run buf more st = some result := by
  by_cases reads : ∃ name, call = .fatReadFile name
  · obtain ⟨text, rfl⟩ := reads
    obtain ⟨_, printed, rfl⟩ := Option.map_eq_some_iff.mp finished
    rw [run, catFile_mono printed enough, Option.map_some]
  · obtain ⟨_, served⟩ := served
    cases file : call.fileCall with
    | some file' =>
      rw [run_file file (not_exists.mp reads)] at finished ⊢
      obtain ⟨_, returned, rfl⟩ := Option.map_eq_some_iff.mp finished
      rw [FileCall.run_mono returned enough, Option.map_some]
    | none =>
      rw [file] at served
      cases call <;> first | cases served; done | exact finished | skip
      obtain ⟨_, listed, rfl⟩ := Option.map_eq_some_iff.mp finished
      rw [run, fatListDir, loop_mono listed enough, Option.map_some]

/-- So what such a call gives is the answer of the map. -/
theorem run_keeps (keeps : Keeps foreign st store) (served : call.Served foreign buf (st, store))
    (ran : call.run buf fuel st = some (answer, st')) :
    answer = call.fileCall.map (FileStore.spec.answer store) ∧ Keeps foreign st' (call.onStore store) := by
  obtain ⟨enough, runs⟩ := run_serves keeps served
  obtain ⟨_, expected, still⟩ := runs (max fuel enough) (Nat.le_max_right _ _)
  rw [run_mono served ran (Nat.le_max_left _ _)] at expected
  cases expected
  exact ⟨rfl, still⟩

end Call

end LivlyOS.Shell
