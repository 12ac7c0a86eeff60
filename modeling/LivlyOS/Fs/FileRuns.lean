import LivlyOS.Fs.FileCreation

namespace LivlyOS.Fs

open LivlyOS.Lib

theorem deleteSlots_mono (finished : deleteSlots fuel name lba slots buf st = some result) (enough : fuel ≤ more) :
    deleteSlots more name lba slots buf st = some result := by
  induction slots generalizing buf st with
  | nil => exact finished
  | cons slot rest ih =>
    rw [deleteSlots] at finished ⊢
    split at finished
    · rw [if_pos ‹_›]
      simp only at finished ⊢
      split at finished
      · cases finished
      · rename_i freed
        rw [loop_mono freed enough]
        exact ih finished
    · rw [if_neg ‹_›]
      exact ih finished

theorem fatDeleteFile_mono (finished : fatDeleteFile fuel name st = some result) (enough : fuel ≤ more) :
    fatDeleteFile more name st = some result := by
  rw [fatDeleteFile] at finished ⊢
  split at finished
  · cases finished
  · rename_i located
    rw [locate, loop_mono located enough]
    exact finished
  · rename_i located
    rw [locate, loop_mono located enough]
    exact deleteSlots_mono finished enough

theorem fatRenameFile_mono (finished : fatRenameFile fuel name newName st = some result) (enough : fuel ≤ more) :
    fatRenameFile more name newName st = some result := by
  rw [fatRenameFile] at finished ⊢
  split at finished
  · cases finished
  all_goals
    rename_i located
    rw [locate, loop_mono located enough]
    exact finished

theorem fatReadFile_mono (finished : fatReadFile fuel name out st = some result) (enough : fuel ≤ more) :
    fatReadFile more name out st = some result := by
  rw [fatReadFile] at finished ⊢
  split at finished
  · cases finished
  · rename_i located
    rw [locate, loop_mono located enough]
    exact finished
  · rename_i located
    rw [locate, loop_mono located enough]
    simp only at finished ⊢
    split at finished
    · rw [if_pos ‹_›]
      exact finished
    · rw [if_neg ‹_›]
      split at finished
      · cases finished
      · rename_i read
        rw [loop_mono read enough]
        exact finished

theorem fatWriteData_mono (finished : fatWriteData fuel name buf size st = some result) (enough : fuel ≤ more) :
    fatWriteData more name buf size st = some result := by
  rw [fatWriteData] at finished ⊢
  split at finished
  · cases finished
  all_goals
    rename_i located
    rw [locate, loop_mono located enough]
    exact loop_mono finished enough

namespace FileCall

theorem run_mono {call : FileCall} (finished : call.run fuel st = some result) (enough : fuel ≤ more) :
    call.run more st = some result := by
  cases call <;> obtain ⟨_, returned, rfl⟩ := Option.map_eq_some_iff.mp finished
  · rw [run, fatWriteFile_mono returned enough, Option.map_some]
  · rw [run, fatWriteData_mono returned enough, Option.map_some]
  · rw [run, fatReadFile_mono returned enough, Option.map_some]
  · rw [run, fatDeleteFile_mono returned enough, Option.map_some]
  · rw [run, fatRenameFile_mono returned enough, Option.map_some]

/-- The call returns, with this answer. -/
def Answers (st : FatState) (call : FileCall) (answer : FileAnswer) (st' : FatState) : Prop :=
  ∃ fuel, call.run fuel st = some (answer, st')

/-- The driver looks for a file where it is: the name is no foreign one, a new file has room for
its entry and its first cluster, data has room behind what the cache shows, and a new name is
not taken. Names that are there are found again only in the first sector of a cluster. -/
def Served (foreign : Set FileName) (state : FatState × FileStore) : FileCall → Prop
  | .create name _ => name ∉ foreign ∧ (state.2 name = none → 2 ≤ (visibleFree state.1).card) ∧
      (state.2 name ≠ none → state.1.boot.spc = 1)
  | .save name _ size => state.2 name ≠ none ∧ size + state.1.boot.clusterSize ≤ 4294967296 ∧
      size ≤ ((visibleFree state.1).card + 1) * state.1.boot.clusterSize
  | .load name _ => name ∉ foreign
  | .remove name => name ∉ foreign
  | .rename name newName => name ∉ foreign ∧
      (state.2 name ≠ none → newName ∉ foreign ∧ (newName = name ∨ state.2 newName = none))

end FileCall

variable {foreign : Set FileName}

/-- A served call returns, answers as the map does and leaves a volume that keeps the next map. -/
theorem Keeps.serves {call : FileCall} (keeps : Keeps foreign st store) (served : call.Served foreign (st, store)) :
    ∃ enough, ∀ fuel, enough ≤ fuel → ∃ st',
      call.run fuel st = some (FileStore.spec.answer store call, st') ∧ Keeps foreign st' (FileStore.spec.next store call) := by
  obtain ⟨layout, holds⟩ := keeps
  cases call with
  | create name ext => exact holds.create served.1 ext served.2.1 served.2.2
  | save name buf size => exact holds.save served.1 buf served.2.1 served.2.2
  | load name out =>
    obtain ⟨enough, runs⟩ := holds.load served out
    refine ⟨enough, fun fuel more => ?_⟩
    obtain ⟨st', ran, still⟩ := runs fuel more
    exact ⟨st', ran, layout, still⟩
  | remove name => exact holds.remove served
  | rename name newName => exact holds.rename served.1 served.2

theorem Keeps.answers {call : FileCall} (keeps : Keeps foreign st store) (served : call.Served foreign (st, store)) :
    ∃ st', call.Answers st (FileStore.spec.answer store call) st' ∧ Keeps foreign st' (FileStore.spec.next store call) := by
  obtain ⟨enough, runs⟩ := keeps.serves served
  obtain ⟨st', ran, still⟩ := runs enough (Nat.le_refl _)
  exact ⟨st', ⟨enough, ran⟩, still⟩

theorem fileCalls_meet (foreign : Set FileName) :
    FileStore.spec.Meets FileCall.Answers (FileCall.Served foreign) (Keeps foreign) := by
  rintro st store call answer st' keeps served ⟨fuel, ran⟩
  obtain ⟨enough, runs⟩ := keeps.serves served
  obtain ⟨other, expected, still⟩ := runs (max fuel enough) (Nat.le_max_right _ _)
  rw [FileCall.run_mono ran (Nat.le_max_left _ _)] at expected
  cases expected
  exact ⟨rfl, still⟩

/-- Along every run of served calls the driver is the map: it gives the answers of the map,
the volume keeps the map at the end, and the next served call returns. -/
theorem fileStore_run (keeps : Keeps foreign start.1 start.2)
    (run : Run (FileStore.spec.Step FileCall.Answers) (fun state call => FileCall.Served foreign state call.1) start trace stop) :
    trace.map Prod.snd = FileStore.spec.answers start.2 (trace.map Prod.fst) ∧
      stop.2 = FileStore.spec.after start.2 (trace.map Prod.fst) ∧ Keeps foreign stop.1 stop.2 ∧
      ∀ call, FileCall.Served foreign stop call → ∃ st', FileCall.Answers stop.1 call (FileStore.spec.answer stop.2 call) st' := by
  obtain ⟨answers, reached, still⟩ := (fileCalls_meet foreign).run run keeps
  refine ⟨answers, reached, still, fun call served => ?_⟩
  obtain ⟨st', answered, _⟩ := still.answers served
  exact ⟨st', answered⟩

/-- A directory without an entry keeps the empty map. -/
theorem Keeps.empty (wf : st.boot.WellFormed) (lagging : Lagging st) (directory : FatChain st.boot st.disk st.cwdCluster dirs)
    (bare : ∀ place : Place, place.In st.boot dirs → place.first st.boot st.disk = 0) :
    Keeps foreign st fun _ => none := by
  have unused : ∀ place : Place, place.In st.boot dirs → ¬place.Used st.boot st.disk :=
    fun place inside used => used.first (bare place inside)
  refine ⟨⟨dirs, fun _ => ⟨0, 0, 0⟩, fun _ => []⟩, wf, lagging, directory, ?_, fun place inside used => absurd used (unused place inside),
    fun _ _ stored => (nomatch stored), fun place inside _ _ shown => absurd shown.used (unused place inside), fun _ _ => rfl,
    fun _ stored => absurd rfl stored, fun _ _ stored => absurd rfl stored⟩
  refine List.pairwise_of_forall_mem_list fun _ _ later member _ => ?_
  exact bare later (mem_places.mp member)

theorem emptyVolume_keeps : Keeps foreign (mounted emptyVolume) fun _ => none := by
  have boot : (mounted emptyVolume).boot = sampleBoot := (mounted_image _ _ _).1
  have wf : (mounted emptyVolume).boot.WellFormed := boot ▸ sampleBoot_wellFormed
  have directory : FatChain (mounted emptyVolume).boot (mounted emptyVolume).disk 2 [2] := by
    rw [boot]
    exact emptyVolume_directory
  have zero : ∀ s < (mounted emptyVolume).boot.spc, ∀ slot < 16,
      Place.first (mounted emptyVolume).boot (mounted emptyVolume).disk ⟨2, s, slot⟩ = 0 := by decide +kernel
  refine Keeps.empty wf ((mounted_coherent emptyVolume).lagging wf.layout) directory ?_
  rintro ⟨cluster, s, slot⟩ ⟨member, inside, below⟩
  cases List.mem_singleton.mp member
  exact zero s inside slot below

def fileA : FileName := ⟨[0x41], List.forall_mem_singleton.mpr (by decide), List.cons_ne_nil _ _, by decide⟩

def fileB : FileName := ⟨[0x42], List.forall_mem_singleton.mpr (by decide), List.cons_ne_nil _ _, by decide⟩

namespace FileCall

theorem Answers.both {first second : FileCall} (made : first.Answers st answer mid) (next : second.Answers mid answer' st')
    (short : (first.run fuel st).bind (fun result => second.run fuel result.2) = some result) : (answer', st') = result := by
  obtain ⟨fuel1, made⟩ := made
  obtain ⟨fuel2, next⟩ := next
  obtain ⟨⟨_, mid'⟩, early, late⟩ := Option.bind_eq_some_iff.mp short
  cases (run_mono early (Nat.le_max_left fuel fuel1)).symm.trans (run_mono made (Nat.le_max_right fuel fuel1))
  exact Option.some.inj ((run_mono next (Nat.le_max_right fuel fuel2)).symm.trans (run_mono late (Nat.le_max_left fuel fuel2)))

end FileCall

/-- Creating a file on the empty volume and saving to it. -/
theorem emptyVolume_saved : ∃ st,
    Run (FileStore.spec.Step FileCall.Answers) (fun state call => FileCall.Served ∅ state call.1)
      (mounted emptyVolume, fun _ => none)
      [(.create fileA [0x54], .done), (.save fileA (fun index => UInt8.ofNat index) 3, .done)]
      (st, FileStore.spec.after (fun _ => none) [.create fileA [0x54], .save fileA (fun index => UInt8.ofNat index) 3]) ∧
    st.boot.totalClusters * st.boot.clusterSize = 9216 := by
  have started : Keeps ∅ (mounted emptyVolume) fun _ => none := emptyVolume_keeps
  have room : 2 ≤ (visibleFree (mounted emptyVolume)).card := by decide +kernel
  have first : (FileCall.create fileA [0x54]).Served ∅ (mounted emptyVolume, fun _ => none) :=
    ⟨by simp, fun _ => room, fun stored => absurd rfl stored⟩
  obtain ⟨st1, made, keeps⟩ := started.answers first
  have size : st1.boot.clusterSize = 512 := by
    obtain ⟨fuel, made⟩ := made
    have known : ((FileCall.create fileA [0x54]).run 3 (mounted emptyVolume)).map (fun result => result.2.boot.clusterSize) = some 512 := by
      decide +kernel
    obtain ⟨result, short, size⟩ := Option.map_eq_some_iff.mp known
    have same := (FileCall.run_mono short (Nat.le_max_left 3 fuel)).symm.trans (FileCall.run_mono made (Nat.le_max_right 3 fuel))
    cases same
    exact size
  have second : (FileCall.save fileA (fun index => UInt8.ofNat index) 3).Served ∅
      (st1, FileStore.spec.after (fun _ => none) [.create fileA [0x54]]) :=
    ⟨by simp [Spec.after, FileStore.spec, FileStore.create], by rw [size]; decide, by rw [size]; omega⟩
  obtain ⟨st2, saved, -⟩ := keeps.answers second
  have bytes : (((FileCall.create fileA [0x54]).run 3 (mounted emptyVolume)).bind fun result =>
      (FileCall.save fileA (fun index => UInt8.ofNat index) 3).run 3 result.2).map
        (fun result => result.2.boot.totalClusters * result.2.boot.clusterSize) = some 9216 := by
    decide +kernel
  obtain ⟨result, short, bytes⟩ := Option.map_eq_some_iff.mp bytes
  cases made.both saved short
  exact ⟨st2, Spec.call first made (Spec.call second saved .done), bytes⟩

theorem fileStore_run_emptyVolume : ∃ trace stop,
    Run (FileStore.spec.Step FileCall.Answers) (fun state call => FileCall.Served ∅ state call.1)
      (mounted emptyVolume, fun _ => none) trace stop ∧
    trace.map Prod.fst = [.create fileA [0x54], .save fileA (fun index => UInt8.ofNat index) 3, .rename fileA fileB,
      .load fileB fun _ => 0, .remove fileB, .load fileB fun _ => 0] ∧
    trace.map Prod.snd = [.done, .done, .done, .contents [0, 1, 2], .done, .contents []] ∧ Keeps ∅ stop.1 stop.2 := by
  have started : Keeps ∅ (mounted emptyVolume) fun _ => none := emptyVolume_keeps
  obtain ⟨st, run, _⟩ := emptyVolume_saved
  obtain ⟨_, _, keeps⟩ := (fileCalls_meet ∅).run run started
  have renames : (FileCall.rename fileA fileB).Served ∅ (st, FileStore.spec.after (fun _ => none)
      [.create fileA [0x54], .save fileA (fun index => UInt8.ofNat index) 3]) := ⟨by simp, fun _ => ⟨by simp, .inr rfl⟩⟩
  obtain ⟨_, renamed, keeps⟩ := keeps.answers renames
  have any : ∀ state, (FileCall.load fileB fun _ => 0).Served ∅ state ∧ (FileCall.remove fileB).Served ∅ state := by
    simp [FileCall.Served]
  obtain ⟨_, loaded, keeps⟩ := keeps.answers (any _).1
  obtain ⟨_, removed, keeps⟩ := keeps.answers (any _).2
  obtain ⟨_, missed, -⟩ := keeps.answers (any _).1
  have run := run.append <| Spec.call renames renamed <| Spec.call (any _).1 loaded <| Spec.call (any _).2 removed <|
    Spec.call (any _).1 missed .done
  obtain ⟨answers, -, kept, -⟩ := fileStore_run started run
  exact ⟨_, _, run, rfl, answers.trans rfl, kept⟩

end LivlyOS.Fs
