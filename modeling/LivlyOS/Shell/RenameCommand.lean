import LivlyOS.Fs.Renaming
import LivlyOS.Shell.Dispatch

namespace LivlyOS.Shell

open LivlyOS.Lib LivlyOS.Proc LivlyOS.Fs

theorem nthWord_noSpace (index : Nat) (input : List UInt8) : 32 ∉ nthWord index input := by
  induction input generalizing index with
  | nil =>
    rw [nthWord_nil]
    exact List.not_mem_nil
  | cons c rest ih =>
    by_cases space : c = 32
    · subst space
      cases index with
      | zero =>
        rw [(nthWord_space 0 rest).1]
        exact List.not_mem_nil
      | succ index =>
        rw [(nthWord_space index rest).2]
        exact ih index
    · cases index with
      | zero =>
        rw [(nthWord_char 0 space rest).1, List.mem_cons, not_or]
        exact ⟨fun same => space same.symm, ih 0⟩
      | succ index =>
        rw [(nthWord_char index space rest).2]
        exact ih (index + 1)

theorem IsLine.word (line : IsLine input) (index : Nat) :
    ∀ byte ∈ (nthWord index input).take 63, 0x20 < byte ∧ byte < 0x80 := by
  intro byte member
  have inWord := List.mem_of_mem_take member
  obtain ⟨low, high⟩ := line.2 byte (nthWord_subset index input inWord)
  refine ⟨UInt8.lt_of_le_of_ne low ?_, high⟩
  rintro rfl
  exact nthWord_noSpace index input inWord

/-- Only `mv` renames, and it passes on what it is given. -/
theorem commands_rename (command) (listed : command ∈ commands)
    (called : command.2 stack arg arg2 = some [Call.fatRenameFile name neu]) : name = arg ∧ neu = arg2 := by
  simp only [commands, List.mem_cons, List.not_mem_nil, or_false] at listed
  rcases listed with rfl | rfl | rfl | rfl | rfl | rfl | rfl | rfl | rfl | rfl | rfl | rfl | rfl | rfl | rfl | rfl
  case inr.inr.inr.inr.inr.inr.inr.inl =>
    have calls : cmdCreateFile arg arg2 = [Call.fatRenameFile name neu] := Option.some.inj called
    unfold cmdCreateFile at calls
    split at calls <;> cases calls
  case inr.inr.inr.inr.inr.inr.inr.inr.inr.inl =>
    have calls : cmdMkdir stack arg = some [Call.fatRenameFile name neu] := called
    obtain ⟨_, _, copied⟩ := Option.bind_eq_some_iff.mp calls
    obtain ⟨_, _, made⟩ := Option.bind_eq_some_iff.mp copied
    cases made
  case inr.inr.inr.inr.inr.inr.inr.inr.inr.inr.inl =>
    have calls : cmdCd arg = [Call.fatRenameFile name neu] := Option.some.inj called
    unfold cmdCd at calls
    split at calls
    · cases calls
    · split at calls <;> cases calls
  case inr.inr.inr.inr.inr.inr.inr.inr.inr.inr.inr.inr.inl =>
    have calls : cmdRemoveFile arg = [Call.fatRenameFile name neu] := Option.some.inj called
    unfold cmdRemoveFile at calls
    split at calls <;> cases calls
  case inr.inr.inr.inr.inr.inr.inr.inr.inr.inr.inr.inr.inr.inl =>
    cases called
    exact ⟨rfl, rfl⟩
  case inr.inr.inr.inr.inr.inr.inr.inr.inr.inr.inr.inr.inr.inr.inr =>
    have calls : cmdCat arg = [Call.fatRenameFile name neu] := Option.some.inj called
    unfold cmdCat at calls
    split at calls <;> cases calls
  all_goals cases called

/-- The arguments of a rename are the second and the third word of the line. -/
theorem shellExecute_rename (line : IsLine input)
    (called : shellExecute stack input = some [Call.fatRenameFile name neu]) :
    name = (nthWord 1 input).take 63 ∧ neu = (nthWord 2 input).take 63 := by
  simp only [shellExecute, wordOf_eq input line.nonzero, bind, Option.bind_some] at called
  split at called
  · unfold shellExecuteSlash at called
    split at called
    · cases called
    · split at called <;> cases called
  · unfold dispatch at called
    split at called
    · rename_i command found
      exact commands_rename command (List.mem_of_find?_eq_some found) called
    · cases called

/-- A rename of the shell keeps to live names exactly when it is given an old name, the directory
has no slot that passes for an empty name, or one that starts with a space comes first. -/
theorem mv_live_iff {st : FatState} (wf : st.boot.WellFormed) (lagging : Lagging st)
    (directory : FatChain st.boot st.disk st.cwdCluster dirs) (ended : EndsInZeros st.boot st.disk dirs)
    (enough : dirs.length ≤ fuel) (line : IsLine input)
    (called : shellExecute stack input = some [.fatRenameFile name neu]) :
    ∃ st', fatRenameFile fuel name neu st = some st' ∧
      (TouchesLiveName st.boot st.disk st'.disk dirs name neu ↔ name ≠ [] ∨ SparesFree st.boot st.disk dirs) := by
  obtain ⟨rfl, rfl⟩ := shellExecute_rename line called
  refine fatRenameFile_live_iff wf lagging directory ended enough (line.word 1) fun zero => ?_
  exact absurd (line.word 2 0 zero).1 (by decide)

/-- `mv A b` gives the file `A` its new name. -/
theorem mv_live_iff_oneFile :
    ∃ st', fatRenameFile 1 [0x41] [0x62] (mounted oneFileVolume) = some st' ∧
      (firstHit sampleBoot st'.disk (Sector.slotMatches [0x62]) [2]).isSome = true ∧
      TouchesLiveName sampleBoot (mounted oneFileVolume).disk st'.disk [2] [0x41] [0x62] := by
  have boot : (mounted oneFileVolume).boot = sampleBoot := (mounted_image _ _ _).1
  have live := @mv_live_iff [2] 1 (bytes "mv A b") (fun _ => 0) [0x41] [0x62] (mounted oneFileVolume)
  rw [boot] at live
  obtain ⟨st', ran, touches⟩ := live sampleBoot_wellFormed ((mounted_coherent _).lagging (boot ▸ sampleBoot_wellFormed.layout))
    ⟨.last (nextOf_last (by decide +kernel)), by decide⟩ (by unfold EndsInZeros; decide +kernel) (by decide) (by decide) (by decide)
  refine ⟨st', ran, ?_, touches.mpr (.inl (List.cons_ne_nil _ _))⟩
  have renamed : (fatRenameFile 1 [0x41] [0x62] (mounted oneFileVolume)).map (fun st =>
      (firstHit sampleBoot st.disk (Sector.slotMatches [0x62]) [2]).isSome) = some true := by
    decide +kernel
  rw [ran] at renamed
  exact Option.some.inj renamed

theorem emptyVolume_ended : EndsInZeros sampleBoot emptyVolume [2] := by
  unfold EndsInZeros
  decide +kernel

/-- `mv` without arguments in an empty directory gives the first free slot a name. -/
theorem mv_writesFreeSlot :
    IsLine (bytes "mv") ∧ shellExecute (fun _ => 0) (bytes "mv") = some [.fatRenameFile [] []] ∧
      sampleBoot.WellFormed ∧ (mounted emptyVolume).boot = sampleBoot ∧
      FatChain sampleBoot emptyVolume (mounted emptyVolume).cwdCluster [2] ∧ EndsInZeros sampleBoot emptyVolume [2] ∧
      ∃ st', fatRenameFile 1 [] [] (mounted emptyVolume) = some st' ∧
        ¬TouchesLiveName sampleBoot emptyVolume st'.disk [2] [] [] := by
  have boot : (mounted emptyVolume).boot = sampleBoot := (mounted_image _ _ _).1
  have chain : FatChain sampleBoot emptyVolume (mounted emptyVolume).cwdCluster [2] :=
    ⟨.last (nextOf_last (by decide +kernel)), by decide⟩
  have renamed := @fatRenameFile_live_iff [2] 1 [] [] (mounted emptyVolume)
  rw [boot] at renamed
  obtain ⟨st', ran, live⟩ := renamed sampleBoot_wellFormed
    ((mounted_coherent _).lagging (boot ▸ sampleBoot_wellFormed.layout)) chain emptyVolume_ended (by decide)
    (List.forall_mem_nil _) (by decide)
  refine ⟨by decide, by decide, sampleBoot_wellFormed, boot, chain, emptyVolume_ended, st', ran, ?_⟩
  intro touches
  rcases live.mp touches with filled | ⟨place, member, space⟩ | unblank
  · exact filled rfl
  · revert place
    decide +kernel
  · refine unblank ⟨2, 0, 0⟩ (by decide) ⟨8, Nat.le_refl 8, by decide, ?_, .inl rfl⟩
    decide +kernel

end LivlyOS.Shell
