import LivlyOS.Fs.Effects
import LivlyOS.Fs.Ownership
import LivlyOS.Fs.Saving

namespace LivlyOS.Fs

open LivlyOS.Lib

/-- The name matches this slot of the directory `dirs` and no other one. -/
structure OnlyMatch (boot : FAT32BootSector) (disk : Disk) (dirs : List Nat) (name : CString)
    (owner s slot : Nat) : Prop where
  member : owner ∈ dirs
  inside : s < boot.spc
  below : slot < 16
  hits : (clusterData boot disk owner s).slotMatches name slot = true
  only : ∀ cluster ∈ dirs, ∀ t < boot.spc, ∀ index < 16, (clusterData boot disk cluster t).slotMatches name index = true →
    cluster = owner ∧ t = s ∧ index = slot

/-- The slot is marked as deleted, the entries of its chain are zero, and nothing else has changed. -/
structure FileDeleted (boot : FAT32BootSector) (disk disk' : Disk) (owner s slot : Nat) (clusters : List Nat) : Prop where
  mark : (clusterData boot disk' owner s).nameByte slot 0 = 0xE5
  freed : ∀ cluster ∈ clusters, fatEntry boot disk' cluster = 0
  changes : ChangesOnly (fun lba position => (lba = ataLba (boot.clusterLba owner s) ∧ position = 32 * slot) ∨
    ∃ cluster ∈ clusters, EntryBytes boot cluster lba position) disk disk'

variable {boot : FAT32BootSector}

theorem clearEntries_changes (clusters : List Nat) (disk : Disk) :
    ChangesOnly (fun lba position => ∃ cluster ∈ clusters, EntryBytes boot cluster lba position) disk
      (clearEntries boot clusters disk) := by
  induction clusters generalizing disk with
  | nil => exact .refl _ disk
  | cons cluster rest ih =>
    unfold clearEntries
    refine ((setFatEntry_changes cluster 0 disk).mono ?_).trans ((ih _).mono ?_)
    · exact fun _ _ inEntry => ⟨cluster, List.mem_cons_self, inEntry⟩
    · rintro _ _ ⟨other, member, inEntry⟩
      exact ⟨other, List.mem_cons_of_mem _ member, inEntry⟩

theorem deleteSlots_absent {buf : Sector} (absent : ∀ slot ∈ slots, buf.slotMatches name slot = false) (lba : Nat)
    (st : FatState) : deleteSlots fuel name lba slots buf st = some st := by
  induction slots with
  | nil => rfl
  | cons slot rest ih =>
    rw [deleteSlots, if_neg (by rw [absent slot List.mem_cons_self]; decide)]
    exact ih fun other member => absent other (List.mem_cons_of_mem _ member)

/-- A single match is marked and its chain freed, the other slots are passed over. -/
theorem deleteSlots_only {buf : Sector} (nodup : slots.Nodup) (member : slot ∈ slots)
    (hits : buf.slotMatches name slot = true)
    (only : ∀ other ∈ slots, other ≠ slot → buf.slotMatches name other = false)
    (freed : loop freeTurn fuel (buf.slotCluster slot,
      { st with disk := ataWriteSector st.disk lba (buf.putByte slot 0 0xE5) }) = some st') :
    deleteSlots fuel name lba slots buf st = some st' := by
  induction slots with
  | nil => exact absurd member List.not_mem_nil
  | cons head rest ih =>
    obtain ⟨fresh, nodup⟩ := List.nodup_cons.mp nodup
    unfold deleteSlots
    by_cases here : head = slot
    · subst here
      rw [if_pos hits]
      dsimp only
      rw [freed]
      apply deleteSlots_absent
      intro other inRest
      have different : other ≠ head := fun same => fresh (same ▸ inRest)
      rw [(buf.putByte_sameSlot 0 0xE5 (by decide) different).slotMatches]
      exact only other (List.mem_cons_of_mem _ inRest) different
    · rw [if_neg (by rw [only head List.mem_cons_self here]; decide)]
      exact ih nodup (Or.resolve_left (List.mem_cons.mp member) fun same => here same.symm)
        fun other inRest => only other (List.mem_cons_of_mem _ inRest)

theorem OnlyMatch.firstHit (only : OnlyMatch boot disk dirs name owner s slot) :
    firstHit boot disk (Sector.slotMatches name) dirs =
      some ⟨boot.clusterLba owner s, clusterData boot disk owner s, slot⟩ := by
  cases found : Fs.firstHit boot disk (Sector.slotMatches name) dirs with
  | none =>
    have missed := firstHit_none found owner only.member s only.inside slot only.below
    rw [only.hits] at missed
    cases missed
  | some hit =>
    obtain ⟨cluster, t, place⟩ := firstHit_some found
    obtain ⟨below, hits, _⟩ := findInSector_some place.found
    rw [place.buf] at hits
    obtain ⟨rfl, rfl, same⟩ := only.only cluster place.member t place.inside hit.slot below hits
    rw [← place.lba, ← place.buf, ← same]

/-- Deleting a file marks its slot and clears the entries of its chain on disk, for chains of any
length in any order. -/
theorem fatDeleteFile_exact {st : FatState} (wf : st.boot.WellFormed) (lagging : Lagging st)
    (directory : FatChain st.boot st.disk st.cwdCluster dirs)
    (only : OnlyMatch st.boot st.disk dirs name owner s slot)
    (file : FatChain st.boot st.disk ((clusterData st.boot st.disk owner s).slotCluster slot) clusters)
    (enough : dirs.length ≤ fuel) (more : clusters.length < fuel) :
    ∃ st', fatDeleteFile fuel name st = some st' ∧ FileDeleted st.boot st.disk st'.disk owner s slot clusters := by
  obtain ⟨mid, located, loaded⟩ := locate_eq lagging directory enough name
  have lagging₁ := lagging.loaded loaded
  obtain ⟨_, _, _, _, nr, cached, dirty, console⟩ := mid
  obtain ⟨⟨rfl, rfl, rfl⟩, rfl, -, -⟩ := loaded
  have data := directory.data owner only.member
  have inRange : ∀ cluster ∈ clusters, cluster < st.boot.totalClusters + 2 :=
    fun cluster member => (file.data cluster member).2
  generalize marked : ataWriteSector st.disk (st.boot.clusterLba owner s)
    ((clusterData st.boot st.disk owner s).putByte slot 0 0xE5) = disk
  have sameFat : ∀ lba, st.boot.IsFatSector lba → ataReadSector disk lba = ataReadSector st.disk lba := by
    intro lba fat
    rw [← marked]
    exact readFat_writeData wf st.disk _ data only.inside fat
  have lagging₂ := lagging₁.rewrite wf.layout disk sameFat
  have file' : FatChain st.boot disk ((clusterData st.boot st.disk owner s).slotCluster slot) clusters :=
    file.congr fun cluster member => fatEntry_congr wf.layout sameFat (inRange cluster member)
  obtain ⟨st', freed, cleared, _⟩ := freeLoop_eq (by exact wf) lagging₂ (by exact file') more
  subst marked
  refine ⟨st', ?_, ?_⟩
  · rw [fatDeleteFile, located, only.firstHit]
    refine deleteSlots_only List.nodup_range (List.mem_range.mpr only.below) only.hits ?_ freed
    intro other inside different
    by_contra hits
    exact different (only.only owner only.member s only.inside other (List.mem_range.mp inside)
      (Bool.not_eq_false _ ▸ hits)).2.2
  · rw [cleared]
    refine ⟨?_, fun cluster member => ?_, ?_⟩
    · rw [clusterData_clearEntries wf inRange _ data only.inside, clusterData_write wf _ _ data data only.inside only.inside,
        if_pos ⟨rfl, rfl⟩]
      exact Sector.putByte_same _ only.below (by decide) 0xE5
    · rw [fatEntry_clearEntries wf inRange _ (inRange cluster member), if_pos member]
    · refine (ChangesOnly.write _ ?_).trans ((clearEntries_changes clusters _).mono fun _ _ => .inr)
      intro position outside
      have other : position.val ≠ 32 * slot + 0 := fun here => outside (.inl ⟨rfl, here⟩)
      have stays := (clusterData st.boot st.disk owner s).putByte_other 0xE5 other
      rw [Sector.bytes_fin, Sector.bytes_fin] at stays
      exact stays

/-- The file `A` in the clusters 3 and 4. -/
theorem fatDeleteFile_exact_twoClusters : ∃ st', fatDeleteFile 3 [0x41] (mounted twoClusterVolume) = some st' ∧
    FileDeleted sampleBoot (mounted twoClusterVolume).disk st'.disk 2 0 0 [3, 4] := by
  have boot : (mounted twoClusterVolume).boot = sampleBoot := (mounted_image _ _ _).1
  have deleted := @fatDeleteFile_exact [2] [0x41] 2 0 0 [3, 4] 3 (mounted twoClusterVolume)
  rw [boot] at deleted
  apply deleted sampleBoot_wellFormed ((mounted_coherent _).lagging (boot ▸ sampleBoot_wellFormed.layout))
  · exact ⟨.last (nextOf_last (by decide +kernel)), by decide⟩
  · exact ⟨by decide, by decide, by decide, by decide +kernel, by decide +kernel⟩
  · have first : (clusterData sampleBoot (mounted twoClusterVolume).disk 2 0).slotCluster 0 = 3 := by decide +kernel
    rw [first]
    exact ⟨.link (nextOf_link (by decide +kernel) (by decide)) (.last (nextOf_last (by decide +kernel))), by decide⟩
  · decide
  · decide

end LivlyOS.Fs
