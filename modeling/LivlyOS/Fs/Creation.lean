import LivlyOS.Fs.Ownership

namespace LivlyOS.Fs

open LivlyOS.Lib

namespace Sector

/-- A slot that holds a directory link. -/
def setLink (sector : Sector) (slot : Nat) (name : CString) (cluster : Nat) : Sector :=
  (((sector.setName slot name).setExt slot []).putByte slot 11 0x10).setCluster slot cluster

theorem setLink_other (sector : Sector) {slot other : Nat} (name : CString) (cluster : Nat)
    (different : other ≠ slot) : SameSlot (sector.setLink slot name cluster) sector other := by
  apply sameSlot_of_outside different
  intro position outside
  rw [setLink, setCluster_other _ (by omega), putByte_other _ _ (by omega),
    setExt_other _ _ (by omega), setName_other _ _ (by omega)]

theorem setLink_cluster (sector : Sector) {slot cluster : Nat} (name : CString) (inside : slot < 16)
    (small : cluster < 4294967296) : (sector.setLink slot name cluster).slotCluster slot = cluster :=
  slotCluster_setCluster _ inside small

theorem setLink_nameByte (sector : Sector) {slot index : Nat} (stored : CString) (cluster : Nat)
    (inside : slot < 16) (below : index < 8) :
    (sector.setLink slot stored cluster).nameByte slot index = (padField 8 stored).getD index 0 := by
  rw [← setName_nameByte sector inside stored below]
  change (sector.setLink slot stored cluster).bytes _ = (sector.setName slot stored).bytes _
  rw [setLink, setCluster_other _ (by omega), putByte_other _ _ (by omega), setExt_other _ _ (by omega)]

/-- What the slot matches only depends on the name stored in it. -/
theorem setLink_matches (sector : Sector) {slot : Nat} (stored : CString) (cluster : Nat)
    (inside : slot < 16) (name : CString) :
    (sector.setLink slot stored cluster).slotMatches name slot =
      strEqualFat (fun index => (padField 8 stored).getD index 0) name :=
  strEqualFat_congr (fun _ below => setLink_nameByte sector stored cluster inside below)

end Sector

theorem dirSector_eq (n parent : Nat) :
    dirSector n parent = (Sector.zero.setLink 0 [0x2E] n).setLink 1 [0x2E, 0x2E] parent := rfl

/-- The first entry of a new directory is `.`, the second `..`, the rest is free. -/
theorem dirSector_links (small : n < 4294967296) (parentSmall : parent < 4294967296)
    (inside : slot < 16) (used : (dirSector n parent).slotFree slot = false) :
    (dirSector n parent).slotDot slot = true ∧
      ((dirSector n parent).slotCluster slot = n ∨ (dirSector n parent).slotCluster slot = parent) := by
  have first : ∀ other, other ≠ 1 →
      Sector.SameSlot (dirSector n parent) (Sector.zero.setLink 0 [0x2E] n) other :=
    fun other different => Sector.setLink_other _ [0x2E, 0x2E] parent different
  match slot with
  | 0 =>
    have same := first 0 (by decide)
    constructor
    · rw [Sector.slotDot, same.slotMatches, Sector.setLink_matches _ _ _ (by decide)]
      rfl
    · left
      rw [same.slotCluster, Sector.setLink_cluster _ _ (by decide) small]
  | 1 =>
    rw [dirSector_eq]
    constructor
    · rw [Sector.slotDot, Sector.setLink_matches _ _ _ (by decide), Sector.setLink_matches _ _ _ (by decide)]
      rfl
    · exact .inr (Sector.setLink_cluster _ _ (by decide) parentSmall)
  | other + 2 =>
    have same := (first (other + 2) (by omega)).trans
      (Sector.setLink_other Sector.zero [0x2E] n (by omega : other + 2 ≠ 0))
    rw [same.slotFree, Sector.zero_slotFree] at used
    cases used

/-- A name that begins with neither a NUL nor a dot. -/
def CString.Plain (name : CString) : Prop := name.at 0 ≠ 0 ∧ name.at 0 ≠ 0x2E

instance (name : CString) : Decidable name.Plain := inferInstanceAs (Decidable (_ ∧ _))

/-- A slot that matches a plain name is neither `.` nor `..`. -/
theorem CString.Plain.notDot {name : CString} (plain : name.Plain) {sector : Sector}
    (first : sector.nameByte slot 0 = name.at 0) : sector.slotDot slot = false := by
  apply Sector.slotDot_ne
  rw [first]
  exact plain.2

theorem createdSlot_plain {name : CString} (plain : name.Plain) (ext : CString) (attributes : UInt8)
    (buf : Sector) {slot : Nat} (cluster : Nat) (inside : slot < 16) :
    (createdSlot name ext attributes buf slot cluster).slotDot slot = false := by
  apply plain.notDot
  cases name with
  | nil => exact absurd rfl plain.1
  | cons first rest => exact createdSlot_first first rest ext attributes buf cluster inside plain.1

theorem SlotKept.renamed {name newName : CString} (plain : name.Plain) (newPlain : newName.Plain)
    {sector : Sector} (inside : slot < 16) (hits : sector.slotMatches name slot = true)
    (inUse : sector.slotFree slot = false)
    (used : (sector.setName slot newName).slotFree other = false) :
    SlotKept sector (sector.setName slot newName) other := by
  by_cases same : other = slot
  · subst same
    have before : sector.slotDot other = false := by
      apply plain.notDot
      cases name with
      | nil => exact absurd rfl plain.1
      | cons first rest => exact Sector.slotMatches_first hits plain.1
    have after : (sector.setName other newName).slotDot other = false := by
      apply newPlain.notDot
      cases newName with
      | nil => exact absurd rfl newPlain.1
      | cons first rest => exact sector.setName_first inside first rest newPlain.1
    refine ⟨inUse, after.trans before.symm, ?_, ?_⟩
    · exact Sector.slotCluster_congr (fun index _ _ => Sector.setName_other _ _ (by omega))
    · rw [Sector.slotDirectory, Sector.slotDirectory, Sector.attributes, Sector.attributes,
        Sector.setName_other _ _ (by omega)]
  · refine .ofSame (Sector.sameSlot_of_outside same ?_) used
    exact fun position outside => Sector.setName_other _ _ (by omega)

/-- The entry of a new chain of one cluster, in a free slot of a directory. -/
theorem Tree.create (tree : Tree boot disk cat) (wf : boot.WellFormed) (inDir : cat.DirCluster target)
    (inside : index < 16) (free : (dirSectorOf boot disk target).slotFree index = true)
    {name : CString} (plain : name.Plain) (data : boot.DataCluster n)
    (fresh : fatEntry boot disk n = 0) (last : fatEntry boot disk' n = 0x0FFFFFFF)
    (entries : ∀ cluster, cluster < boot.totalClusters + 2 → fatEntry boot disk cluster ≠ 0 →
      fatEntry boot disk' cluster = fatEntry boot disk cluster)
    (sector : dirSectorOf boot disk' target =
      createdSlot name ext attributes (dirSectorOf boot disk target) index n)
    (others : ∀ cluster, cat.DirCluster cluster → cluster ≠ target →
      dirSectorOf boot disk' cluster = dirSectorOf boot disk cluster)
    (parent : cat.DirCluster up)
    (links : attributes &&& 0x10 ≠ 0 → dirSectorOf boot disk' n = dirSector n up) :
    ∃ cat', Tree boot disk' cat' ∧ ∀ cluster, cat.DirCluster cluster → cat'.DirCluster cluster := by
  have small : ∀ cluster, boot.DataCluster cluster → cluster < 4294967296 := by
    intro cluster member
    have bound := wf.totalClusters_lt
    have high := member.2
    omega
  have chains : ∀ file ∈ cat.files, ∀ cluster ∈ cat.chains file,
      fatEntry boot disk' cluster = fatEntry boot disk cluster :=
    fun file member cluster inChain => entries cluster
      ((tree.chain file member).data cluster inChain).2 (tree.used member inChain)
  have slots : ∀ cluster, cat.DirCluster cluster → ∀ slot < 16, cluster ≠ target ∨ slot ≠ index →
      Sector.SameSlot (dirSectorOf boot disk' cluster) (dirSectorOf boot disk cluster) slot := by
    intro cluster clusterInDir slot _ elsewhere
    by_cases same : cluster = target
    · subst same
      rw [sector]
      exact createdSlot_other name ext attributes _ n (elsewhere.resolve_left (fun differs => differs rfl))
    · rw [others cluster clusterInDir same]
      exact .refl _ _
  by_cases used : (dirSectorOf boot disk' target).slotFree index = false
  · -- the new name is in use: the catalog grows
    have newDir : n ∉ cat.dirs := by
      intro member
      have file := tree.dirs_files n member
      exact tree.used file (tree.chain n file).chain.first_mem fresh
    refine ⟨cat.add n ((dirSectorOf boot disk' target).slotDirectory index), ?_,
      fun cluster clusterInDir => clusterInDir.add newDir _⟩
    refine tree.add ⟨inDir, inside, fresh, ?_, chains, slots, ⟨used, ?_⟩, ?_, rfl, ?_⟩
    · exact .single data last
    · rw [sector]
      exact createdSlot_plain plain ext attributes _ n inside
    · rw [sector]
      exact createdSlot_cluster name ext attributes _ inside (small n data)
    · intro isDir slot slotInside slotUsed
      rw [sector, Sector.slotDirectory, createdSlot_attributes _ _ _ _ _ inside, decide_eq_true_eq] at isDir
      rw [links isDir] at slotUsed ⊢
      obtain ⟨dot, target⟩ := dirSector_links (small n data) (small up (tree.data parent)) slotInside slotUsed
      refine ⟨dot, target.imp_right ?_⟩
      intro same
      rw [same]
      exact parent
  · -- the name begins with the deletion mark: nobody owns the new chain
    refine ⟨cat, tree.shrink chains ?_, fun _ clusterInDir => clusterInDir⟩
    intro cluster clusterInDir slot slotInside slotUsed
    refine .ofSame (slots cluster clusterInDir slot slotInside ?_) slotUsed
    by_contra both
    simp only [not_or, not_not] at both
    obtain ⟨rfl, rfl⟩ := both
    exact used slotUsed

/-- What storing a new entry does to the volume. -/
structure Placed (st st' : FatState) (target index n : Nat) (sector : Sector) : Prop where
  kept : Kept st st'
  lagging : Lagging st'
  data : st.boot.DataCluster n
  free : fatEntry st.boot st.disk n = 0
  last : fatEntry st.boot st'.disk n = 0x0FFFFFFF
  entries : ∀ cluster, cluster < st.boot.totalClusters + 2 → fatEntry st.boot st.disk cluster ≠ 0 →
    fatEntry st.boot st'.disk cluster = fatEntry st.boot st.disk cluster
  sector : dirSectorOf st.boot st'.disk target = sector
  others : ∀ cluster, st.boot.DataCluster cluster → cluster ≠ target →
    dirSectorOf st.boot st'.disk cluster = dirSectorOf st.boot st.disk cluster

theorem placeSlot_placed (wf : st.boot.WellFormed) (lagging : Lagging st)
    (data : st.boot.DataCluster target) (lba : hit.lba = st.boot.clusterLba target 0)
    (some : (placeSlot name ext attributes hit st).1 ≠ 0) :
    Placed st (placeSlot name ext attributes hit st).2 target hit.slot
      (placeSlot name ext attributes hit st).1
      (createdSlot name ext attributes hit.buf hit.slot (placeSlot name ext attributes hit st).1) := by
  have outcome := fatAllocCluster_lagging lagging wf
  have kept := fatAllocCluster_kept 1 st
  rw [placeSlot] at some ⊢
  generalize fatAllocCluster 1 st = allocated at some outcome kept ⊢
  obtain ⟨n, ⟨disk, _, _, _, nr, cached, dirty, console⟩⟩ := allocated
  obtain ⟨rfl, rfl, rfl⟩ := kept
  rcases outcome with ⟨none, _⟩ | ⟨coherent, marks⟩
  · exact absurd none some
  · obtain ⟨lagging', own, others, entries⟩ := (coherent.lagging wf.layout).writeSector wf data
      (createdSlot name ext attributes hit.buf hit.slot n)
    rw [lba]
    refine ⟨⟨rfl, rfl, rfl⟩, lagging', marks.data, marks.free, ?_, ?_, own, ?_⟩
    · exact (entries n marks.data.2).trans marks.last
    · exact fun cluster inRange used => (entries cluster inRange).trans (marks.others cluster inRange used)
    · intro cluster member different
      exact (others cluster member different).trans (marks.contents cluster member 0 wf.spc_pos)

theorem Catalog.DirCluster.rechain {cat : Catalog} (inDir : cat.DirCluster cluster)
    (grows : file ∈ cat.dirs → ∀ cluster ∈ cat.chains file, cluster ∈ clusters) :
    Catalog.DirCluster { cat with chains := Function.update cat.chains file clusters } cluster := by
  obtain ⟨dir, member, inChain⟩ := inDir
  refine ⟨dir, member, ?_⟩
  by_cases same : dir = file
  · subst same
    dsimp only
    rw [Function.update_self]
    exact grows member cluster inChain
  · dsimp only
    rw [Function.update_of_ne same]
    exact inChain

namespace Sound

theorem extend (sound : Sound st cat) (inDir : cat.DirCluster final)
    (stop : nextOf st.boot st.disk final = none) (coherent : Coherent mid) (kept : Kept st mid)
    (step : Extends st.boot st.disk mid.disk final n) :
    ∃ cat', Sound mid cat' ∧ cat'.DirCluster n := by
  obtain ⟨disk, _, _, _, nr, cached, dirty, console⟩ := mid
  obtain ⟨rfl, rfl, rfl⟩ := kept
  obtain ⟨dir, member, inChain⟩ := inDir
  have file := sound.tree.dirs_files dir member
  have chain := sound.tree.chain dir file
  obtain ⟨before, after, whole, tail⟩ := chain.suffix inChain
  have alone : after = [final] := tail.chain.unique (.last stop)
  rw [whole, alone] at chain
  have grown := step.chain sound.wf chain
  have old : ∀ cluster, cluster ∈ cat.chains dir ↔ cluster ∈ before ∨ cluster = final := by
    intro cluster
    rw [whole, alone, List.mem_append, List.mem_singleton]
  have new : ∀ cluster, cluster ∈ before ++ [final, n] ↔ cluster ∈ cat.chains dir ∨ cluster = n := by
    intro cluster
    rw [old, List.mem_append, List.mem_cons, List.mem_singleton, or_assoc]
  have grows : dir ∈ cat.dirs → ∀ cluster ∈ cat.chains dir, cluster ∈ before ++ [final, n] :=
    fun _ cluster earlier => (new cluster).mpr (.inl earlier)
  refine ⟨{ cat with chains := Function.update cat.chains dir (before ++ [final, n]) },
    ⟨sound.wf, sound.single, coherent.lagging sound.wf.layout, ?_, sound.cwd.rechain grows⟩,
    dir, member, ?_⟩
  · refine sound.tree.rechain file grown ?_ ?_ grows ?_ ?_
    · intro cluster present
      rcases (new cluster).mp present with earlier | rfl
      · exact .inl earlier
      · exact .inr step.free
    · intro other otherMember different cluster inOther
      have outside := sound.tree.apart file otherMember different inOther
      refine step.others cluster ((sound.tree.chain other otherMember).data cluster inOther).2 ?_
        (sound.tree.used otherMember inOther)
      rintro rfl
      exact outside inChain
    · intro _ cluster present fresh
      rcases (new cluster).mp present with earlier | rfl
      · exact absurd earlier fresh
      · exact step.zeroed 0 sound.wf.spc_pos
    · intro cluster clusterInDir
      refine step.contents cluster (sound.tree.data clusterInDir) ?_ 0 sound.wf.spc_pos
      rintro rfl
      obtain ⟨owner, ownerMember, inOwner⟩ := clusterInDir
      exact sound.tree.used (sound.tree.dirs_files owner ownerMember) inOwner step.free
  · dsimp only
    rw [Function.update_self]
    simp

variable {hit : Hit} (sound : Sound st cat) (inDir : cat.DirCluster target)
  (lba : hit.lba = st.boot.clusterLba target 0) (buf : hit.buf = dirSectorOf st.boot st.disk target)
  (inside : hit.slot < 16) (free : hit.buf.slotFree hit.slot = true)
include sound inDir lba buf inside free

theorem fillFile (plain : CString.Plain name) (current : Nat)
    (some : (fillFile name ext current hit st).1 ≠ .created 0) :
    ∃ cat', Sound (fillFile name ext current hit st).2 cat' := by
  have taken : (placeSlot name ext 0x20 hit st).1 ≠ 0 := by
    intro zero
    exact some (congrArg CreateExit.created zero)
  have placed := placeSlot_placed sound.wf sound.lagging (sound.tree.data inDir) lba taken
  rw [Fs.fillFile]
  generalize placeSlot name ext 0x20 hit st = result at placed ⊢
  obtain ⟨n, ⟨disk, _, _, _, nr, cached, dirty, console⟩⟩ := result
  obtain ⟨⟨rfl, rfl, rfl⟩, lagging, data, fresh, last, entries, sector, others⟩ := placed
  rw [buf] at free sector
  obtain ⟨cat', tree, more⟩ := sound.tree.create sound.wf inDir inside free plain data fresh last entries
    sector (fun cluster member => others cluster (sound.tree.data member)) inDir
    (fun directory => absurd rfl directory)
  exact ⟨cat', sound.wf, sound.single, lagging, tree, more _ sound.cwd⟩

theorem fillDir (plain : CString.Plain name) (parent : cat.DirCluster current)
    (some : (fillDir name current hit st).1 ≠ .created 0) :
    ∃ cat', Sound (fillDir name current hit st).2 cat' := by
  have taken : (placeSlot name [] 0x10 hit st).1 ≠ 0 := by
    intro zero
    exact some (congrArg CreateExit.created zero)
  have placed := placeSlot_placed sound.wf sound.lagging (sound.tree.data inDir) lba taken
  rw [Fs.fillDir]
  generalize placeSlot name [] 0x10 hit st = result at placed ⊢
  obtain ⟨n, ⟨disk, _, _, _, nr, cached, dirty, console⟩⟩ := result
  obtain ⟨⟨rfl, rfl, rfl⟩, lagging, data, fresh, last, entries, sector, others⟩ := placed
  have foreign : ∀ cluster, cat.DirCluster cluster → cluster ≠ n := by
    rintro _ ⟨owner, ownerMember, inOwner⟩ rfl
    exact sound.tree.used (sound.tree.dirs_files owner ownerMember) inOwner fresh
  obtain ⟨lagging', own, rest, same⟩ := lagging.writeSector sound.wf data (dirSector n current)
  rw [buf] at free sector
  have linked := sound.tree.create sound.wf inDir inside free plain data fresh
    ((same n data.2).trans last)
    (fun cluster inRange used => (same cluster inRange).trans (entries cluster inRange used))
    ((rest target (sound.tree.data inDir) (foreign target inDir)).trans sector)
    (fun cluster member different => (rest cluster (sound.tree.data member) (foreign cluster member)).trans
      (others cluster (sound.tree.data member) different)) parent (fun _ => own)
  obtain ⟨cat', tree, more⟩ := linked
  refine ⟨cat', sound.wf, sound.single, ?_, ?_, more _ sound.cwd⟩
  · simpa only [fatInitDirCluster, FAT32BootSector.clusterLba_zero] using lagging'
  · simpa only [fatInitDirCluster, FAT32BootSector.clusterLba_zero] using tree

end Sound

end LivlyOS.Fs
