import LivlyOS.Fs.Calls
import LivlyOS.Fs.Intact
import LivlyOS.Fs.WriteLoop

namespace LivlyOS.Fs

open LivlyOS.Lib

/-- Every cluster of a chain starts a chain over some of its clusters. -/
theorem FatChain.suffix (chain : FatChain boot disk first clusters) (member : middle ∈ clusters) :
    ∃ before after, clusters = before ++ after ∧ FatChain boot disk middle after := by
  obtain ⟨before, after, whole, tail⟩ := chain.chain.split member
  refine ⟨before, after, whole, tail, ?_⟩
  intro cluster inTail
  apply chain.data
  simp [whole, inTail]

theorem Tree.walkable (tree : Tree boot disk cat) (inDir : cat.DirCluster cluster) :
    Walkable boot disk cluster := by
  obtain ⟨dir, member, inChain⟩ := inDir
  obtain ⟨_, _, _, tail⟩ := (tree.chain dir (tree.dirs_files dir member)).suffix inChain
  exact tail.walkable

/-- A walk from a directory cluster stays in its directory. -/
theorem Tree.reach (tree : Tree boot disk cat) (inDir : cat.DirCluster cluster)
    (reach : Reach boot disk cluster other) : cat.DirCluster other := by
  obtain ⟨dir, member, inChain⟩ := inDir
  obtain ⟨before, after, whole, tail⟩ := (tree.chain dir (tree.dirs_files dir member)).suffix inChain
  refine ⟨dir, member, ?_⟩
  rw [whole]
  exact List.mem_append_right before (tail.reach_mem reach)

/-- Writing the first sector of a cluster: nothing else changes. -/
theorem Lagging.writeSector (lagging : Lagging st) (wf : st.boot.WellFormed)
    (data : st.boot.DataCluster cluster) (buf : Sector) :
    let disk' := ataWriteSector st.disk (st.boot.clusterLba cluster 0) buf
    Lagging { st with disk := disk' } ∧ dirSectorOf st.boot disk' cluster = buf ∧
      (∀ other, st.boot.DataCluster other → other ≠ cluster →
        dirSectorOf st.boot disk' other = dirSectorOf st.boot st.disk other) ∧
      ∀ other, other < st.boot.totalClusters + 2 →
        fatEntry st.boot disk' other = fatEntry st.boot st.disk other := by
  have inside : 0 < st.boot.spc := wf.spc_pos
  have sameFat : ∀ lba, st.boot.IsFatSector lba →
      ataReadSector (ataWriteSector st.disk (st.boot.clusterLba cluster 0) buf) lba =
        ataReadSector st.disk lba :=
    fun lba fat => readFat_writeData wf st.disk buf data inside fat
  refine ⟨lagging.rewrite wf.layout _ sameFat, ?_, ?_, ?_⟩
  · rw [dirSectorOf, clusterData_write wf st.disk buf data data inside inside, if_pos ⟨rfl, rfl⟩]
  · intro other otherData different
    rw [dirSectorOf, clusterData_write wf st.disk buf data otherData inside inside, if_neg]
    exact fun same => different same.1
  · exact fun other inRange => fatEntry_congr wf.layout sameFat inRange

/-- The state between two calls on a volume that the catalog accounts for. -/
structure Sound (st : FatState) (cat : Catalog) : Prop where
  wf : st.boot.WellFormed
  single : st.boot.spc = 1
  lagging : Lagging st
  tree : Tree st.boot st.disk cat
  cwd : cat.DirCluster st.cwdCluster

namespace Sound

theorem loaded (sound : Sound st cat) (loaded : Loaded st st') : Sound st' cat := by
  obtain ⟨boot, cwd, _⟩ := loaded.kept
  refine ⟨?_, ?_, sound.lagging.loaded loaded, ?_, ?_⟩
  · rw [boot]
    exact sound.wf
  · rw [boot]
    exact sound.single
  · rw [boot, loaded.disk]
    exact sound.tree
  · rw [cwd]
    exact sound.cwd

theorem moved (sound : Sound st cat) (inDir : cat.DirCluster target) (path : Bytes) :
    Sound { st with cwdCluster := target, cwdPath := path } cat :=
  ⟨sound.wf, sound.single, ⟨sound.lagging.clean, sound.lagging.entries⟩, sound.tree, inDir⟩

theorem printed (sound : Sound st cat) (console : List String) :
    Sound { st with console := console } cat :=
  ⟨sound.wf, sound.single, ⟨sound.lagging.clean, sound.lagging.entries⟩, sound.tree, sound.cwd⟩

/-- The place of a slot that a search from the current directory found. -/
theorem place (sound : Sound st cat)
    (search : Search st.boot st.disk wanted st.cwdCluster (.found cluster hit)) :
    cat.DirCluster cluster ∧ hit.lba = st.boot.clusterLba cluster 0 ∧
      hit.buf = dirSectorOf st.boot st.disk cluster ∧ hit.slot < 16 ∧
      wanted hit.buf hit.slot = true := by
  obtain ⟨s, inside, lba, buf, slot⟩ := search.place
  obtain ⟨below, holds, _⟩ := findInSector_some slot
  have zero : s = 0 := by
    have single := sound.single
    omega
  subst zero
  exact ⟨sound.tree.reach sound.cwd search.found_reach.1, lba, buf, below, holds⟩

/-- Freeing or renaming slots of one directory sector. -/
theorem rewrite (sound : Sound st cat) (inDir : cat.DirCluster cluster) (buf : Sector)
    (kept : ∀ slot < 16, buf.slotFree slot = false →
      SlotKept (dirSectorOf st.boot st.disk cluster) buf slot) :
    Sound { st with disk := ataWriteSector st.disk (st.boot.clusterLba cluster 0) buf } cat := by
  obtain ⟨lagging, own, others, entries⟩ := sound.lagging.writeSector sound.wf (sound.tree.data inDir) buf
  refine ⟨sound.wf, sound.single, lagging, ?_, sound.cwd⟩
  apply sound.tree.shrink
  · intro file member other inChain
    exact entries other ((sound.tree.chain file member).data other inChain).2
  · intro other otherInDir slot inside used
    by_cases same : other = cluster
    · subst same
      rw [own] at used ⊢
      exact kept slot inside used
    · rw [others other (sound.tree.data otherInDir) same] at used ⊢
      exact .ofSame (.refl _ _) used

end Sound

/-- Clearing a taken entry on disk behind the back of the cache. -/
theorem Lagging.clear (lagging : Lagging st) (wf : st.boot.WellFormed)
    (inRange : cluster < st.boot.totalClusters + 2) (used : fatEntry st.boot st.disk cluster ≠ 0) :
    Lagging { st with disk := setFatEntry st.boot cluster 0 st.disk } where
  clean := lagging.clean
  entries := by
    intro other otherInRange cached
    have before := lagging.entries other otherInRange cached
    rw [fatEntry_setFatEntry wf st.disk inRange otherInRange (by decide)]
    by_cases same : other = cluster
    · subst same
      rw [if_pos rfl]
      rcases before with agrees | ⟨zero, _⟩
      · exact .inr ⟨rfl, agrees ▸ used⟩
      · exact absurd zero used
    · rw [if_neg same]
      exact before

/-- What freeing the clusters of a chain leaves alone. -/
structure Frees (boot : FAT32BootSector) (disk disk' : Disk) (clusters : List Nat) : Prop where
  entries : ∀ cluster, cluster < boot.totalClusters + 2 → cluster ∉ clusters →
    fatEntry boot disk' cluster = fatEntry boot disk cluster
  contents : ∀ cluster, boot.DataCluster cluster → ∀ s < boot.spc,
    clusterData boot disk' cluster s = clusterData boot disk cluster s

/-- The entries of some clusters set to zero. -/
def clearEntries (boot : FAT32BootSector) : List Nat → Disk → Disk
  | [], disk => disk
  | cluster :: rest, disk => clearEntries boot rest (setFatEntry boot cluster 0 disk)

theorem fatEntry_clearEntries (wf : boot.WellFormed) (inRange : ∀ cluster ∈ clusters, cluster < boot.totalClusters + 2)
    (disk : Disk) (otherInRange : other < boot.totalClusters + 2) :
    fatEntry boot (clearEntries boot clusters disk) other = if other ∈ clusters then 0 else fatEntry boot disk other := by
  induction clusters generalizing disk with
  | nil => rw [clearEntries, if_neg List.not_mem_nil]
  | cons cluster rest ih =>
    rw [clearEntries, ih (fun member inRest => inRange member (List.mem_cons_of_mem _ inRest)),
      fatEntry_setFatEntry wf disk (inRange cluster List.mem_cons_self) otherInRange (by decide)]
    by_cases same : other = cluster
    · simp [same]
    · simp [same]

theorem clusterData_clearEntries (wf : boot.WellFormed) (inRange : ∀ cluster ∈ clusters, cluster < boot.totalClusters + 2)
    (disk : Disk) (data : boot.DataCluster other) (inside : s < boot.spc) :
    clusterData boot (clearEntries boot clusters disk) other s = clusterData boot disk other s := by
  induction clusters generalizing disk with
  | nil => rfl
  | cons cluster rest ih =>
    rw [clearEntries, ih (fun member inRest => inRange member (List.mem_cons_of_mem _ inRest)),
      clusterData_setFatEntry wf disk 0 (inRange cluster List.mem_cons_self) data inside]

theorem clearEntries_frees (wf : boot.WellFormed) (inRange : ∀ cluster ∈ clusters, cluster < boot.totalClusters + 2)
    (disk : Disk) : Frees boot disk (clearEntries boot clusters disk) clusters where
  entries _ otherInRange outside := by rw [fatEntry_clearEntries wf inRange disk otherInRange, if_neg outside]
  contents _ data _ inside := clusterData_clearEntries wf inRange disk data inside

theorem freeTurn_again (clean : st.fatCacheDirty = false) (going : cluster < endOfChain) :
    ∃ mid, Loaded st mid ∧ freeTurn (cluster, st) =
      .again ((fatNextCluster cluster st).1,
        { mid with disk := setFatEntry mid.boot cluster 0 mid.disk }) := by
  refine ⟨_, (Loaded.refl clean).next cluster, ?_⟩
  simp only [freeTurn, Nat.not_le.mpr going, ↓reduceIte, setFatEntry]

/-- The loop of `fat_delete_file` clears the entries of a chain, whatever sectors they lie in. -/
theorem freeLoop_eq (wf : st.boot.WellFormed) (lagging : Lagging st)
    (chain : FatChain st.boot st.disk first clusters) (enough : clusters.length < fuel) :
    ∃ st', loop freeTurn fuel (first, st) = some st' ∧ st'.disk = clearEntries st.boot clusters st.disk ∧
      Lagging st' ∧ Kept st st' := by
  induction clusters generalizing st first fuel with
  | nil => exact absurd chain.chain.first_mem List.not_mem_nil
  | cons head rest ih =>
    obtain ⟨_, whole⟩ := chain.chain.cons
    cases whole
    have data := chain.first_data
    have used := chain.entry_ne_zero chain.chain.first_mem
    obtain ⟨fuel, rfl⟩ : ∃ more, fuel = more + 2 := ⟨fuel - 2, by rw [List.length_cons] at enough; omega⟩
    obtain ⟨⟨_, _, _, _, nr, cached, dirty, console⟩, loaded, turn⟩ :=
      freeTurn_again lagging.clean (data_lt_endOfChain wf data)
    have lagging₁ := lagging.loaded loaded
    obtain ⟨⟨rfl, rfl, rfl⟩, rfl, -, -⟩ := loaded
    have cleared := lagging₁.clear wf data.2 used
    rw [loop_again turn]
    cases chain.chain with
    | last stop =>
      have ended := fatNextCluster_last lagging data.2 used stop
      have leave : ∀ mid, freeTurn ((fatNextCluster head st).1, mid) = .leave mid := by
        intro mid
        simp only [freeTurn, ended, ↓reduceIte]
      exact ⟨_, loop_leave (leave _) fuel, rfl, cleared, ⟨rfl, rfl, rfl⟩⟩
    | @link _ successor _ step tail =>
      rw [(fatNextCluster_link lagging data.2 used step).1]
      have fresh := (List.nodup_cons.mp chain.chain.nodup).1
      have remaining : FatChain st.boot (setFatEntry st.boot head 0 st.disk) successor rest := by
        refine FatChain.congr ⟨tail, fun cluster member => chain.data cluster (by simp [member])⟩ ?_
        intro cluster member
        rw [fatEntry_setFatEntry wf st.disk data.2 (chain.data cluster (by simp [member])).2
          (by decide), if_neg]
        rintro rfl
        exact fresh member
      obtain ⟨st', finished, disk, lagging', kept⟩ :=
        ih (by exact wf) cleared remaining (Nat.lt_of_succ_lt_succ enough)
      exact ⟨st', finished, disk, lagging', ⟨kept.boot, kept.cwdCluster, kept.cwdPath⟩⟩

theorem freeLoop (wf : st.boot.WellFormed) (lagging : Lagging st)
    (chain : FatChain st.boot st.disk first clusters)
    (finished : loop freeTurn fuel (first, st) = some st') :
    Lagging st' ∧ Kept st st' ∧ Frees st.boot st.disk st'.disk clusters := by
  obtain ⟨_, freed, disk, lagging', kept⟩ := freeLoop_eq wf lagging chain (Nat.lt_succ_self _)
  cases loop_deterministic freed finished
  refine ⟨lagging', kept, ?_⟩
  rw [disk]
  exact clearEntries_frees wf (fun cluster member => (chain.data cluster member).2) st.disk

namespace Sound

/-- A chain no entry refers to leaves the catalog and is freed. -/
theorem freed (sound : Sound st cat) (member : file ∈ cat.files) (notDir : file ∉ cat.dirs)
    (unused : ∀ cluster, cat.DirCluster cluster → ∀ slot < 16,
      (dirSectorOf st.boot st.disk cluster).slotEntry slot →
        (dirSectorOf st.boot st.disk cluster).slotCluster slot ≠ file)
    (finished : loop freeTurn fuel (file, st) = some st') :
    Sound st' { cat with files := cat.files \ {file} } ∧ st'.boot = st.boot ∧
      ∀ cluster, cat.DirCluster cluster →
        dirSectorOf st.boot st'.disk cluster = dirSectorOf st.boot st.disk cluster := by
  obtain ⟨lagging, ⟨boot, cwd, _⟩, frees⟩ :=
    freeLoop sound.wf sound.lagging (sound.tree.chain file member) finished
  have contents : ∀ cluster, cat.DirCluster cluster →
      dirSectorOf st.boot st'.disk cluster = dirSectorOf st.boot st.disk cluster :=
    fun cluster inDir => frees.contents cluster (sound.tree.data inDir) 0 sound.wf.spc_pos
  refine ⟨⟨?_, ?_, lagging, ?_, ?_⟩, boot, contents⟩
  · exact boot ▸ sound.wf
  · exact boot ▸ sound.single
  · rw [boot]
    apply (sound.tree.remove notDir unused).shrink
    · rintro other ⟨otherMember, different⟩ cluster inChain
      exact frees.entries cluster ((sound.tree.chain other otherMember).data cluster inChain).2
        (sound.tree.apart member otherMember different inChain)
    · intro cluster inDir slot _ used
      rw [contents cluster inDir] at used ⊢
      exact .ofSame (.refl _ _) used
  · rw [cwd]
    exact sound.cwd

/-- Deleting the slot of an entry: no entry refers to its chain any more. -/
theorem cut (sound : Sound st cat) (inDir : cat.DirCluster cluster) (below : slot < 16)
    (entry : (dirSectorOf st.boot st.disk cluster).slotEntry slot) :
    let buf := (dirSectorOf st.boot st.disk cluster).putByte slot 0 0xE5
    let disk' := ataWriteSector st.disk (st.boot.clusterLba cluster 0) buf
    Sound { st with disk := disk' } cat ∧ dirSectorOf st.boot disk' cluster = buf ∧
      ∀ other, cat.DirCluster other → ∀ index < 16, (dirSectorOf st.boot disk' other).slotEntry index →
        (dirSectorOf st.boot disk' other).slotCluster index ≠
          (dirSectorOf st.boot st.disk cluster).slotCluster slot := by
  intro buf disk'
  have gone : buf.slotFree slot = true := Sector.putByte_deleted _ below
  have kept : ∀ other < 16, buf.slotFree other = false →
      SlotKept (dirSectorOf st.boot st.disk cluster) buf other := by
    intro other _ used
    refine .ofSame (Sector.putByte_sameSlot _ 0 0xE5 (by decide) ?_) used
    rintro rfl
    rw [gone] at used
    cases used
  obtain ⟨_, own, same, _⟩ := sound.lagging.writeSector sound.wf (sound.tree.data inDir) buf
  refine ⟨sound.rewrite inDir buf kept, own, ?_⟩
  intro other otherInDir index indexBelow otherEntry target
  by_cases here : other = cluster
  · subst here
    rw [own] at otherEntry target
    have before := kept index indexBelow otherEntry.1
    rw [before.cluster] at target
    obtain ⟨_, rfl⟩ := sound.tree.single other inDir index indexBelow other inDir slot below
      (before.entry otherEntry) entry target
    have used := otherEntry.1
    rw [gone] at used
    cases used
  · rw [same other (sound.tree.data otherInDir) here] at otherEntry target
    exact here (sound.tree.single other otherInDir index indexBelow cluster inDir slot below
      otherEntry entry target).1

/-- The slot loop of `fat_delete_file` over regular entries. -/
theorem deleteSlots (sound : Sound st cat) (inDir : cat.DirCluster cluster)
    (lba : hit = st.boot.clusterLba cluster 0) (slots : List Nat) (nodup : slots.Nodup)
    (inside : ∀ slot ∈ slots, slot < 16) (buf : Sector)
    (current : buf = dirSectorOf st.boot st.disk cluster)
    (regular : ∀ slot ∈ slots, buf.slotMatches name slot = true →
      buf.slotEntry slot ∧ buf.slotDirectory slot = false)
    (finished : deleteSlots fuel name hit slots buf st = some st') : ∃ cat', Sound st' cat' := by
  induction slots generalizing st cat buf with
  | nil =>
    cases finished
    exact ⟨cat, sound⟩
  | cons slot rest ih =>
    obtain ⟨fresh, nodup⟩ := List.nodup_cons.mp nodup
    have below : slot < 16 := inside slot (by simp)
    rw [Fs.deleteSlots] at finished
    split at finished
    · rename_i hits
      obtain ⟨entry, plain⟩ := regular slot (by simp) hits
      rw [current] at entry plain
      obtain ⟨member, _, isDir⟩ := sound.tree.entry cluster inDir slot below entry
      have notDir : (dirSectorOf st.boot st.disk cluster).slotCluster slot ∉ cat.dirs := by
        intro owned
        rw [isDir.mp owned] at plain
        cases plain
      obtain ⟨cut, own, unused⟩ := sound.cut inDir below entry
      dsimp only at finished
      split at finished
      · cases finished
      · rename_i mid freed
        rw [current, lba] at freed
        obtain ⟨sound', boot, contents⟩ := cut.freed member notDir unused freed
        refine ih sound' inDir (by rw [boot]; exact lba) nodup
          (fun other member => inside other (by simp [member])) (buf.putByte slot 0 0xE5) ?_ ?_ finished
        · rw [current, boot]
          exact ((contents cluster inDir).trans own).symm
        · intro other otherMember hits
          have unchanged : Sector.SameSlot (buf.putByte slot 0 0xE5) buf other := by
            apply buf.putByte_sameSlot 0 0xE5 (by decide)
            rintro rfl
            exact fresh otherMember
          rw [unchanged.slotMatches] at hits
          obtain ⟨otherEntry, otherPlain⟩ := regular other (by simp [otherMember]) hits
          have before := SlotKept.ofSame unchanged (unchanged.slotFree.trans otherEntry.1)
          exact ⟨⟨unchanged.slotFree.trans otherEntry.1, before.dot.trans otherEntry.2⟩,
            before.directory.trans otherPlain⟩
    · exact ih sound inDir lba nodup (fun other member => inside other (by simp [member])) buf current
        (fun other member => regular other (by simp [member])) finished

end Sound

end LivlyOS.Fs
