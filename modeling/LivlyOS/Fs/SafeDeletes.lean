import LivlyOS.Fs.OwnedRuns

namespace LivlyOS.Fs

open LivlyOS.Lib

/-- The clusters of the directories that slots in use lead to, from the root on. -/
inductive InTree (boot : FAT32BootSector) (disk : Disk) : Nat → Prop where
  | root : InTree boot disk boot.rootCluster.toNat
  | link (tree : InTree boot disk cluster) (step : nextOf boot disk cluster = some successor) :
      InTree boot disk successor
  | enter {place : Place} (tree : InTree boot disk place.cluster) (inside : place.s < boot.spc)
      (below : place.slot < 16) (used : place.Used boot disk) (isDir : place.Directory boot disk)
      (refers : place.target boot disk ≠ 0) : InTree boot disk (place.target boot disk)

/-- No cluster whose FAT entry is zeroed between the two states is in the chain of the
root directory, of the current directory or of a slot in use in the tree. -/
def FreesUnused (before after : FatState) : Prop :=
  ∀ cluster, fatEntry before.boot before.disk cluster ≠ 0 → fatEntry before.boot after.disk cluster = 0 →
    ¬ Reach before.boot before.disk before.boot.rootCluster.toNat cluster ∧
    ¬ Reach before.boot before.disk before.cwdCluster cluster ∧
    ∀ place : Place, InTree before.boot after.disk place.cluster → place.s < before.boot.spc →
      place.slot < 16 → place.Used before.boot after.disk → place.target before.boot after.disk ≠ 0 →
        ¬ Reach before.boot before.disk (place.target before.boot after.disk) cluster

/-- The cluster is the one of a deleted slot of the sector. -/
def Gone (sector : Sector) (deleted : List Nat) (file : Nat) : Prop :=
  ∃ slot ∈ deleted, sector.slotCluster slot = file

/-- Some entries of a directory sector are deleted and their chains are freed. -/
structure Deleting (st mid : FatState) (cat : Catalog) (home cluster s : Nat) (deleted : List Nat)
    (buf : Sector) : Prop where
  kept : Kept st mid
  lagging : Lagging mid
  sector : clusterData st.boot mid.disk cluster s = buf
  others : ∀ other, st.boot.DataCluster other → ∀ t < st.boot.spc, ¬ (other = cluster ∧ t = s) →
    clusterData st.boot mid.disk other t = clusterData st.boot st.disk other t
  entries : ∀ file ∈ cat.files, ¬ Gone (clusterData st.boot st.disk cluster s) deleted file →
    ∀ member ∈ cat.chains file, fatEntry st.boot mid.disk member = fatEntry st.boot st.disk member
  owned : ∀ slot ∈ deleted, cat.Entry st.boot st.disk home ⟨cluster, s, slot⟩
  freed : ∀ slot ∈ deleted, buf.slotFree slot = true
  same : ∀ slot ∉ deleted, Sector.SameSlot buf (clusterData st.boot st.disk cluster s) slot

namespace Deleting

theorem start (owned : Owned st cat) (home cluster s : Nat) (loaded : Loaded st mid) :
    Deleting st mid cat home cluster s [] (clusterData st.boot st.disk cluster s) where
  kept := loaded.kept
  lagging := owned.lagging.loaded loaded
  sector := by rw [loaded.disk]
  others := fun _ _ _ _ _ => by rw [loaded.disk]
  entries := fun _ _ _ _ _ => by rw [loaded.disk]
  owned := fun _ member => absurd member List.not_mem_nil
  freed := fun _ member => absurd member List.not_mem_nil
  same := fun slot _ => .refl _ slot

/-- A slot that is still there owns its chain alone. -/
theorem not_gone (deleting : Deleting st mid cat home cluster s deleted buf)
    (owners : Owners st.boot st.disk cat) {place : Place}
    (entry : cat.Entry st.boot st.disk home' place) (present : ∀ slot ∈ deleted, place ≠ ⟨cluster, s, slot⟩) :
    ¬ Gone (clusterData st.boot st.disk cluster s) deleted (place.target st.boot st.disk) := by
  rintro ⟨slot, member, shared⟩
  exact present slot member (owners.single _ _ _ _ entry (deleting.owned slot member) shared.symm)

theorem next (deleting : Deleting st mid cat home cluster s deleted buf) (owned : Owned st cat)
    (data : st.boot.DataCluster cluster) (inside : s < st.boot.spc) (new : slot ∉ deleted) (below : slot < 16)
    (entry : cat.Entry st.boot st.disk home ⟨cluster, s, slot⟩)
    (finished : loop freeTurn fuel (buf.slotCluster slot, { mid with
      disk := ataWriteSector mid.disk (st.boot.clusterLba cluster s) (buf.putByte slot 0 0xE5) }) = some after) :
    Deleting st after cat home cluster s (slot :: deleted) (buf.putByte slot 0 0xE5) := by
  have owners := owned.owners
  have wf := owned.wf
  have target : buf.slotCluster slot = Place.target st.boot st.disk ⟨cluster, s, slot⟩ :=
    (deleting.same slot new).slotCluster
  obtain ⟨file, _, _⟩ := owners.owner home _ entry
  have present := deleting.not_gone owners entry (fun other member same => new (by
    rw [(Place.mk.inj same).2.2]
    exact member))
  rw [target] at finished
  generalize owner : Place.target st.boot st.disk ⟨cluster, s, slot⟩ = first at finished file present
  obtain ⟨kept, lagging, sector, others, entries, known, freed, same⟩ := deleting
  obtain ⟨disk, _, _, _, nr, cached, dirty, console⟩ := mid
  obtain ⟨rfl, rfl, rfl⟩ := kept
  have fat : ∀ lba, st.boot.IsFatSector lba → ataReadSector (ataWriteSector disk
      (st.boot.clusterLba cluster s) (buf.putByte slot 0 0xE5)) lba = ataReadSector disk lba :=
    fun _ isFat => readFat_writeData wf disk _ data inside isFat
  have chain := owners.apart.chain first file
  have marked : ∀ member, st.boot.DataCluster member → fatEntry st.boot (ataWriteSector disk
      (st.boot.clusterLba cluster s) (buf.putByte slot 0 0xE5)) member = fatEntry st.boot disk member :=
    fun member memberData => fatEntry_congr wf.layout fat memberData.2
  have chain' := chain.congr (fun member inChain =>
    (marked member (chain.data member inChain)).trans (entries first file present member inChain))
  have lagging₁ := lagging.rewrite wf.layout _ fat
  obtain ⟨lagging', kept', frees⟩ := freeLoop (by exact wf) lagging₁ (by exact chain') finished
  refine ⟨⟨kept'.boot, kept'.cwdCluster, kept'.cwdPath⟩, lagging', ?_, ?_, ?_, ?_, ?_, ?_⟩
  · rw [frees.contents cluster data s inside, clusterData_write wf disk _ data data inside inside,
      if_pos ⟨rfl, rfl⟩]
  · intro other otherData t tInside elsewhere
    rw [frees.contents other otherData t tInside, clusterData_write wf disk _ data otherData inside tInside,
      if_neg elsewhere]
    exact others other otherData t tInside elsewhere
  · intro other otherFile stays member inChain
    have memberData := (owners.apart.chain other otherFile).data member inChain
    have different : other ≠ first := by
      rintro rfl
      exact stays ⟨slot, List.mem_cons_self, owner⟩
    have outside : member ∉ cat.chains first := by
      intro shared
      exact different (owners.apart.disjoint other otherFile first file member inChain shared)
    rw [frees.entries member memberData.2 outside, marked member memberData]
    exact entries other otherFile
      (fun gone => stays (gone.imp fun _ found => ⟨List.mem_cons_of_mem _ found.1, found.2⟩)) member inChain
  · intro other member
    rcases List.mem_cons.mp member with rfl | earlier
    · exact entry
    · exact known other earlier
  · intro other member
    by_cases here : other = slot
    · rw [here]
      exact buf.putByte_deleted below
    · rw [(buf.putByte_sameSlot 0 0xE5 (by decide) here).slotFree]
      exact freed other ((List.mem_cons.mp member).resolve_left here)
  · intro other outside
    obtain ⟨here, earlier⟩ := not_or.mp (List.mem_cons.not.mp outside)
    exact (buf.putByte_sameSlot 0 0xE5 (by decide) here).trans (same other earlier)

/-- The slot loop of `fat_delete_file` over entries. -/
theorem slots (deleting : Deleting st mid cat home cluster s deleted buf) (owned : Owned st cat)
    (data : st.boot.DataCluster cluster) (inside : s < st.boot.spc) (slots : List Nat)
    (nodup : slots.Nodup) (new : ∀ slot ∈ slots, slot ∉ deleted) (below : ∀ slot ∈ slots, slot < 16)
    (entry : ∀ slot ∈ slots, (clusterData st.boot st.disk cluster s).slotMatches name slot = true →
      cat.Entry st.boot st.disk home ⟨cluster, s, slot⟩)
    (finished : deleteSlots fuel name (st.boot.clusterLba cluster s) slots buf mid = some after) :
    ∃ deleted buf, Deleting st after cat home cluster s deleted buf := by
  induction slots generalizing mid deleted buf with
  | nil =>
    cases finished
    exact ⟨deleted, buf, deleting⟩
  | cons slot rest ih =>
    obtain ⟨fresh, nodup⟩ := List.nodup_cons.mp nodup
    have later : ∀ other ∈ rest, other ∈ slot :: rest := fun _ => List.mem_cons_of_mem slot
    have hits := (deleting.same slot (new slot List.mem_cons_self)).slotMatches name
    rw [deleteSlots] at finished
    split at finished
    · rename_i match'
      dsimp only at finished
      split at finished
      · cases finished
      · rename_i mid' freed
        have deleting' := deleting.next owned data inside (new slot List.mem_cons_self)
          (below slot List.mem_cons_self) (entry slot List.mem_cons_self (hits.symm.trans match')) freed
        refine ih deleting' nodup ?_ (fun other member => below other (later other member))
          (fun other member => entry other (later other member)) finished
        intro other member found
        rcases List.mem_cons.mp found with rfl | earlier
        · exact fresh member
        · exact new other (later other member) earlier
    · exact ih deleting nodup (fun other member => new other (later other member))
        (fun other member => below other (later other member))
        (fun other member => entry other (later other member)) finished

end Deleting

/-- The directories that entries lead to, from the root on and past the deleted ones. -/
inductive Catalog.Below (boot : FAT32BootSector) (disk : Disk) (cat : Catalog) (cluster s : Nat)
    (deleted : List Nat) : Nat → Prop where
  | root : cat.Below boot disk cluster s deleted boot.rootCluster.toNat
  | enter (above : cat.Below boot disk cluster s deleted home) (entry : cat.Entry boot disk home place)
      (present : ∀ slot ∈ deleted, place ≠ ⟨cluster, s, slot⟩) (isDir : place.target boot disk ∈ cat.dirs) :
      cat.Below boot disk cluster s deleted (place.target boot disk)

namespace Deleting

variable (deleting : Deleting st after cat home cluster s deleted buf) (owners : Owners st.boot st.disk cat)
include deleting

/-- A slot in use behind the loop is none of the deleted ones and holds what it held. -/
theorem present {place : Place} (data : st.boot.DataCluster place.cluster) (inside : place.s < st.boot.spc)
    (used : place.Used st.boot after.disk) : (∀ slot ∈ deleted, place ≠ ⟨cluster, s, slot⟩) ∧
      place.Same st.boot st.disk after.disk := by
  obtain ⟨other, t, slot⟩ := place
  by_cases here : other = cluster ∧ t = s
  · obtain ⟨rfl, rfl⟩ := here
    have sector := deleting.sector
    rw [Place.Used, Place.buf, sector] at used
    have left : slot ∉ deleted := by
      intro member
      rw [deleting.freed slot member] at used
      cases used
    refine ⟨?_, ?_⟩
    · rintro _ member ⟨⟩
      exact left member
    · rw [Place.Same, Place.buf, Place.buf, sector]
      exact deleting.same slot left
  · refine ⟨?_, ?_⟩
    · rintro _ member ⟨⟩
      exact here ⟨rfl, rfl⟩
    · rw [Place.Same, Place.buf, Place.buf, deleting.others other data t inside here]
      exact .refl _ _

include owners

theorem root_stays : ¬ Gone (clusterData st.boot st.disk cluster s) deleted st.boot.rootCluster.toNat := by
  rintro ⟨slot, member, same⟩
  exact (owners.owner _ _ (deleting.owned slot member)).2.1 same

theorem home_stays : ¬ Gone (clusterData st.boot st.disk cluster s) deleted home := by
  rintro ⟨slot, member, same⟩
  exact (owners.owner _ _ (deleting.owned slot member)).2.2 same

theorem below_stays (below : cat.Below st.boot st.disk cluster s deleted dir) :
    dir ∈ cat.dirs ∧ ¬ Gone (clusterData st.boot st.disk cluster s) deleted dir := by
  cases below with
  | root => exact ⟨owners.root, deleting.root_stays owners⟩
  | enter _ entry present isDir => exact ⟨isDir, deleting.not_gone owners entry present⟩

/-- Slots in use lead to chains that stay, and the directories among them are still below
the root. -/
theorem leads (below : cat.Below st.boot st.disk cluster s deleted dir) {place : Place}
    (inside : place.In st.boot (cat.chains dir)) (used : place.Used st.boot after.disk)
    (refers : place.target st.boot after.disk ≠ 0) :
    ∃ file ∈ cat.files, ¬ Gone (clusterData st.boot st.disk cluster s) deleted file ∧
      place.target st.boot after.disk ∈ cat.chains file ∧
      (place.Directory st.boot after.disk → cat.Below st.boot st.disk cluster s deleted file) := by
  obtain ⟨known, _⟩ := deleting.below_stays owners below
  have data := (owners.apart.chain dir (owners.dirs_files known)).data place.cluster inside.1
  obtain ⟨present, same⟩ := deleting.present data inside.2.1 used
  rw [same.target] at refers ⊢
  by_cases link : place.Link st.boot cat.dirs
  · obtain ⟨other, t, slot⟩ := place
    obtain ⟨member, notRoot, rfl, first⟩ := link
    have here : other = dir :=
      owners.apart.first_eq (owners.dirs_files member) (owners.dirs_files known) inside.1
    rcases (owners.link other member notRoot slot first).leads with zero | ⟨parent, parentDir, inChain, only⟩
    · exact absurd zero refers
    have above : cat.Below st.boot st.disk cluster s deleted parent := by
      rcases only with own | only
      · rw [own, here]
        exact below
      · cases below with
        | root => exact absurd here notRoot
        | enter above entry _ _ =>
          rw [← only _ _ entry here.symm]
          exact above
    exact ⟨parent, owners.dirs_files parentDir, (deleting.below_stays owners above).2, inChain, fun _ => above⟩
  · have entry : cat.Entry st.boot st.disk dir place :=
      ⟨known, inside, same.used.mp used, link, refers⟩
    obtain ⟨file, _, _⟩ := owners.owner dir place entry
    refine ⟨_, file, deleting.not_gone owners entry present, owners.apart.first_mem file, fun isDir => ?_⟩
    exact .enter below entry present (owners.directory dir place entry (same.directory.mp isDir))

/-- The tree behind the loop lies in the directories that are left. -/
theorem inTree (tree : InTree st.boot after.disk other) :
    ∃ dir, cat.Below st.boot st.disk cluster s deleted dir ∧ other ∈ cat.chains dir := by
  induction tree with
  | root => exact ⟨_, .root, owners.apart.first_mem (owners.dirs_files owners.root)⟩
  | link _ step ih =>
    obtain ⟨dir, below, inChain⟩ := ih
    obtain ⟨known, stays⟩ := deleting.below_stays owners below
    have file := owners.dirs_files known
    have same := nextOf_congr (deleting.entries dir file stays _ inChain)
    exact ⟨dir, below, owners.apart.reach file inChain (.single (same.symm.trans step))⟩
  | enter _ inside below used isDir refers ih =>
    obtain ⟨dir, dirBelow, inChain⟩ := ih
    obtain ⟨file, _, _, target, leads⟩ := deleting.leads owners dirBelow ⟨inChain, inside, below⟩ used refers
    exact ⟨file, leads isDir, target⟩

theorem freesUnused (known : home ∈ cat.dirs) (cwd : st.cwdCluster ∈ cat.chains home) :
    FreesUnused st after := by
  intro zeroed before zero
  have stays : ∀ file ∈ cat.files, ¬ Gone (clusterData st.boot st.disk cluster s) deleted file →
      ∀ first ∈ cat.chains file, ¬ Reach st.boot st.disk first zeroed := by
    intro file member left first inChain reach
    have same := deleting.entries file member left zeroed (owners.apart.reach member inChain reach)
    exact before (same.symm.trans zero)
  refine ⟨?_, ?_, ?_⟩
  · have file := owners.dirs_files owners.root
    exact stays _ file (deleting.root_stays owners) _ (owners.apart.first_mem file)
  · exact stays home (owners.dirs_files known) (deleting.home_stays owners) _ cwd
  · intro place tree inside below used refers
    obtain ⟨dir, dirBelow, inChain⟩ := deleting.inTree owners tree
    obtain ⟨file, member, left, target, _⟩ :=
      deleting.leads owners dirBelow ⟨inChain, inside, below⟩ used refers
    exact stays file member left _ target

end Deleting

/-- Every slot that the name matches is in use, has a cluster and is named neither `.`
nor `..`. -/
def Sector.NamesEntries (sector : Sector) (name : CString) : Prop :=
  ∀ slot < 16, sector.slotMatches name slot = true → sector.slotEntry slot ∧ sector.slotCluster slot ≠ 0

instance (sector : Sector) (name : CString) : Decidable (sector.NamesEntries name) :=
  inferInstanceAs (Decidable (∀ slot < 16, sector.slotMatches name slot = true →
    sector.slotEntry slot ∧ sector.slotCluster slot ≠ 0))

/-- The name only matches such entries in the sector of its first match. -/
def DeletesEntries (st : FatState) (name : CString) : Prop :=
  ∀ dirs, FatChain st.boot st.disk st.cwdCluster dirs → ∀ hit,
    firstHit st.boot st.disk (Sector.slotMatches name) dirs = some hit → hit.buf.NamesEntries name

theorem FreesUnused.loaded (loaded : Loaded st after) : FreesUnused st after := by
  intro cluster before zero
  rw [loaded.disk] at zero
  exact absurd zero before

theorem Owned.deleteFile (owned : Owned st cat) (entries : DeletesEntries st name)
    (finished : fatDeleteFile fuel name st = some after) : FreesUnused st after := by
  obtain ⟨home, known, cwd, dirs, directory, within⟩ := owned.directory
  have owners := owned.owners
  rcases fatDeleteFile_cases finished with ⟨mid, _, located, rfl⟩ | ⟨hit, last, located, freed⟩
  · obtain ⟨_, loaded⟩ := locate_result owned.lagging directory located
    exact .loaded (loaded.kprintf _)
  · obtain ⟨found, loaded⟩ := locate_result owned.lagging directory located
    obtain ⟨cluster, s, place⟩ := firstHit_some found
    have regular : ∀ slot ∈ List.range 16,
        (clusterData st.boot st.disk cluster s).slotMatches name slot = true →
          cat.Entry st.boot st.disk home ⟨cluster, s, slot⟩ := by
      intro slot member hits
      have below := List.mem_range.mp member
      obtain ⟨⟨used, dot⟩, refers⟩ := entries dirs directory hit found slot below (by rw [place.buf]; exact hits)
      rw [place.buf] at used dot refers
      refine ⟨known, ⟨within cluster place.member, place.inside, below⟩, used, ?_, refers⟩
      rintro ⟨isDir, notRoot, first, second⟩
      have first : s = 0 := first
      subst first
      have named := (owners.link cluster isDir notRoot slot second).dot
      exact absurd (dot.symm.trans named) (by decide)
    rw [place.lba, place.buf] at freed
    obtain ⟨deleted, buf, deleting⟩ := (Deleting.start owned home cluster s loaded).slots owned
      (directory.data cluster place.member) place.inside (List.range 16) List.nodup_range
      (fun _ _ => List.not_mem_nil) (fun _ => List.mem_range.mp) regular freed
    exact deleting.freesUnused owners known cwd

/-- Behind any run of `mkdir`, `cd` and `create` that meets the conditions, deleting
entries frees no cluster in use. -/
theorem delete_frees_unused (owned : Owned st cat) (run : Run (fun st call st' => FsCall.Returns st call st')
    (fun st call => call.Orderly st) st calls mid) (entries : DeletesEntries mid name)
    (finished : fatDeleteFile fuel name mid = some after) : FreesUnused mid after := by
  obtain ⟨cat', owned'⟩ := owned.run run
  exact owned'.deleteFile entries finished

def oneFileCatalog : Catalog where
  files := {2, 3}
  dirs := {2}
  chains := fun file => [file]

theorem oneFileVolume_owned : Owned (mounted oneFileVolume) oneFileCatalog := by
  obtain ⟨boot, directory, _⟩ := oneFileVolume_directory
  have cwd : (mounted oneFileVolume).cwdCluster = 2 := (mounted_image _ _ _).2.1
  have root : (mounted oneFileVolume).boot.rootCluster.toNat = 2 := by
    rw [boot]
    rfl
  have wf : (mounted oneFileVolume).boot.WellFormed := by
    rw [boot]
    exact sampleBoot_wellFormed
  have file : FatChain (mounted oneFileVolume).boot (mounted oneFileVolume).disk 3 [3] :=
    ⟨.last (nextOf_last (by decide +kernel)), by rw [boot]; decide⟩
  have only : ∀ dir place, oneFileCatalog.Entry (mounted oneFileVolume).boot (mounted oneFileVolume).disk dir place →
      dir = 2 ∧ place = ⟨2, 0, 0⟩ := by
    intro dir place entry
    cases Set.mem_singleton_iff.mp entry.known
    have inside := entry.inside
    have used := entry.used
    rw [boot] at inside used
    exact ⟨rfl, oneFileVolume_used place inside used⟩
  have target : Place.target (mounted oneFileVolume).boot (mounted oneFileVolume).disk ⟨2, 0, 0⟩ = 3 := by
    decide +kernel
  refine ⟨wf, (mounted_coherent _).lagging wf.layout, ⟨root, fun _ => .inl, ⟨?_, ?_⟩, ?_, ?_, ?_, ?_⟩,
    2, rfl, by rw [cwd]; exact List.mem_singleton_self 2⟩
  · rintro file' (rfl | rfl)
    · rw [cwd] at directory
      exact directory
    · exact file
  · intro left _ right _ cluster inLeft inRight
    exact (List.mem_singleton.mp inLeft).symm.trans (List.mem_singleton.mp inRight)
  · intro dir place entry
    obtain ⟨rfl, rfl⟩ := only dir place entry
    rw [target, root]
    exact ⟨.inr rfl, by decide, by decide⟩
  · intro dir place entry isDir
    obtain ⟨rfl, rfl⟩ := only dir place entry
    have plain : (Place.buf (mounted oneFileVolume).boot (mounted oneFileVolume).disk ⟨2, 0, 0⟩).slotDirectory 0 =
        false := by
      decide +kernel
    exact absurd (plain.symm.trans isDir) (by decide)
  · intro dir place dir' place' entry entry' _
    exact (only dir place entry).2.trans (only dir' place' entry').2.symm
  · intro dir member below
    exact absurd ((Set.mem_singleton_iff.mp member).trans root.symm) below

/-- `mkdir D`, `rm D`. -/
theorem delete_frees_unused_oneFile : ∃ mid after,
    Run (fun st call st' => FsCall.Returns st call st') (fun st call => call.Orderly st)
        (mounted oneFileVolume) [.createDir [0x44]] mid ∧
      fatDeleteFile 3 [0x44] mid = some after ∧ fatEntry mid.boot after.disk 4 ≠ fatEntry mid.boot mid.disk 4 ∧
      FreesUnused mid after := by
  obtain ⟨boot, directory, _⟩ := oneFileVolume_directory
  have owned := oneFileVolume_owned
  have trace : (fatCreateDir 3 [0x44] (mounted oneFileVolume)).bind (fun made =>
      (fatDeleteFile 3 [0x44] made.2).map (fun after =>
        (decide (nextOf made.2.boot made.2.disk made.2.cwdCluster = none),
          decide (made.2.boot.DataCluster made.2.cwdCluster),
          (firstHit made.2.boot made.2.disk (Sector.slotMatches [0x44]) [made.2.cwdCluster]).all (fun hit =>
            decide (hit.buf.NamesEntries [0x44])),
          decide (fatEntry made.2.boot after.disk 4 ≠ fatEntry made.2.boot made.2.disk 4)))) =
      some (true, true, true, true) := by
    decide +kernel
  obtain ⟨⟨exit, mid⟩, made, rest⟩ := Option.bind_eq_some_iff.mp trace
  obtain ⟨after, finished, values⟩ := Option.map_eq_some_iff.mp rest
  simp only [Prod.mk.injEq, decide_eq_true_eq] at values
  obtain ⟨last, data, regular, freed⟩ := values
  have orderly : FsCall.Orderly (mounted oneFileVolume) (.createDir [0x44]) := by
    intro dirs chain _
    cases chain.unique directory
    refine ⟨.inr (by decide +kernel), fun n _ t inside behind => ?_⟩
    have single : (mounted oneFileVolume).boot.spc = 1 := by
      rw [boot]
      rfl
    omega
  have run : Run (fun st call st' => FsCall.Returns st call st') (fun st call => call.Orderly st)
      (mounted oneFileVolume) [.createDir [0x44]] mid :=
    .next orderly ⟨3, some exit, by rw [FsCall.run, made]; rfl⟩ .done
  refine ⟨mid, after, run, finished, freed, delete_frees_unused owned run ?_ finished⟩
  intro dirs chain hit found
  have alone : dirs = [mid.cwdCluster] := chain.chain.unique (.last last)
  rw [alone] at found
  exact of_decide_eq_true ((Option.all_eq_true _ _).mp regular hit found)

/-- `mkdir D`, `cd D`, `rm ..` frees the cluster of the root directory. -/
theorem fatDeleteFile_dotDot : Owned (mounted oneFileVolume) oneFileCatalog ∧ ∃ mid after,
    Run (fun st call st' => FsCall.Returns st call st') (fun _ _ => True) (mounted oneFileVolume)
        [.createDir [0x44], .openDir [0x44]] mid ∧
      fatDeleteFile 3 [0x2E, 0x2E] mid = some after ∧ ¬ FreesUnused mid after := by
  refine ⟨oneFileVolume_owned, ?_⟩
  have trace : (fatCreateDir 3 [0x44] (mounted oneFileVolume)).bind (fun made =>
      (fatOpenDir 3 [0x44] made.2).bind (fun opened =>
        (fatDeleteFile 3 [0x2E, 0x2E] opened).map (fun after =>
          (decide (fatEntry opened.boot opened.disk opened.boot.rootCluster.toNat = 0),
            decide (fatEntry opened.boot after.disk opened.boot.rootCluster.toNat = 0))))) =
      some (false, true) := by
    decide +kernel
  obtain ⟨⟨exit, made⟩, created, rest⟩ := Option.bind_eq_some_iff.mp trace
  obtain ⟨opened, entered, rest⟩ := Option.bind_eq_some_iff.mp rest
  obtain ⟨after, finished, values⟩ := Option.map_eq_some_iff.mp rest
  simp only [Prod.mk.injEq, decide_eq_true_eq, decide_eq_false_iff_not] at values
  have first : FsCall.Returns (mounted oneFileVolume) (.createDir [0x44]) made :=
    ⟨3, some exit, by rw [FsCall.run, created]; rfl⟩
  have second : FsCall.Returns made (.openDir [0x44]) opened :=
    ⟨3, none, by rw [FsCall.run, entered]; rfl⟩
  refine ⟨opened, after, .next trivial first (.next trivial second .done), finished, fun unused => ?_⟩
  exact (unused opened.boot.rootCluster.toNat values.1 values.2).1 .refl

end LivlyOS.Fs
