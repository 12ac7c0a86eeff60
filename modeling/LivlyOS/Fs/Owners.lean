import LivlyOS.Fs.ParentLink

/-! Who owns which clusters on a volume with any number of sectors per cluster, and
what a stored entry adds to it. -/

namespace LivlyOS.Fs

open LivlyOS.Lib

namespace Catalog

/-- The chain of one file is another one. -/
def rechain (cat : Catalog) (file : Nat) (clusters : List Nat) : Catalog :=
  { cat with chains := Function.update cat.chains file clusters }

theorem rechain_same (cat : Catalog) (file : Nat) (clusters : List Nat) :
    (cat.rechain file clusters).chains file = clusters :=
  Function.update_self ..

theorem rechain_other (cat : Catalog) (clusters : List Nat) (different : other ≠ file) :
    (cat.rechain file clusters).chains other = cat.chains other :=
  Function.update_of_ne different ..

end Catalog

/-- The chains are terminated and disjoint. -/
structure ChainsApart (boot : FAT32BootSector) (disk : Disk) (cat : Catalog) : Prop where
  chain : ∀ file ∈ cat.files, FatChain boot disk file (cat.chains file)
  disjoint : ∀ file ∈ cat.files, ∀ other ∈ cat.files, ∀ cluster ∈ cat.chains file,
    cluster ∈ cat.chains other → file = other

namespace ChainsApart

theorem used (apart : ChainsApart boot disk cat) (member : file ∈ cat.files)
    (inChain : cluster ∈ cat.chains file) : fatEntry boot disk cluster ≠ 0 :=
  (apart.chain file member).entry_ne_zero inChain

theorem first_mem (apart : ChainsApart boot disk cat) (member : file ∈ cat.files) :
    file ∈ cat.chains file :=
  (apart.chain file member).chain.first_mem

theorem first_eq (apart : ChainsApart boot disk cat) (member : file ∈ cat.files) (other : dir ∈ cat.files)
    (inChain : file ∈ cat.chains dir) : file = dir :=
  apart.disjoint file member dir other file (apart.first_mem member) inChain

theorem reach (apart : ChainsApart boot disk cat) (member : file ∈ cat.files)
    (inChain : middle ∈ cat.chains file) (reach : Reach boot disk middle cluster) :
    cluster ∈ cat.chains file := by
  obtain ⟨before, after, whole, tail⟩ := (apart.chain file member).suffix inChain
  rw [whole]
  exact List.mem_append_right before (tail.reach_mem reach)

/-- One chain is replaced by one over its own clusters and free ones. -/
theorem rechain (apart : ChainsApart boot disk cat) (chain : FatChain boot disk' file clusters)
    (within : ∀ cluster ∈ clusters, cluster ∈ cat.chains file ∨ fatEntry boot disk cluster = 0)
    (member : file ∈ cat.files)
    (others : ∀ other ∈ cat.files, other ≠ file → ∀ cluster ∈ cat.chains other,
      fatEntry boot disk' cluster = fatEntry boot disk cluster) :
    ChainsApart boot disk' (cat.rechain file clusters) := by
  have foreign : ∀ other ∈ cat.files, other ≠ file → ∀ cluster ∈ clusters, cluster ∉ cat.chains other := by
    intro other otherMember different cluster new old
    rcases within cluster new with own | free
    · exact different (apart.disjoint other otherMember file member cluster old own)
    · exact apart.used otherMember old free
  constructor
  · intro other otherMember
    by_cases same : other = file
    · rw [same, Catalog.rechain_same]
      exact chain
    · rw [cat.rechain_other clusters same]
      exact (apart.chain other otherMember).congr (others other otherMember same)
  · intro left leftMember right rightMember cluster inLeft inRight
    by_cases leftSame : left = file
    · by_cases rightSame : right = file
      · exact leftSame.trans rightSame.symm
      · rw [leftSame, Catalog.rechain_same] at inLeft
        rw [cat.rechain_other clusters rightSame] at inRight
        exact absurd inRight (foreign right rightMember rightSame cluster inLeft)
    · rw [cat.rechain_other clusters leftSame] at inLeft
      by_cases rightSame : right = file
      · rw [rightSame, Catalog.rechain_same] at inRight
        exact absurd inLeft (foreign left leftMember leftSame cluster inRight)
      · rw [cat.rechain_other clusters rightSame] at inRight
        exact apart.disjoint left leftMember right rightMember cluster inLeft inRight

theorem add (apart : ChainsApart boot disk cat) (chain : FatChain boot disk n [n])
    (new : ∀ file ∈ cat.files, n ∉ cat.chains file) (directory : Bool) :
    ChainsApart boot disk (cat.add n directory) := by
  have old : ∀ file ∈ cat.files, file ≠ n := by
    rintro file member rfl
    exact new file member (apart.first_mem member)
  constructor
  · rintro file (rfl | member)
    · rw [Catalog.add_chains_new]
      exact chain
    · rw [cat.add_chains_ne (old file member)]
      exact apart.chain file member
  · rintro left (rfl | leftMember) right (rfl | rightMember) cluster inLeft inRight
    · rfl
    · rw [Catalog.add_chains_new, List.mem_singleton] at inLeft
      rw [cat.add_chains_ne (old right rightMember), inLeft] at inRight
      exact absurd inRight (new right rightMember)
    · rw [Catalog.add_chains_new, List.mem_singleton] at inRight
      rw [cat.add_chains_ne (old left leftMember), inRight] at inLeft
      exact absurd inLeft (new left leftMember)
    · rw [cat.add_chains_ne (old left leftMember)] at inLeft
      rw [cat.add_chains_ne (old right rightMember)] at inRight
      exact apart.disjoint left leftMember right rightMember cluster inLeft inRight

end ChainsApart

namespace Place

section

variable (boot : FAT32BootSector) (disk : Disk)

/-- The cluster the slot refers to. -/
def target (place : Place) : Nat := (place.buf boot disk).slotCluster place.slot

/-- The slot has the directory bit. -/
def Directory (place : Place) : Prop := (place.buf boot disk).slotDirectory place.slot = true

/-- The first or second slot of one of the directories below the root. -/
def Link (dirs : Set Nat) (place : Place) : Prop :=
  place.cluster ∈ dirs ∧ place.cluster ≠ boot.rootCluster.toNat ∧ place.s = 0 ∧ place.slot < 2

/-- Both disks have the same bytes in the slot. -/
def Same (disk' : Disk) (place : Place) : Prop :=
  Sector.SameSlot (place.buf boot disk') (place.buf boot disk) place.slot

end

theorem Same.used {place : Place} (same : place.Same boot disk disk') :
    place.Used boot disk' ↔ place.Used boot disk := by
  rw [Used, Used, same.slotFree]

theorem Same.target {place : Place} (same : place.Same boot disk disk') :
    place.target boot disk' = place.target boot disk :=
  same.slotCluster

theorem Same.directory {place : Place} (same : place.Same boot disk disk') :
    place.Directory boot disk' ↔ place.Directory boot disk := by
  rw [Directory, Directory, Sector.slotDirectory, Sector.slotDirectory, same.attributes]

theorem Same.dot {place : Place} (same : place.Same boot disk disk') :
    (place.buf boot disk').slotDot place.slot = (place.buf boot disk).slotDot place.slot := by
  rw [Sector.slotDot, Sector.slotDot, same.slotMatches, same.slotMatches]

end Place

/-- An entry in use of a directory that refers to a cluster. -/
structure Catalog.Entry (boot : FAT32BootSector) (disk : Disk) (cat : Catalog) (dir : Nat)
    (place : Place) : Prop where
  known : dir ∈ cat.dirs
  inside : place.In boot (cat.chains dir)
  used : place.Used boot disk
  regular : ¬ place.Link boot cat.dirs
  refers : place.target boot disk ≠ 0

/-- The slot is `.` or `..`, and leads to the directory itself, to the one directory with
entries for it, or to 0. -/
structure Catalog.DirLink (boot : FAT32BootSector) (disk : Disk) (cat : Catalog) (dir : Nat)
    (place : Place) : Prop where
  used : place.Used boot disk
  dot : (place.buf boot disk).slotDot place.slot = true
  leads : place.target boot disk = 0 ∨ ∃ parent ∈ cat.dirs, place.target boot disk ∈ cat.chains parent ∧
    (parent = dir ∨ ∀ home other, cat.Entry boot disk home other → other.target boot disk = dir → home = parent)

/-- The catalog accounts for the volume: the entries of its directories own different
chains, and the first two slots of each directory below the root are its links. -/
structure Owners (boot : FAT32BootSector) (disk : Disk) (cat : Catalog) : Prop where
  root : boot.rootCluster.toNat ∈ cat.dirs
  dirs_files : cat.dirs ⊆ cat.files
  apart : ChainsApart boot disk cat
  owner : ∀ dir place, cat.Entry boot disk dir place → place.target boot disk ∈ cat.files ∧
    place.target boot disk ≠ boot.rootCluster.toNat ∧ place.target boot disk ≠ dir
  directory : ∀ dir place, cat.Entry boot disk dir place → place.Directory boot disk →
    place.target boot disk ∈ cat.dirs
  single : ∀ dir place dir' place', cat.Entry boot disk dir place → cat.Entry boot disk dir' place' →
    place.target boot disk = place'.target boot disk → place = place'
  link : ∀ dir ∈ cat.dirs, dir ≠ boot.rootCluster.toNat → ∀ slot < 2,
    cat.DirLink boot disk dir ⟨dir, 0, slot⟩

/-- The catalog has grown. -/
structure Catalog.Grows (cat cat' : Catalog) : Prop where
  files : cat.files ⊆ cat'.files
  dirs : cat.dirs ⊆ cat'.dirs
  chains : ∀ file ∈ cat.files, ∀ cluster ∈ cat.chains file, cluster ∈ cat'.chains file

theorem Catalog.Grows.rechain {cat : Catalog} (longer : ∀ cluster ∈ cat.chains file, cluster ∈ clusters) :
    cat.Grows (cat.rechain file clusters) := by
  refine ⟨fun _ => id, fun _ => id, fun other _ cluster present => ?_⟩
  by_cases same : other = file
  · rw [same, Catalog.rechain_same]
    exact longer cluster (same ▸ present)
  · rw [cat.rechain_other clusters same]
    exact present

theorem Catalog.Grows.add {cat cat' : Catalog} (grows : cat.Grows cat') (new : n ∉ cat.files)
    (directory : Bool) : cat.Grows (cat'.add n directory) := by
  refine ⟨fun _ member => .inr (grows.files member),
    fun _ member => Catalog.mem_add_dirs.mpr (.inl (grows.dirs member)), ?_⟩
  intro other member cluster present
  rw [Catalog.add_chains_ne]
  · exact grows.chains other member cluster present
  · rintro rfl
    exact new member

/-- What a step may add to a volume: one entry of the directory `home` for a cluster
that was nobody's, and the links of a directory in it. -/
structure Catalog.Addition (boot : FAT32BootSector) (disk disk' : Disk) (cat cat' : Catalog)
    (home n : Nat) (new : Place) : Prop where
  known : home ∈ cat.dirs
  fresh : n ∉ cat.files
  entries : ∀ dir place, cat'.Entry boot disk' dir place →
    (cat.Entry boot disk dir place ∧ place.Same boot disk disk') ∨
      (dir = home ∧ place = new ∧ n ∈ cat'.files ∧ (new.Directory boot disk' → n ∈ cat'.dirs))
  target : new.target boot disk' = n
  links : ∀ dir ∈ cat'.dirs, dir ≠ boot.rootCluster.toNat → ∀ slot < 2,
    (dir ∈ cat.dirs ∧ Place.Same boot disk disk' ⟨dir, 0, slot⟩) ∨
      (dir = n ∧ Place.Used boot disk' ⟨dir, 0, slot⟩ ∧
        (Place.buf boot disk' ⟨dir, 0, slot⟩).slotDot slot = true ∧
        (Place.target boot disk' ⟨dir, 0, slot⟩ ∈ cat'.chains n ∨
          Place.target boot disk' ⟨dir, 0, slot⟩ ∈ cat'.chains home))

/-- A volume that is accounted for stays so when one entry is added. -/
theorem Owners.grown (owners : Owners boot disk cat) (grows : cat.Grows cat')
    (dirs_files : cat'.dirs ⊆ cat'.files) (apart : ChainsApart boot disk' cat')
    (addition : cat.Addition boot disk disk' cat' home n new) : Owners boot disk' cat' := by
  have foreign : ∀ dir place, cat.Entry boot disk dir place → place.target boot disk ≠ n := by
    intro dir place entry same
    exact addition.fresh (same ▸ (owners.owner dir place entry).1)
  have notRoot : n ≠ boot.rootCluster.toNat := by
    intro same
    exact addition.fresh (same ▸ owners.dirs_files owners.root)
  refine ⟨grows.dirs owners.root, dirs_files, apart, ?_, ?_, ?_, ?_⟩
  · intro dir place entry
    rcases addition.entries dir place entry with ⟨old, same⟩ | ⟨rfl, rfl, member, _⟩
    · rw [same.target]
      obtain ⟨member, other, outside⟩ := owners.owner dir place old
      exact ⟨grows.files member, other, outside⟩
    · rw [addition.target]
      refine ⟨member, notRoot, ?_⟩
      rintro rfl
      exact addition.fresh (owners.dirs_files addition.known)
  · intro dir place entry isDir
    rcases addition.entries dir place entry with ⟨old, same⟩ | ⟨_, rfl, _, made⟩
    · rw [same.target]
      exact grows.dirs (owners.directory dir place old (same.directory.mp isDir))
    · rw [addition.target]
      exact made isDir
  · intro dir place dir' place' entry entry' shared
    rcases addition.entries dir place entry with ⟨old, same⟩ | ⟨_, rfl, _⟩
    · rcases addition.entries dir' place' entry' with ⟨old', same'⟩ | ⟨_, rfl, _⟩
      · rw [same.target, same'.target] at shared
        exact owners.single dir place dir' place' old old' shared
      · rw [same.target, addition.target] at shared
        exact absurd shared (foreign dir place old)
    · rcases addition.entries dir' place' entry' with ⟨old', same'⟩ | ⟨_, rfl, _⟩
      · rw [same'.target, addition.target] at shared
        exact absurd shared.symm (foreign dir' place' old')
      · rfl
  · intro dir member below slot inside
    rcases addition.links dir member below slot inside with ⟨old, same⟩ | ⟨rfl, used, dot, leads⟩
    · obtain ⟨used, dot, leads⟩ := owners.link dir old below slot inside
      refine ⟨same.used.mpr used, same.dot.trans dot, ?_⟩
      rw [same.target]
      rcases leads with zero | ⟨parent, parentMember, inChain, only⟩
      · exact .inl zero
      · refine .inr ⟨parent, grows.dirs parentMember,
          grows.chains parent (owners.dirs_files parentMember) _ inChain, only.imp_right ?_⟩
        intro only home' place entry refers
        rcases addition.entries home' place entry with ⟨oldEntry, samePlace⟩ | ⟨_, rfl, _⟩
        · exact only home' place oldEntry (samePlace.target.symm.trans refers)
        · rw [addition.target] at refers
          exact absurd (owners.dirs_files old) (refers ▸ addition.fresh)
    · refine ⟨used, dot, .inr ?_⟩
      rcases leads with own | above
      · exact ⟨dir, member, own, .inl rfl⟩
      · refine ⟨home, grows.dirs addition.known, above, .inr ?_⟩
        intro home' place entry refers
        rcases addition.entries home' place entry with ⟨oldEntry, samePlace⟩ | ⟨same, _⟩
        · rw [samePlace.target] at refers
          exact absurd refers (foreign home' place oldEntry)
        · exact same

/-- The sectors of a cluster that has become a directory: the links, then no entries. -/
structure NewDirectory (boot : FAT32BootSector) (disk : Disk) (n parent : Nat) : Prop where
  first : clusterData boot disk n 0 = dirSector n parent
  rest : ∀ t < boot.spc, t ≠ 0 → ∀ slot < 16, (clusterData boot disk n t).slotFree slot = true

theorem NewDirectory.used (made : NewDirectory boot disk n parent) {place : Place}
    (inside : place.In boot [n]) : place.Used boot disk ↔ place.s = 0 ∧ place.slot < 2 := by
  obtain ⟨cluster, s, slot⟩ := place
  have here : cluster = n := List.mem_singleton.mp inside.1
  rw [Place.Used, Place.buf, here]
  by_cases first : s = 0
  · subst first
    have byte := dirSector_nameByte n parent slot (by decide : 0 < 8)
    simp only [made.first, Sector.slotFree, byte, true_and]
    rcases slot with _ | _ | slot
    · decide
    · decide
    · simp
  · simp [made.rest s inside.2.1 first slot inside.2.2, first]

theorem NewDirectory.link (made : NewDirectory boot disk n parent) (wf : boot.WellFormed)
    (data : boot.DataCluster n) (parentData : boot.DataCluster parent) (inside : slot < 2) :
    Place.Used boot disk ⟨n, 0, slot⟩ ∧ (Place.buf boot disk ⟨n, 0, slot⟩).slotDot slot = true ∧
      (Place.target boot disk ⟨n, 0, slot⟩ = n ∨ Place.target boot disk ⟨n, 0, slot⟩ = parent) := by
  have below : slot < 16 := Nat.lt_trans inside (by decide)
  have small : ∀ cluster, boot.DataCluster cluster → cluster < 4294967296 := by
    intro cluster data
    exact Nat.lt_trans (data_lt_endOfChain wf data) (by decide)
  have used : Place.Used boot disk ⟨n, 0, slot⟩ :=
    (made.used (⟨List.mem_singleton_self n, wf.spc_pos, below⟩ : Place.In boot [n] ⟨n, 0, slot⟩)).mpr
      ⟨rfl, inside⟩
  refine ⟨used, ?_⟩
  simp only [Place.Used, Place.target, Place.buf, made.first] at used ⊢
  exact dirSector_links (small n data) (small parent parentData) below used

section Stored

variable {cat : Catalog} (owners : Owners boot disk cat) (known : home ∈ cat.dirs)
  (inChain : first ∈ cat.chains home) (directory : FatChain boot disk first dirs)
  (entry : EntryStored boot disk disk' first dirs dirs' name ext attributes n owner s slot)
include owners known inChain directory entry

/-- The directory from its first cluster on: what lies before `first` stays. -/
theorem EntryStored.wholeChain : ∃ before, cat.chains home = before ++ dirs ∧
    FatChain boot disk' home (before ++ dirs') := by
  have chain := owners.apart.chain home (owners.dirs_files known)
  obtain ⟨before, after, whole, tail⟩ := chain.suffix inChain
  have same : after = dirs := tail.unique directory
  subst same
  obtain ⟨rest, headed⟩ := directory.chain.cons
  have nodup := chain.chain.nodup
  rw [whole] at chain nodup
  have apart := (List.nodup_append.mp nodup).2.2
  refine ⟨before, whole, ?_, ?_⟩
  · have linked := chain.chain
    rw [headed] at linked
    refine linked.relink (fun cluster member => nextOf_congr ?_) entry.chain.chain
    have inWhole := List.mem_append_left after member
    exact entry.entries cluster (chain.data cluster inWhole).2
      (fun other => apart cluster member cluster other rfl) (chain.entry_ne_zero inWhole)
  · intro cluster member
    rcases List.mem_append.mp member with early | late
    · exact chain.data cluster (List.mem_append_left after early)
    · exact entry.chain.data cluster late

/-- Clusters of other files are outside the directory and keep their links. -/
theorem EntryStored.links (file : Nat) (member : file ∈ cat.files) (different : file ≠ home) :
    ∀ cluster ∈ cat.chains file, fatEntry boot disk' cluster = fatEntry boot disk cluster := by
  intro cluster present
  obtain ⟨before, whole, _⟩ := entry.wholeChain owners known inChain directory
  have data := (owners.apart.chain file member).data cluster present
  refine entry.entries cluster data.2 ?_ (owners.apart.used member present)
  intro inDirs
  refine different (owners.apart.disjoint file member home (owners.dirs_files known) cluster present ?_)
  rw [whole]
  exact List.mem_append_right before inDirs

omit known inChain in
/-- All other slots of clusters in use hold what they held. -/
theorem EntryStored.same (member : file ∈ cat.files) {place : Place}
    (inside : place.In boot (cat.chains file)) (other : place ≠ ⟨owner, s, slot⟩) :
    place.Same boot disk disk' := by
  obtain ⟨cluster, t, index⟩ := place
  obtain ⟨present, tInside, _⟩ := inside
  have used := owners.apart.used member present
  have data := (owners.apart.chain file member).data cluster present
  by_cases inDirs : cluster ∈ dirs
  · have grown : cluster ∈ dirs' := by
      rcases entry.grows with rfl | ⟨more, _, rfl⟩
      · exact inDirs
      · exact List.mem_append_left _ inDirs
    have elsewhere : ¬ (cluster = owner ∧ t = s ∧ index = slot) := by
      rintro ⟨rfl, rfl, rfl⟩
      exact other rfl
    have same := entry.sameSlot grown tInside elsewhere
    rw [sectorBefore, if_pos inDirs] at same
    exact same
  · have kept := (entry.untouched cluster data inDirs used).2 t tInside
    rw [Place.Same, Place.buf, Place.buf, kept]
    exact .refl _ _

omit owners known inChain directory in
/-- The slots of a new directory cluster are free. -/
theorem EntryStored.zeroed {place : Place} (inside : place.In boot dirs') (new : place.cluster ∉ dirs)
    (other : place ≠ ⟨owner, s, slot⟩) : ¬ place.Used boot disk' := by
  obtain ⟨cluster, t, index⟩ := place
  have elsewhere : ¬ (cluster = owner ∧ t = s ∧ index = slot) := by
    rintro ⟨rfl, rfl, rfl⟩
    exact other rfl
  have same := entry.sameSlot inside.1 inside.2.1 elsewhere
  rw [sectorBefore, if_neg new] at same
  rw [Place.Used, Place.buf, same.slotFree, Sector.zero_slotFree]
  decide

theorem EntryStored.chainsApart : ∃ clusters, ChainsApart boot disk' (cat.rechain home clusters) ∧
    ∀ cluster, cluster ∈ clusters ↔ cluster ∈ cat.chains home ∨ cluster ∈ dirs' := by
  obtain ⟨before, whole, chain⟩ := entry.wholeChain owners known inChain directory
  have file := owners.dirs_files known
  have grown : ∀ cluster ∈ dirs, cluster ∈ dirs' := by
    intro cluster member
    rcases entry.grows with rfl | ⟨more, _, rfl⟩
    · exact member
    · exact List.mem_append_left _ member
  refine ⟨before ++ dirs', owners.apart.rechain chain ?_ file ?_, ?_⟩
  · intro cluster member
    rw [whole]
    rcases List.mem_append.mp member with early | late
    · exact .inl (List.mem_append_left _ early)
    · exact (entry.within cluster late).imp_left (List.mem_append_right before)
  · exact entry.links owners known inChain directory
  · intro cluster
    rw [whole, List.mem_append, List.mem_append]
    constructor
    · exact Or.imp_left .inl
    · rintro ((early | late) | new)
      · exact .inl early
      · exact .inr (grown cluster late)
      · exact .inr new

/-- An entry in a directory there was is the new one or an old one. -/
theorem EntryStored.oldEntry (apart : ChainsApart boot disk' (cat.rechain home clusters))
    (grown : ∀ cluster, cluster ∈ clusters ↔ cluster ∈ cat.chains home ∨ cluster ∈ dirs') {place : Place}
    (member : dir ∈ cat.dirs) (inside : place.In boot ((cat.rechain home clusters).chains dir))
    (used : place.Used boot disk') (regular : ¬ place.Link boot cat.dirs)
    (refers : place.target boot disk' ≠ 0) :
    (cat.Entry boot disk dir place ∧ place.Same boot disk disk') ∨ (dir = home ∧ place = ⟨owner, s, slot⟩) := by
  have file := owners.dirs_files member
  by_cases new : place = ⟨owner, s, slot⟩
  · refine .inr ⟨?_, new⟩
    refine apart.disjoint dir file home (owners.dirs_files known) place.cluster inside.1 ?_
    rw [Catalog.rechain_same, new]
    exact (grown owner).mpr (.inr entry.member)
  · refine .inl ?_
    have old : place.In boot (cat.chains dir) := by
      refine ⟨?_, inside.2⟩
      by_cases here : dir = home
      · have present := inside.1
        rw [here, Catalog.rechain_same] at present
        rw [here]
        rcases (grown place.cluster).mp present with old | late
        · exact old
        · by_contra outside
          obtain ⟨before, whole, _⟩ := entry.wholeChain owners known inChain directory
          refine entry.zeroed ⟨late, inside.2⟩ (fun inDirs => outside ?_) new used
          rw [whole]
          exact List.mem_append_right before inDirs
      · have present := inside.1
        rw [cat.rechain_other clusters here] at present
        exact present
    have same := entry.same owners directory file old new
    exact ⟨⟨member, old, same.used.mp used, regular, same.target ▸ refers⟩, same⟩

omit known inChain in
theorem EntryStored.oldLink (member : dir ∈ cat.dirs) (below : dir ≠ boot.rootCluster.toNat)
    (inside : index < 2) : Place.Same boot disk disk' ⟨dir, 0, index⟩ := by
  have file := owners.dirs_files member
  have first := owners.apart.first_mem file
  have used := (owners.link dir member below index inside).used
  have spc : 0 < boot.spc := Nat.lt_of_le_of_lt (Nat.zero_le s) entry.inside
  refine entry.same owners directory file ⟨first, spc, Nat.lt_trans inside (by decide)⟩ ?_
  intro here
  obtain ⟨rfl, rfl, rfl⟩ : dir = owner ∧ 0 = s ∧ index = slot := by
    simpa using here
  have free := entry.free
  rcases entry.within dir entry.member with inDirs | zero
  · rw [sectorBefore, if_pos inDirs] at free
    rw [Place.Used, Place.buf, free] at used
    cases used
  · exact owners.apart.used file first zero

omit owners known inChain directory in
theorem EntryStored.target (wf : boot.WellFormed) : Place.target boot disk' ⟨owner, s, slot⟩ = n := by
  have small : n < 4294967296 := by
    by_cases none : n = 0
    · omega
    · exact Nat.lt_trans (data_lt_endOfChain wf (entry.taken none).1) (by decide)
  rw [Place.target, Place.buf, entry.sector, createdSlot_cluster _ _ _ _ entry.below small]

/-- Without a cluster of its own the entry adds nothing. -/
theorem EntryStored.alone (wf : boot.WellFormed) (apart : ChainsApart boot disk' (cat.rechain home clusters))
    (grown : ∀ cluster, cluster ∈ clusters ↔ cluster ∈ cat.chains home ∨ cluster ∈ dirs') (none : n = 0) :
    Catalog.Addition boot disk disk' cat (cat.rechain home clusters) home n ⟨owner, s, slot⟩ := by
  have target := entry.target wf
  refine ⟨known, ?_, ?_, target, ?_⟩
  · intro zero
    have low := ((owners.apart.chain n zero).first_data).1
    omega
  · intro dir place found
    rcases entry.oldEntry owners known inChain directory apart grown found.known found.inside found.used
      found.regular found.refers with old | ⟨_, rfl⟩
    · exact .inl old
    · exact absurd (target.trans none) found.refers
  · intro dir member below index inside
    exact .inl ⟨member, entry.oldLink owners directory member below inside⟩

omit inChain directory in
theorem EntryStored.new (grown : ∀ cluster, cluster ∈ clusters ↔ cluster ∈ cat.chains home ∨ cluster ∈ dirs')
    (some : n ≠ 0) : ∀ other ∈ cat.files, n ∉ (cat.rechain home clusters).chains other := by
  obtain ⟨_, free, _, outside⟩ := entry.taken some
  intro other member present
  by_cases same : other = home
  · rw [same, Catalog.rechain_same] at present
    rcases (grown n).mp present with old | late
    · exact owners.apart.used (owners.dirs_files known) old free
    · exact outside late
  · rw [cat.rechain_other clusters same] at present
    exact owners.apart.used member present free

/-- The entry of a file or directory with its own cluster. -/
theorem EntryStored.addition (wf : boot.WellFormed)
    (apart : ChainsApart boot disk' (cat.rechain home clusters))
    (grown : ∀ cluster, cluster ∈ clusters ↔ cluster ∈ cat.chains home ∨ cluster ∈ dirs') (some : n ≠ 0)
    (kind : decide (attributes &&& 0x10 ≠ 0) = isDir) (made : isDir = true → NewDirectory boot disk' n owner) :
    Catalog.Addition boot disk disk' cat ((cat.rechain home clusters).add n isDir) home n ⟨owner, s, slot⟩ := by
  have file := owners.dirs_files known
  have fresh := entry.new owners known grown some
  have new : n ∉ cat.files := fun member => fresh n member (apart.first_mem member)
  have others : ∀ other ∈ cat.files, other ≠ n := by
    rintro other member rfl
    exact new member
  refine ⟨known, new, ?_, entry.target wf, ?_⟩
  · intro dir place found
    obtain ⟨member, inside, used, regular, refers⟩ := found
    rcases Catalog.mem_add_dirs.mp member with old | ⟨set, rfl⟩
    · rw [Catalog.add_chains_ne _ (others dir (owners.dirs_files old))] at inside
      have regular' : ¬ place.Link boot cat.dirs :=
        fun link => regular ⟨Catalog.mem_add_dirs.mpr (.inl link.1), link.2⟩
      refine (entry.oldEntry owners known inChain directory apart grown old inside used regular' refers).imp_right ?_
      rintro ⟨here, rfl⟩
      refine ⟨here, rfl, .inl rfl, fun isDirectory => Catalog.mem_add_dirs.mpr (.inr ⟨?_, rfl⟩)⟩
      rw [Place.Directory, Place.buf, entry.sector, Sector.slotDirectory,
        createdSlot_attributes _ _ _ _ _ entry.below] at isDirectory
      exact kind.symm.trans isDirectory
    · rw [Catalog.add_chains_new] at inside
      obtain ⟨first, second⟩ := ((made set).used inside).mp used
      have here : place.cluster = dir := List.mem_singleton.mp inside.1
      refine absurd ⟨here ▸ member, ?_, first, second⟩ regular
      rw [here]
      rintro rfl
      exact new (owners.dirs_files owners.root)
  · intro dir member below index inside
    rcases Catalog.mem_add_dirs.mp member with old | ⟨set, rfl⟩
    · exact .inl ⟨old, entry.oldLink owners directory old below inside⟩
    · obtain ⟨used, dot, leads⟩ := (made set).link wf (entry.taken some).1
        (entry.chain.data owner entry.member) inside
      refine .inr ⟨rfl, used, dot, leads.imp ?_ ?_⟩
      · intro own
        rw [Catalog.add_chains_new]
        exact List.mem_singleton.mpr own
      · intro above
        rw [above, Catalog.add_chains_ne _ (others home file), Catalog.rechain_same]
        exact (grown owner).mpr (.inr entry.member)

/-- The volume behind a stored entry is accounted for. -/
theorem EntryStored.owned (wf : boot.WellFormed)
    (made : n ≠ 0 → attributes &&& 0x10 ≠ 0 → NewDirectory boot disk' n owner) :
    ∃ cat', cat.Grows cat' ∧ Owners boot disk' cat' := by
  obtain ⟨clusters, apart, grown⟩ := entry.chainsApart owners known inChain directory
  have grows := Catalog.Grows.rechain (fun cluster present => (grown cluster).mpr (.inl present))
  by_cases none : n = 0
  · exact ⟨_, grows, owners.grown grows owners.dirs_files apart
      (entry.alone owners known inChain directory wf apart grown none)⟩
  · obtain ⟨data, _, taken, _⟩ := entry.taken none
    have fresh := entry.new owners known grown none
    have new : n ∉ cat.files := fun member => fresh n member (apart.first_mem member)
    have chain : FatChain boot disk' n [n] :=
      ⟨.last (nextOf_last taken), fun _ member => List.mem_singleton.mp member ▸ data⟩
    have dirs_files : ((cat.rechain home clusters).add n (decide (attributes &&& 0x10 ≠ 0))).dirs ⊆
        ((cat.rechain home clusters).add n (decide (attributes &&& 0x10 ≠ 0))).files := by
      intro dir member
      rcases Catalog.mem_add_dirs.mp member with old | ⟨_, rfl⟩
      · exact .inr (owners.dirs_files old)
      · exact .inl rfl
    exact ⟨_, grows.add new _, owners.grown (grows.add new _) dirs_files (apart.add chain fresh _)
      (entry.addition owners known inChain directory wf apart grown none rfl
        (fun isDir => made none (of_decide_eq_true isDir)))⟩

end Stored

end LivlyOS.Fs
