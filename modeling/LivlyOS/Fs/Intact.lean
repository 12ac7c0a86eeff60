import LivlyOS.Fs.Tree

/-! Volumes without cross-linked clusters, read off the disk: the root directory
and every entry in use that a walk through the directories meets has a
terminated chain, and no two of these chains share a cluster. -/

namespace LivlyOS.Fs

open LivlyOS.Lib

/-- The root directory or the entry in a slot of a directory cluster. -/
inductive Owner where
  | root
  | entry (cluster slot : Nat)

variable (boot : FAT32BootSector) (disk : Disk)

namespace Owner

def first : Owner → Nat
  | root => boot.rootCluster.toNat
  | entry cluster slot => (dirSectorOf boot disk cluster).slotCluster slot

def IsDir : Owner → Prop
  | root => True
  | entry cluster slot => (dirSectorOf boot disk cluster).slotDirectory slot = true

/-- The owners a walk from the root directory meets. -/
inductive Live : Owner → Prop where
  | root : Live root
  | entry (live : Live owner) (isDir : owner.IsDir boot disk)
      (chain : FatChain boot disk (owner.first boot disk) clusters) (member : cluster ∈ clusters)
      (inside : slot < 16) (used : (dirSectorOf boot disk cluster).slotEntry slot) :
      Live (entry cluster slot)

end Owner

/-- A cluster of a directory that is in use. -/
def LiveCluster (cluster : Nat) : Prop :=
  ∃ owner clusters, Owner.Live boot disk owner ∧ owner.IsDir boot disk ∧
    FatChain boot disk (owner.first boot disk) clusters ∧ cluster ∈ clusters

/-- Terminated, pairwise disjoint chains. -/
structure Intact : Prop where
  chain : ∀ owner, Owner.Live boot disk owner →
    ∃ clusters, FatChain boot disk (owner.first boot disk) clusters
  disjoint : ∀ owner other, Owner.Live boot disk owner → Owner.Live boot disk other → owner ≠ other →
    ∀ left right, FatChain boot disk (owner.first boot disk) left →
      FatChain boot disk (other.first boot disk) right → List.Disjoint left right

/-- The `.` and `..` of directories lead to directories, or hold 0 for the root. -/
def Linked : Prop :=
  ∀ cluster, LiveCluster boot disk cluster → ∀ slot < 16,
    (dirSectorOf boot disk cluster).slotLink slot →
      (dirSectorOf boot disk cluster).slotCluster slot = 0 ∨
        LiveCluster boot disk ((dirSectorOf boot disk cluster).slotCluster slot)

variable {boot disk}

/-- An owner the catalog accounts for. -/
def Owner.Recorded (boot : FAT32BootSector) (disk : Disk) (cat : Catalog) : Owner → Prop
  | root => True
  | entry cluster slot =>
    cat.DirCluster cluster ∧ slot < 16 ∧ (dirSectorOf boot disk cluster).slotEntry slot

namespace Tree

variable (tree : Tree boot disk cat)
include tree

theorem first_file (recorded : Owner.Recorded boot disk cat owner) :
    owner.first boot disk ∈ cat.files ∧ (owner.first boot disk ∈ cat.dirs ↔ owner.IsDir boot disk) := by
  cases owner with
  | root => exact ⟨tree.dirs_files _ tree.root, fun _ => trivial, fun _ => tree.root⟩
  | entry cluster slot =>
    obtain ⟨inDir, inside, entry⟩ := recorded
    obtain ⟨owned, _, isDir⟩ := tree.entry cluster inDir slot inside entry
    exact ⟨owned, isDir⟩

theorem recorded (live : Owner.Live boot disk owner) : Owner.Recorded boot disk cat owner := by
  induction live with
  | root => trivial
  | entry live isDir chain member inside used ih =>
    obtain ⟨file, dir⟩ := tree.first_file ih
    refine ⟨⟨_, dir.mpr isDir, ?_⟩, inside, used⟩
    rw [← chain.chain.unique (tree.chain _ file).chain]
    exact member

/-- Different owners have different first clusters. -/
theorem owner_unique (recorded : Owner.Recorded boot disk cat owner)
    (otherRecorded : Owner.Recorded boot disk cat other)
    (same : owner.first boot disk = other.first boot disk) : owner = other := by
  cases owner with
  | root =>
    cases other with
    | root => rfl
    | entry cluster slot =>
      obtain ⟨inDir, inside, entry⟩ := otherRecorded
      exact absurd same.symm (tree.entry cluster inDir slot inside entry).2.1
  | entry cluster slot =>
    obtain ⟨inDir, inside, entry⟩ := recorded
    cases other with
    | root => exact absurd same (tree.entry cluster inDir slot inside entry).2.1
    | entry cluster' slot' =>
      obtain ⟨inDir', inside', entry'⟩ := otherRecorded
      obtain ⟨rfl, rfl⟩ :=
        tree.single cluster inDir slot inside cluster' inDir' slot' inside' entry entry' same
      rfl

theorem liveCluster (live : LiveCluster boot disk cluster) : cat.DirCluster cluster := by
  obtain ⟨owner, clusters, ownerLive, isDir, chain, inChain⟩ := live
  obtain ⟨file, dir⟩ := tree.first_file (tree.recorded ownerLive)
  rw [chain.chain.unique (tree.chain _ file).chain] at inChain
  exact ⟨_, dir.mpr isDir, inChain⟩

theorem intact : Intact boot disk where
  chain := fun owner live => ⟨_, tree.chain _ (tree.first_file (tree.recorded live)).1⟩
  disjoint := by
    intro owner other live otherLive different left right leftChain rightChain cluster inLeft inRight
    have recorded := tree.recorded live
    have otherRecorded := tree.recorded otherLive
    have file := (tree.first_file recorded).1
    have otherFile := (tree.first_file otherRecorded).1
    rw [leftChain.chain.unique (tree.chain _ file).chain] at inLeft
    rw [rightChain.chain.unique (tree.chain _ otherFile).chain] at inRight
    exact different (tree.owner_unique recorded otherRecorded
      (tree.disjoint _ file _ otherFile cluster inLeft inRight))

end Tree

namespace Intact

/-- Owners with the same first cluster are the same. -/
theorem owner_unique (intact : Intact boot disk) (live : Owner.Live boot disk owner)
    (otherLive : Owner.Live boot disk other)
    (same : owner.first boot disk = other.first boot disk) : owner = other := by
  by_contra different
  obtain ⟨clusters, chain⟩ := intact.chain owner live
  have otherChain := chain
  rw [same] at otherChain
  exact intact.disjoint owner other live otherLive different clusters clusters chain otherChain
    chain.chain.first_mem chain.chain.first_mem

theorem tree (intact : Intact boot disk) (linked : Linked boot disk) : ∃ cat, Tree boot disk cat := by
  have choice : ∀ file, ∃ clusters, (∃ clusters', FatChain boot disk file clusters') →
      FatChain boot disk file clusters := by
    intro file
    by_cases chained : ∃ clusters', FatChain boot disk file clusters'
    · obtain ⟨clusters, chain⟩ := chained
      exact ⟨clusters, fun _ => chain⟩
    · exact ⟨[], fun chained' => absurd chained' chained⟩
  choose chains chosen using choice
  have chainOf : ∀ owner, Owner.Live boot disk owner →
      FatChain boot disk (owner.first boot disk) (chains (owner.first boot disk)) :=
    fun owner live => chosen _ (intact.chain owner live)
  let cat : Catalog := {
    files := fun file => ∃ owner, Owner.Live boot disk owner ∧ owner.first boot disk = file
    dirs := fun dir => ∃ owner, Owner.Live boot disk owner ∧ owner.IsDir boot disk ∧
      owner.first boot disk = dir
    chains := chains }
  have clusters : ∀ cluster, cat.DirCluster cluster ↔ LiveCluster boot disk cluster := by
    intro cluster
    constructor
    · rintro ⟨_, ⟨owner, live, isDir, rfl⟩, inChain⟩
      exact ⟨owner, _, live, isDir, chainOf owner live, inChain⟩
    · rintro ⟨owner, clusters, live, isDir, chain, inChain⟩
      rw [chain.chain.unique (chainOf owner live).chain] at inChain
      exact ⟨_, ⟨owner, live, isDir, rfl⟩, inChain⟩
  have entryLive : ∀ cluster, cat.DirCluster cluster → ∀ slot < 16,
      (dirSectorOf boot disk cluster).slotEntry slot → Owner.Live boot disk (.entry cluster slot) := by
    intro cluster inDir slot inside used
    obtain ⟨owner, _, live, isDir, chain, inChain⟩ := (clusters cluster).mp inDir
    exact .entry live isDir chain inChain inside used
  refine ⟨cat, ⟨.root, .root, trivial, rfl⟩, ?_, ?_, ?_, ?_, ?_, ?_⟩
  · rintro dir ⟨owner, live, _, first⟩
    exact ⟨owner, live, first⟩
  · rintro file ⟨owner, live, rfl⟩
    exact chainOf owner live
  · rintro file ⟨owner, live, rfl⟩ other ⟨owner', live', rfl⟩ cluster inFile inOther
    by_contra different
    refine intact.disjoint owner owner' live live' ?_ _ _ (chainOf owner live) (chainOf owner' live')
      inFile inOther
    rintro rfl
    exact different rfl
  · intro cluster inDir slot inside used
    have live := entryLive cluster inDir slot inside used
    refine ⟨⟨_, live, rfl⟩, ?_, ?_, ?_⟩
    · intro same
      cases intact.owner_unique live .root same
    · rintro ⟨owner, ownerLive, isDir, same⟩
      cases intact.owner_unique ownerLive live same
      exact isDir
    · intro isDir
      exact ⟨_, live, isDir, rfl⟩
  · intro cluster inDir slot inside cluster' inDir' slot' inside' used used' same
    have live := entryLive cluster inDir slot inside used
    cases intact.owner_unique live (entryLive cluster' inDir' slot' inside' used') same
    exact ⟨rfl, rfl⟩
  · intro cluster inDir slot inside link
    rw [clusters]
    exact linked cluster ((clusters cluster).mp inDir) slot inside link

end Intact

end LivlyOS.Fs
