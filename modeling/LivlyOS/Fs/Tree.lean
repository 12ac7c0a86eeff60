import LivlyOS.Fs.Slots
import LivlyOS.Fs.Walk
import Mathlib.Data.Set.Insert

/-! Who owns which clusters on a volume with one sector per cluster: the root
directory and every entry in use own disjoint chains. -/

namespace LivlyOS.Fs

open LivlyOS.Lib

namespace Sector

/-- The slot is named `.` or `..`. -/
def slotDot (sector : Sector) (slot : Nat) : Bool :=
  sector.slotMatches [0x2E] slot || sector.slotMatches [0x2E, 0x2E] slot

/-- The directory bit of the attributes. -/
def slotDirectory (sector : Sector) (slot : Nat) : Bool := sector.attributes slot &&& 0x10 ≠ 0

/-- The slot is in use and is neither `.` nor `..`. -/
def slotEntry (sector : Sector) (slot : Nat) : Prop :=
  sector.slotFree slot = false ∧ sector.slotDot slot = false

instance (sector : Sector) (slot : Nat) : Decidable (sector.slotEntry slot) :=
  inferInstanceAs (Decidable (_ ∧ _))

/-- The slot is the `.` or `..` of a directory. -/
def slotLink (sector : Sector) (slot : Nat) : Prop :=
  sector.slotFree slot = false ∧ sector.slotDot slot = true ∧ sector.slotDirectory slot = true

/-- A match agrees with the searched name in its first character. -/
theorem slotMatches_first {sector : Sector} (hits : sector.slotMatches (first :: rest) slot = true)
    (visible : first ≠ 0) : sector.nameByte slot 0 = first := by
  rw [slotMatches, strEqualFat, strEqualFatFrom] at hits
  have head : CString.at (first :: rest) 0 = first := rfl
  simp only [head, visible, and_false, ↓reduceIte] at hits
  split at hits
  · cases hits
  · rename_i same
    exact not_not.mp same

theorem slotDot_first {sector : Sector} (dot : sector.slotDot slot = true) :
    sector.nameByte slot 0 = 0x2E := by
  rw [slotDot, Bool.or_eq_true] at dot
  rcases dot with one | two
  · exact slotMatches_first one (by decide)
  · exact slotMatches_first two (by decide)

theorem slotDot_ne {sector : Sector} (first : sector.nameByte slot 0 ≠ 0x2E) :
    sector.slotDot slot = false := by
  cases dot : sector.slotDot slot with
  | false => rfl
  | true => exact absurd (slotDot_first dot) first

end Sector

/-- First clusters of all chains, those of directories, and the chains. -/
structure Catalog where
  files : Set Nat
  dirs : Set Nat
  chains : Nat → List Nat

namespace Catalog

/-- A cluster of a directory. -/
def DirCluster (cat : Catalog) (cluster : Nat) : Prop := ∃ dir ∈ cat.dirs, cluster ∈ cat.chains dir

/-- One more file or directory of one cluster. -/
def add (cat : Catalog) (n : Nat) (directory : Bool) : Catalog where
  files := insert n cat.files
  dirs := if directory then insert n cat.dirs else cat.dirs
  chains := Function.update cat.chains n [n]

theorem mem_add_dirs {cat : Catalog} :
    dir ∈ (cat.add n directory).dirs ↔ dir ∈ cat.dirs ∨ (directory = true ∧ dir = n) := by
  cases directory <;> simp [add, or_comm]

theorem add_chains_ne (cat : Catalog) (different : file ≠ n) :
    (cat.add n directory).chains file = cat.chains file :=
  Function.update_of_ne different _ _

theorem add_chains_new (cat : Catalog) (n : Nat) (directory : Bool) :
    (cat.add n directory).chains n = [n] :=
  Function.update_self ..

theorem DirCluster.add {cat : Catalog} (inDir : cat.DirCluster cluster) (new : n ∉ cat.dirs)
    (directory : Bool) : (cat.add n directory).DirCluster cluster := by
  obtain ⟨dir, member, inChain⟩ := inDir
  refine ⟨dir, mem_add_dirs.mpr (.inl member), ?_⟩
  have different : dir ≠ n := fun same => new (same ▸ member)
  rw [add_chains_ne cat different]
  exact inChain

theorem DirCluster.of_add {cat : Catalog} (inDir : (cat.add n directory).DirCluster cluster)
    (new : n ∉ cat.dirs) : cat.DirCluster cluster ∨ (directory = true ∧ cluster = n) := by
  obtain ⟨dir, member, inChain⟩ := inDir
  rcases mem_add_dirs.mp member with old | ⟨isDir, rfl⟩
  · have different : dir ≠ n := fun same => new (same ▸ old)
    rw [add_chains_ne cat different] at inChain
    exact .inl ⟨dir, old, inChain⟩
  · rw [add_chains_new, List.mem_singleton] at inChain
    exact .inr ⟨isDir, inChain⟩

end Catalog

variable (boot : FAT32BootSector)

/-- The sector of a directory cluster on disk. -/
abbrev dirSectorOf (disk : Disk) (cluster : Nat) : Sector := clusterData boot disk cluster 0

/-- The catalog accounts for the volume: every entry in use in a directory of the
catalog has a first cluster of its own, and different chains are disjoint. -/
structure Tree (disk : Disk) (cat : Catalog) : Prop where
  root : boot.rootCluster.toNat ∈ cat.dirs
  dirs_files : ∀ dir ∈ cat.dirs, dir ∈ cat.files
  chain : ∀ file ∈ cat.files, FatChain boot disk file (cat.chains file)
  disjoint : ∀ file ∈ cat.files, ∀ other ∈ cat.files, ∀ cluster ∈ cat.chains file,
    cluster ∈ cat.chains other → file = other
  entry : ∀ cluster, cat.DirCluster cluster → ∀ slot < 16,
    (dirSectorOf boot disk cluster).slotEntry slot →
      (dirSectorOf boot disk cluster).slotCluster slot ∈ cat.files ∧
      (dirSectorOf boot disk cluster).slotCluster slot ≠ boot.rootCluster.toNat ∧
      ((dirSectorOf boot disk cluster).slotCluster slot ∈ cat.dirs ↔
        (dirSectorOf boot disk cluster).slotDirectory slot = true)
  single : ∀ cluster, cat.DirCluster cluster → ∀ slot < 16,
    ∀ cluster', cat.DirCluster cluster' → ∀ slot' < 16,
      (dirSectorOf boot disk cluster).slotEntry slot →
      (dirSectorOf boot disk cluster').slotEntry slot' →
      (dirSectorOf boot disk cluster).slotCluster slot =
        (dirSectorOf boot disk cluster').slotCluster slot' → cluster = cluster' ∧ slot = slot'
  link : ∀ cluster, cat.DirCluster cluster → ∀ slot < 16,
    (dirSectorOf boot disk cluster).slotLink slot →
      (dirSectorOf boot disk cluster).slotCluster slot = 0 ∨
        cat.DirCluster ((dirSectorOf boot disk cluster).slotCluster slot)

variable {boot}

/-- A slot in use after a change was in use before, with the same cluster and kind. -/
structure SlotKept (before after : Sector) (slot : Nat) : Prop where
  used : before.slotFree slot = false
  dot : after.slotDot slot = before.slotDot slot
  cluster : after.slotCluster slot = before.slotCluster slot
  directory : after.slotDirectory slot = before.slotDirectory slot

theorem SlotKept.ofFields {before after : Sector}
    (same : ∀ index < 28, after.bytes (32 * slot + index) = before.bytes (32 * slot + index))
    (used : after.slotFree slot = false) : SlotKept before after slot := by
  have matching : ∀ name, after.slotMatches name slot = before.slotMatches name slot :=
    fun name => slotMatches_congr (fun index below => same index (by omega))
  refine ⟨?_, ?_, ?_, ?_⟩
  · rw [Sector.slotFree, Sector.nameByte] at used ⊢
    rw [← same 0 (by decide)]
    exact used
  · rw [Sector.slotDot, Sector.slotDot, matching, matching]
  · exact Sector.slotCluster_congr (fun index _ below => same index below)
  · rw [Sector.slotDirectory, Sector.slotDirectory, Sector.attributes, Sector.attributes,
      same 11 (by decide)]

theorem SlotKept.ofSame {before after : Sector} (same : Sector.SameSlot after before slot)
    (used : after.slotFree slot = false) : SlotKept before after slot :=
  .ofFields (fun index below => same index (by omega)) used

theorem SlotKept.entry (kept : SlotKept before after slot) (entry : after.slotEntry slot) :
    before.slotEntry slot :=
  ⟨kept.used, kept.dot ▸ entry.2⟩

namespace Tree

/-- Nothing new appears: the chains may be cut or grow, slots may be freed or renamed. -/
theorem transfer (tree : Tree boot disk cat) (chains : Nat → List Nat)
    (chain : ∀ file ∈ cat.files, FatChain boot disk' file (chains file))
    (disjoint : ∀ file ∈ cat.files, ∀ other ∈ cat.files, ∀ cluster ∈ chains file,
      cluster ∈ chains other → file = other)
    (grows : ∀ dir ∈ cat.dirs, ∀ cluster ∈ cat.chains dir, cluster ∈ chains dir)
    (slots : ∀ cluster, Catalog.DirCluster { cat with chains := chains } cluster → ∀ slot < 16,
      (dirSectorOf boot disk' cluster).slotFree slot = false → cat.DirCluster cluster ∧
        SlotKept (dirSectorOf boot disk cluster) (dirSectorOf boot disk' cluster) slot) :
    Tree boot disk' { cat with chains := chains } where
  root := tree.root
  dirs_files := tree.dirs_files
  chain := chain
  disjoint := disjoint
  entry := by
    intro cluster inDir slot inside entry
    obtain ⟨before, kept⟩ := slots cluster inDir slot inside entry.1
    rw [kept.cluster, kept.directory]
    exact tree.entry cluster before slot inside (kept.entry entry)
  single := by
    intro cluster inDir slot inside cluster' inDir' slot' inside' entry entry' same
    obtain ⟨before, kept⟩ := slots cluster inDir slot inside entry.1
    obtain ⟨before', kept'⟩ := slots cluster' inDir' slot' inside' entry'.1
    rw [kept.cluster, kept'.cluster] at same
    exact tree.single cluster before slot inside cluster' before' slot' inside' (kept.entry entry)
      (kept'.entry entry') same
  link := by
    intro cluster inDir slot inside link
    obtain ⟨before, kept⟩ := slots cluster inDir slot inside link.1
    rw [kept.cluster]
    rcases tree.link cluster before slot inside
      ⟨kept.used, kept.dot ▸ link.2.1, kept.directory ▸ link.2.2⟩ with zero | ⟨dir, member, target⟩
    · exact .inl zero
    · exact .inr ⟨dir, member, grows dir member _ target⟩

/-- The chains stay and slots may only be freed or renamed. -/
theorem shrink (tree : Tree boot disk cat)
    (entries : ∀ file ∈ cat.files, ∀ cluster ∈ cat.chains file,
      fatEntry boot disk' cluster = fatEntry boot disk cluster)
    (slots : ∀ cluster, cat.DirCluster cluster → ∀ slot < 16,
      (dirSectorOf boot disk' cluster).slotFree slot = false →
        SlotKept (dirSectorOf boot disk cluster) (dirSectorOf boot disk' cluster) slot) :
    Tree boot disk' cat :=
  tree.transfer cat.chains (fun file member => (tree.chain file member).congr (entries file member))
    tree.disjoint (fun _ _ _ inChain => inChain)
    (fun cluster inDir slot inside used => ⟨inDir, slots cluster inDir slot inside used⟩)

/-- A chain that no entry refers to leaves the catalog. -/
theorem remove (tree : Tree boot disk cat) (notDir : file ∉ cat.dirs)
    (unused : ∀ cluster, cat.DirCluster cluster → ∀ slot < 16,
      (dirSectorOf boot disk cluster).slotEntry slot →
        (dirSectorOf boot disk cluster).slotCluster slot ≠ file) :
    Tree boot disk { cat with files := cat.files \ {file} } where
  root := tree.root
  dirs_files := by
    intro dir member
    refine ⟨tree.dirs_files dir member, ?_⟩
    rintro rfl
    exact notDir member
  chain := fun other member => tree.chain other member.1
  disjoint := fun other member third thirdMember => tree.disjoint other member.1 third thirdMember.1
  entry := by
    intro cluster inDir slot inside entry
    obtain ⟨owned, notRoot, isDir⟩ := tree.entry cluster inDir slot inside entry
    exact ⟨⟨owned, unused cluster inDir slot inside entry⟩, notRoot, isDir⟩
  single := tree.single
  link := tree.link

theorem apart (tree : Tree boot disk cat) (member : file ∈ cat.files) (otherMember : other ∈ cat.files)
    (different : other ≠ file) (inChain : cluster ∈ cat.chains other) : cluster ∉ cat.chains file :=
  fun inFile => different (tree.disjoint other otherMember file member cluster inChain inFile)

theorem used (tree : Tree boot disk cat) (member : file ∈ cat.files)
    (inChain : cluster ∈ cat.chains file) : fatEntry boot disk cluster ≠ 0 :=
  (tree.chain file member).entry_ne_zero inChain

theorem data (tree : Tree boot disk cat) (inDir : cat.DirCluster cluster) : boot.DataCluster cluster := by
  obtain ⟨dir, member, inChain⟩ := inDir
  exact (tree.chain dir (tree.dirs_files dir member)).data cluster inChain

/-- One chain is replaced by one over its own clusters and free ones. -/
theorem rechain (tree : Tree boot disk cat) (member : file ∈ cat.files)
    (chain : FatChain boot disk' file clusters)
    (within : ∀ cluster ∈ clusters, cluster ∈ cat.chains file ∨ fatEntry boot disk cluster = 0)
    (others : ∀ other ∈ cat.files, other ≠ file → ∀ cluster ∈ cat.chains other,
      fatEntry boot disk' cluster = fatEntry boot disk cluster)
    (grows : file ∈ cat.dirs → ∀ cluster ∈ cat.chains file, cluster ∈ clusters)
    (fresh : file ∈ cat.dirs → ∀ cluster ∈ clusters, cluster ∉ cat.chains file →
      dirSectorOf boot disk' cluster = Sector.zero)
    (contents : ∀ cluster, cat.DirCluster cluster →
      dirSectorOf boot disk' cluster = dirSectorOf boot disk cluster) :
    Tree boot disk' { cat with chains := Function.update cat.chains file clusters } := by
  have same : ∀ other, other ≠ file → Function.update cat.chains file clusters other =
      cat.chains other := fun other different => Function.update_of_ne different _ _
  have own : Function.update cat.chains file clusters file = clusters := Function.update_self ..
  have foreign : ∀ other ∈ cat.files, other ≠ file → ∀ cluster ∈ cat.chains other,
      cluster ∉ clusters := by
    intro other otherMember different cluster inChain inNew
    rcases within cluster inNew with old | free
    · exact tree.apart member otherMember different inChain old
    · exact tree.used otherMember inChain free
  refine tree.transfer _ ?_ ?_ ?_ ?_
  · intro other otherMember
    by_cases different : other = file
    · rw [different, own]
      exact chain
    · rw [same other different]
      exact (tree.chain other otherMember).congr (others other otherMember different)
  · intro left leftMember right rightMember cluster inLeft inRight
    by_cases leftSame : left = file
    · by_cases rightSame : right = file
      · rw [leftSame, rightSame]
      · rw [leftSame, own] at inLeft
        rw [same right rightSame] at inRight
        exact absurd inLeft (foreign right rightMember rightSame cluster inRight)
    · rw [same left leftSame] at inLeft
      by_cases rightSame : right = file
      · rw [rightSame, own] at inRight
        exact absurd inRight (foreign left leftMember leftSame cluster inLeft)
      · rw [same right rightSame] at inRight
        exact tree.disjoint left leftMember right rightMember cluster inLeft inRight
  · intro dir dirMember cluster inChain
    by_cases different : dir = file
    · subst different
      rw [own]
      exact grows dirMember cluster inChain
    · rw [same dir different]
      exact inChain
  · rintro cluster ⟨dir, dirMember, inChain⟩ slot inside used
    dsimp only at dirMember inChain
    have before : cat.DirCluster cluster := by
      by_cases different : dir = file
      · subst different
        rw [own] at inChain
        refine ⟨dir, dirMember, ?_⟩
        by_contra outside
        rw [fresh dirMember cluster inChain outside, Sector.zero_slotFree] at used
        cases used
      · rw [same dir different] at inChain
        exact ⟨dir, dirMember, inChain⟩
    rw [contents cluster before] at used ⊢
    exact ⟨before, .ofSame (.refl _ _) used⟩

/-- What creating an entry for the free cluster `n` in a free slot does. -/
structure Created (boot : FAT32BootSector) (disk disk' : Disk) (cat : Catalog)
    (target index n : Nat) (directory : Bool) : Prop where
  inDir : cat.DirCluster target
  inside : index < 16
  fresh : fatEntry boot disk n = 0
  chain : FatChain boot disk' n [n]
  entries : ∀ file ∈ cat.files, ∀ cluster ∈ cat.chains file,
    fatEntry boot disk' cluster = fatEntry boot disk cluster
  slots : ∀ cluster, cat.DirCluster cluster → ∀ slot < 16, cluster ≠ target ∨ slot ≠ index →
    Sector.SameSlot (dirSectorOf boot disk' cluster) (dirSectorOf boot disk cluster) slot
  entry : (dirSectorOf boot disk' target).slotEntry index
  owns : (dirSectorOf boot disk' target).slotCluster index = n
  kind : (dirSectorOf boot disk' target).slotDirectory index = directory
  links : directory = true → ∀ slot < 16, (dirSectorOf boot disk' n).slotFree slot = false →
    (dirSectorOf boot disk' n).slotDot slot = true ∧
      ((dirSectorOf boot disk' n).slotCluster slot = n ∨
        cat.DirCluster ((dirSectorOf boot disk' n).slotCluster slot))

/-- An entry after the creation is the new one or was there before. -/
theorem Created.cases (created : Created boot disk disk' cat target index n directory)
    (new : n ∉ cat.dirs) (inDir : (cat.add n directory).DirCluster cluster) (inside : slot < 16)
    (entry : (dirSectorOf boot disk' cluster).slotEntry slot) :
    (cluster = target ∧ slot = index) ∨
      (cat.DirCluster cluster ∧
        SlotKept (dirSectorOf boot disk cluster) (dirSectorOf boot disk' cluster) slot) := by
  rcases inDir.of_add new with old | ⟨isDir, rfl⟩
  · by_cases place : cluster = target ∧ slot = index
    · exact .inl place
    · have same := created.slots cluster old slot inside (by
        by_contra both
        exact place (by simpa [not_or] using both))
      exact .inr ⟨old, .ofSame same entry.1⟩
  · have dot := (created.links isDir slot inside entry.1).1
    rw [entry.2] at dot
    cases dot

/-- The chain of a new entry is no chain of the tree. -/
theorem created_new (tree : Tree boot disk cat) (created : Created boot disk disk' cat target index n directory) :
    n ∉ cat.files ∧ n ∉ cat.dirs ∧ ∀ file ∈ cat.files, n ∉ cat.chains file := by
  have newFile : n ∉ cat.files := fun member =>
    tree.used member (tree.chain n member).chain.first_mem created.fresh
  exact ⟨newFile, fun member => newFile (tree.dirs_files n member),
    fun file member inChain => tree.used member inChain created.fresh⟩

theorem add_entry (tree : Tree boot disk cat) (created : Created boot disk disk' cat target index n directory)
    (inDir : (cat.add n directory).DirCluster cluster) (inside : slot < 16)
    (entry : (dirSectorOf boot disk' cluster).slotEntry slot) :
    (dirSectorOf boot disk' cluster).slotCluster slot ∈ (cat.add n directory).files ∧
      (dirSectorOf boot disk' cluster).slotCluster slot ≠ boot.rootCluster.toNat ∧
      ((dirSectorOf boot disk' cluster).slotCluster slot ∈ (cat.add n directory).dirs ↔
        (dirSectorOf boot disk' cluster).slotDirectory slot = true) := by
  obtain ⟨newFile, newDir, _⟩ := tree.created_new created
  rcases created.cases newDir inDir inside entry with ⟨rfl, rfl⟩ | ⟨before, kept⟩
  · rw [created.owns, created.kind]
    refine ⟨.inl rfl, fun same => newDir (same ▸ tree.root), ?_⟩
    simp [Catalog.mem_add_dirs, newDir]
  · obtain ⟨owned, notRoot, isDir⟩ := tree.entry cluster before slot inside (kept.entry entry)
    rw [kept.cluster, kept.directory]
    refine ⟨.inr owned, notRoot, ?_⟩
    rw [Catalog.mem_add_dirs, ← isDir]
    refine or_iff_left ?_
    rintro ⟨_, same⟩
    exact newFile (same ▸ owned)

theorem add_single (tree : Tree boot disk cat) (created : Created boot disk disk' cat target index n directory)
    (inDir : (cat.add n directory).DirCluster cluster) (inside : slot < 16)
    (inDir' : (cat.add n directory).DirCluster cluster') (inside' : slot' < 16)
    (entry : (dirSectorOf boot disk' cluster).slotEntry slot)
    (entry' : (dirSectorOf boot disk' cluster').slotEntry slot')
    (same : (dirSectorOf boot disk' cluster).slotCluster slot =
      (dirSectorOf boot disk' cluster').slotCluster slot') : cluster = cluster' ∧ slot = slot' := by
  obtain ⟨newFile, newDir, _⟩ := tree.created_new created
  rcases created.cases newDir inDir inside entry with ⟨rfl, rfl⟩ | ⟨before, kept⟩
  · rcases created.cases newDir inDir' inside' entry' with ⟨rfl, rfl⟩ | ⟨before', kept'⟩
    · exact ⟨rfl, rfl⟩
    · rw [created.owns, kept'.cluster] at same
      exact absurd (same ▸ (tree.entry cluster' before' slot' inside' (kept'.entry entry')).1) newFile
  · rcases created.cases newDir inDir' inside' entry' with ⟨rfl, rfl⟩ | ⟨before', kept'⟩
    · rw [created.owns, kept.cluster] at same
      exact absurd (same ▸ (tree.entry cluster before slot inside (kept.entry entry)).1) newFile
    · rw [kept.cluster, kept'.cluster] at same
      exact tree.single cluster before slot inside cluster' before' slot' inside' (kept.entry entry)
        (kept'.entry entry') same

theorem add_link (tree : Tree boot disk cat) (created : Created boot disk disk' cat target index n directory)
    (inDir : (cat.add n directory).DirCluster cluster) (inside : slot < 16)
    (link : (dirSectorOf boot disk' cluster).slotLink slot) :
    (dirSectorOf boot disk' cluster).slotCluster slot = 0 ∨
      (cat.add n directory).DirCluster ((dirSectorOf boot disk' cluster).slotCluster slot) := by
  obtain ⟨_, newDir, _⟩ := tree.created_new created
  rcases inDir.of_add newDir with old | ⟨isDir, rfl⟩
  · have notNew : cluster ≠ target ∨ slot ≠ index := by
      by_contra both
      simp only [not_or, not_not] at both
      obtain ⟨rfl, rfl⟩ := both
      have plain := created.entry.2
      rw [link.2.1] at plain
      cases plain
    have kept := SlotKept.ofSame (created.slots cluster old slot inside notNew) link.1
    rw [kept.cluster]
    rcases tree.link cluster old slot inside
      ⟨kept.used, kept.dot ▸ link.2.1, kept.directory ▸ link.2.2⟩ with zero | target
    · exact .inl zero
    · exact .inr (target.add newDir directory)
  · right
    rcases (created.links isDir slot inside link.1).2 with self | parent
    · rw [self]
      exact ⟨cluster, Catalog.mem_add_dirs.mpr (.inr ⟨isDir, rfl⟩), by
        rw [Catalog.add_chains_new]
        exact List.mem_singleton.mpr rfl⟩
    · exact parent.add newDir directory

theorem add (tree : Tree boot disk cat) (created : Created boot disk disk' cat target index n directory) :
    Tree boot disk' (cat.add n directory) := by
  obtain ⟨newFile, _, outside⟩ := tree.created_new created
  have chains : ∀ file ∈ cat.files, (cat.add n directory).chains file = cat.chains file := by
    intro file member
    refine cat.add_chains_ne ?_
    rintro rfl
    exact newFile member
  constructor
  case root => exact Catalog.mem_add_dirs.mpr (.inl tree.root)
  case dirs_files =>
    intro dir member
    rcases Catalog.mem_add_dirs.mp member with old | ⟨_, rfl⟩
    · exact .inr (tree.dirs_files dir old)
    · exact .inl rfl
  case chain =>
    rintro file (rfl | old)
    · rw [Catalog.add_chains_new]
      exact created.chain
    · rw [chains file old]
      exact (tree.chain file old).congr (created.entries file old)
  case disjoint =>
    rintro file (rfl | old) other (rfl | otherOld) cluster inFile inOther
    · rfl
    · rw [Catalog.add_chains_new, List.mem_singleton] at inFile
      rw [chains other otherOld] at inOther
      exact absurd (inFile ▸ inOther) (outside other otherOld)
    · rw [Catalog.add_chains_new, List.mem_singleton] at inOther
      rw [chains file old] at inFile
      exact absurd (inOther ▸ inFile) (outside file old)
    · rw [chains file old] at inFile
      rw [chains other otherOld] at inOther
      exact tree.disjoint file old other otherOld cluster inFile inOther
  case entry => exact fun _ inDir _ inside => tree.add_entry created inDir inside
  case single => exact fun _ inDir _ inside _ inDir' _ inside' => tree.add_single created inDir inside inDir' inside'
  case link => exact fun _ inDir _ inside => tree.add_link created inDir inside

end Tree

end LivlyOS.Fs
