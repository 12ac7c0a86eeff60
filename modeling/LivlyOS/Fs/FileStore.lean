import LivlyOS.Fs.DeletedFiles
import LivlyOS.Fs.Names
import LivlyOS.Fs.Owners
import LivlyOS.Fs.Renaming
import LivlyOS.Fs.Saving
import LivlyOS.Lib.Refinement

/-! What the file calls are for: a map from names to contents. The calls of `fat.c` on the
files of the current directory, the map they are to implement, and where a volume keeps it. -/

namespace LivlyOS.Fs

open LivlyOS.Lib

/-- A name that the driver stores in full and compares as it is. -/
structure FileName where
  text : CString
  visible : text.Visible
  nonempty : text ≠ []
  short : text.length ≤ 8
deriving DecidableEq

/-- The contents of the files. -/
abbrev FileStore := FileName → Option (List UInt8)

inductive FileCall where
  | create (name : FileName) (ext : CString)
  | save (name : FileName) (buf : Bytes) (size : Nat)
  | load (name : FileName) (out : Bytes)
  | remove (name : FileName)
  | rename (name newName : FileName)

/-- What a call hands back. -/
inductive FileAnswer where
  | done
  | duplicate
  | contents (data : List UInt8)
deriving DecidableEq

/-- `fat_write_file`, `fat_write_data`, `fat_read_file`, `fat_delete_file` and
`fat_rename_file`. The caller of `fat_read_file` gets as many bytes of its buffer as the
call reports. -/
def FileCall.run (fuel : Nat) : FileCall → FatState → Option (FileAnswer × FatState)
  | .create name ext, st => (fatWriteFile fuel name.text ext st).map fun result =>
      (if result.1 = .duplicate then .duplicate else .done, result.2)
  | .save name buf size, st => (fatWriteData fuel name.text buf size st).map fun st => (.done, st)
  | .load name out, st => (fatReadFile fuel name.text out st).map fun result =>
      (.contents ((List.range result.1).map result.2.1), result.2.2)
  | .remove name, st => (fatDeleteFile fuel name.text st).map fun st => (.done, st)
  | .rename name newName, st => (fatRenameFile fuel name.text newName.text st).map fun st => (.done, st)

namespace FileStore

/-- A file is created empty, and once. -/
def create (store : FileStore) (name : FileName) : FileStore :=
  if store name = none then Function.update store name (some []) else store

def save (store : FileStore) (name : FileName) (data : List UInt8) : FileStore :=
  if store name = none then store else Function.update store name (some data)

def remove (store : FileStore) (name : FileName) : FileStore := Function.update store name none

def rename (store : FileStore) (name newName : FileName) : FileStore :=
  match store name with
  | none => store
  | some data => Function.update (store.remove name) newName (some data)

/-- The map behind the file calls. A file that is not there reads as empty. -/
def spec : Spec FileStore FileCall FileAnswer where
  answer store
    | .create name _ => if store name = none then .done else .duplicate
    | .load name _ => .contents ((store name).getD [])
    | _ => .done
  next store
    | .create name _ => store.create name
    | .save name buf size => store.save name ((List.range size).map buf)
    | .load _ _ => store
    | .remove name => store.remove name
    | .rename name newName => store.rename name newName

end FileStore

variable {boot : FAT32BootSector} {disk disk' : Disk}

/-- An entry in use shows this name. -/
structure Place.Shows (boot : FAT32BootSector) (disk : Disk) (place : Place) (name : FileName) : Prop where
  used : place.Used boot disk
  shown : (place.buf boot disk).shownName place.slot = name.text

/-- The name field has no NUL. -/
def Place.Clear (boot : FAT32BootSector) (disk : Disk) (place : Place) : Prop :=
  ∀ index < 8, (place.buf boot disk).nameByte place.slot index ≠ 0

/-- The entry announces these contents, and its chain holds them. -/
structure FileAt (boot : FAT32BootSector) (disk : Disk) (place : Place) (clusters : List Nat) (data : List UInt8) : Prop where
  chain : FatChain boot disk (place.target boot disk) clusters
  size : (place.buf boot disk).slotSize place.slot = data.length
  long : data.length ≤ clusters.length * boot.clusterSize
  short : clusters.length * boot.clusterSize < 4294967296
  contents : ∀ index (inside : index < data.length), chainByte boot disk clusters index = data[index]

/-- Behind the first 0x00 slot there are only such slots. -/
def Ended (boot : FAT32BootSector) (disk : Disk) (dirs : List Nat) : Prop :=
  (slotPlaces boot dirs).Pairwise fun earlier later => earlier.first boot disk = 0 → later.first boot disk = 0

/-- Where the files lie: the clusters of the directory, and for each file its entry and its chain. -/
structure FileLayout where
  dirs : List Nat
  place : FileName → Place
  chain : FileName → List Nat

/-- The volume keeps the files of the map in this way. Entries with the names in `foreign`,
such as directories, are none of them. -/
structure FileLayout.Holds (layout : FileLayout) (foreign : Set FileName) (st : FatState) (store : FileStore) : Prop where
  wf : st.boot.WellFormed
  lagging : Lagging st
  directory : FatChain st.boot st.disk st.cwdCluster layout.dirs
  ended : Ended st.boot st.disk layout.dirs
  clear : ∀ place : Place, place.In st.boot layout.dirs → place.Used st.boot st.disk → place.Clear st.boot st.disk
  entry : ∀ name data, store name = some data → (layout.place name).In st.boot layout.dirs ∧
    (layout.place name).Shows st.boot st.disk name ∧
    FileAt st.boot st.disk (layout.place name) (layout.chain name) data
  only : ∀ place : Place, place.In st.boot layout.dirs → ∀ name ∉ foreign, place.Shows st.boot st.disk name →
    store name ≠ none ∧ place = layout.place name
  own : ∀ name ∈ foreign, store name = none
  apartDir : ∀ name, store name ≠ none → List.Disjoint layout.dirs (layout.chain name)
  apart : ∀ name other, store name ≠ none → store other ≠ none → name ≠ other →
    List.Disjoint (layout.chain name) (layout.chain other)

/-- The map is on the volume. -/
def Keeps (foreign : Set FileName) (st : FatState) (store : FileStore) : Prop :=
  ∃ layout : FileLayout, layout.Holds foreign st store

theorem Place.hasName_iff {place : Place} {name : FileName} (clear : place.Used boot disk → place.Clear boot disk) :
    place.hasName boot disk name.text = true ↔ place.Shows boot disk name := by
  constructor
  · intro hits
    have used : place.Used boot disk := slotFree_of_matches name.visible name.nonempty hits
    exact ⟨used, (Sector.slotMatches_iff name.visible (clear used)).mp hits⟩
  · intro shows'
    exact (Sector.slotMatches_iff name.visible (clear shows'.used)).mpr shows'.shown

theorem Place.Shows.unique {place : Place} {name other : FileName} (left : place.Shows boot disk name)
    (right : place.Shows boot disk other) : name = other := by
  have same := left.shown.symm.trans right.shown
  cases name
  cases other
  cases same
  rfl

namespace FileLayout.Holds

variable {layout : FileLayout} {foreign : Set FileName} {st : FatState} {store : FileStore} {name : FileName}
  (holds : layout.Holds foreign st store)
include holds

theorem known (stored : store name ≠ none) : name ∉ foreign := fun other => stored (holds.own name other)

theorem place_inj {other : FileName} (stored : store name ≠ none) (otherStored : store other ≠ none)
    (same : layout.place name = layout.place other) : name = other := by
  obtain ⟨data, stored⟩ := Option.ne_none_iff_exists'.mp stored
  obtain ⟨otherData, otherStored⟩ := Option.ne_none_iff_exists'.mp otherStored
  have left := (holds.entry name data stored).2.1
  rw [same] at left
  exact left.unique (holds.entry other otherData otherStored).2.1

theorem onlyMatch (stored : store name = some data) :
    OnlyMatch st.boot st.disk layout.dirs name.text (layout.place name).cluster (layout.place name).s (layout.place name).slot := by
  obtain ⟨inside, shows', _⟩ := holds.entry name data stored
  obtain ⟨member, sector, below⟩ := inside
  refine ⟨member, sector, below, (Place.hasName_iff (holds.clear _ ⟨member, sector, below⟩)).mpr shows', ?_⟩
  intro cluster otherMember t otherInside index otherBelow hits
  have place : Place.In st.boot layout.dirs ⟨cluster, t, index⟩ := ⟨otherMember, otherInside, otherBelow⟩
  have shown := (Place.hasName_iff (holds.clear _ place)).mp hits
  have here := (holds.only _ place name (holds.known (by simp [stored])) shown).2
  rw [← here]
  exact ⟨rfl, rfl, rfl⟩

/-- The searches of the driver end at the entry of the file. -/
theorem found (stored : store name = some data) :
    firstHit st.boot st.disk (Sector.slotMatches name.text) layout.dirs = some ((layout.place name).hit st.boot st.disk) :=
  (holds.onlyMatch stored).firstHit

theorem missing (known : name ∉ foreign) (none : store name = none) :
    firstHit st.boot st.disk (Sector.slotMatches name.text) layout.dirs = .none := by
  rw [firstHit_places, Option.map_eq_none_iff, List.find?_eq_none]
  intro place member hits
  have inside := mem_places.mp member
  exact (holds.only place inside name known ((Place.hasName_iff (holds.clear place inside)).mp hits)).1 none

theorem loaded (loaded : Loaded st st') : layout.Holds foreign st' store := by
  have lagging := holds.lagging.loaded loaded
  obtain ⟨_, _, _, _, _, _, _, _⟩ := st'
  obtain ⟨⟨rfl, rfl, rfl⟩, rfl, -, -⟩ := loaded
  exact { holds with lagging }

theorem printed (text : String) : layout.Holds foreign (st.kprintf text) store :=
  { holds with lagging := ⟨holds.lagging.clean, holds.lagging.entries⟩ }

end FileLayout.Holds

end LivlyOS.Fs
