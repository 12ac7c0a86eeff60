import LivlyOS.Fs.NewFiles
import LivlyOS.Fs.ReservedClusters
import Mathlib.Data.Set.Function

namespace LivlyOS.Fs

open LivlyOS.Lib

/-- When the keys of all cells but one are old ones and the key of that one is not among
them, keys stay apart. -/
theorem injOn_of_one {used used' : Set α} {key key' : α → κ} (apart : Set.InjOn key used) (new : α)
    (kept : ∀ cell ∈ used', cell ≠ new → cell ∈ used ∧ key' cell = key cell)
    (fresh : new ∈ used' → ∀ cell ∈ used', cell ≠ new → key' cell ≠ key' new) : Set.InjOn key' used' := by
  intro left inLeft right inRight same
  by_cases first : left = new
  · by_cases second : right = new
    · exact first.trans second.symm
    · rw [first] at same inLeft
      exact absurd same.symm (fresh inLeft right inRight second)
  · by_cases second : right = new
    · rw [second] at same inRight
      exact absurd same (fresh inRight left inLeft first)
    · obtain ⟨oldLeft, keyLeft⟩ := kept left inLeft first
      obtain ⟨oldRight, keyRight⟩ := kept right inRight second
      exact apart oldLeft oldRight (keyLeft.symm.trans (same.trans keyRight))

/-- A directory slot: its cluster, the sector in it, the number in the sector. -/
structure Place where
  cluster : Nat
  s : Nat
  slot : Nat
deriving DecidableEq

namespace Place

/-- The place lies in one of the clusters. -/
def In (boot : FAT32BootSector) (dirs : List Nat) (place : Place) : Prop :=
  place.cluster ∈ dirs ∧ place.s < boot.spc ∧ place.slot < 16

/-- The sector of the place. -/
def buf (boot : FAT32BootSector) (disk : Disk) (place : Place) : Sector :=
  clusterData boot disk place.cluster place.s

/-- The entry is in use. -/
def Used (boot : FAT32BootSector) (disk : Disk) (place : Place) : Prop :=
  (place.buf boot disk).slotFree place.slot = false

instance (place : Place) : Decidable (place.Used boot disk) := inferInstanceAs (Decidable (_ = _))

/-- The eight bytes of the name. -/
def nameField (boot : FAT32BootSector) (disk : Disk) (place : Place) : List UInt8 :=
  (List.range 8).map ((place.buf boot disk).nameByte place.slot)

theorem nameField_congr {place other : Place}
    (same : ∀ index < 8, (place.buf boot disk).nameByte place.slot index =
      (other.buf boot' disk').nameByte other.slot index) :
    place.nameField boot disk = other.nameField boot' disk' :=
  List.map_congr_left (fun _ below => same _ (List.mem_range.mp below))

/-- Slots with the same name field are in use together. -/
theorem used_congr {place other : Place}
    (same : ∀ index < 8, (place.buf boot disk).nameByte place.slot index =
      (other.buf boot' disk').nameByte other.slot index) :
    place.Used boot disk ↔ other.Used boot' disk' := by
  rw [Used, Used, Sector.slotFree, Sector.slotFree, same 0 (by decide)]

theorem nameField_pad {place : Place} {name : CString}
    (stored : ∀ index < 8, (place.buf boot disk).nameByte place.slot index = (padField 8 name).getD index 0) :
    place.nameField boot disk = padField 8 name := by
  rw [nameField, List.map_congr_left (fun index below => stored index (List.mem_range.mp below))]
  apply List.ext_getElem
  · simp [padField_length]
  · intro index _ inside
    simp [List.getElem?_eq_getElem inside]

end Place

/-- No two entries in use have the same name field. -/
def NamesUnique (boot : FAT32BootSector) (disk : Disk) (dirs : List Nat) : Prop :=
  Set.InjOn (Place.nameField boot disk) {place | place.In boot dirs ∧ place.Used boot disk}

/-- An entry in use has this name field. -/
def Listed (boot : FAT32BootSector) (disk : Disk) (dirs : List Nat) (field : List UInt8) : Prop :=
  ∃ place : Place, place.In boot dirs ∧ place.Used boot disk ∧ place.nameField boot disk = field

theorem NamesUnique.congr (unique : NamesUnique boot disk dirs)
    (same : ∀ place : Place, place.In boot dirs → ∀ index < 8,
      (place.buf boot disk').nameByte place.slot index = (place.buf boot disk).nameByte place.slot index) :
    NamesUnique boot disk' dirs := by
  rintro left ⟨inLeft, usedLeft⟩ right ⟨inRight, usedRight⟩ equal
  rw [Place.nameField_congr (same left inLeft), Place.nameField_congr (same right inRight)] at equal
  exact unique ⟨inLeft, (Place.used_congr (same left inLeft)).mp usedLeft⟩
    ⟨inRight, (Place.used_congr (same right inRight)).mp usedRight⟩ equal

/-- A slot in use after an entry is stored is the new one or was in use before. -/
theorem EntryStored.place
    (entry : EntryStored boot disk disk' first dirs dirs' name ext attributes n owner s slot) {place : Place}
    (inside : place.In boot dirs') (used : place.Used boot disk') (old : place ≠ ⟨owner, s, slot⟩) :
    place.In boot dirs ∧
      Sector.SameSlot (place.buf boot disk') (place.buf boot disk) place.slot := by
  obtain ⟨member, below, number⟩ := inside
  have same := entry.sameSlot member below
    (fun here : place.cluster = owner ∧ place.s = s ∧ place.slot = slot => old (by
      cases place
      cases here.1
      cases here.2.1
      cases here.2.2
      rfl))
  rw [Place.Used, Place.buf, same.slotFree] at used
  rw [sectorBefore] at same used
  split at used
  · rename_i inDirs
    rw [if_pos inDirs] at same
    exact ⟨⟨inDirs, below, number⟩, same⟩
  · rw [Sector.zero_slotFree] at used
    cases used

/-- A new entry keeps the names apart when its field is not there. -/
theorem EntryStored.namesUnique
    (entry : EntryStored boot disk disk' first dirs dirs' name ext attributes n owner s slot)
    (unique : NamesUnique boot disk dirs)
    (fresh : ¬ Listed boot disk dirs (padField 8 name)) : NamesUnique boot disk' dirs' := by
  have stored : (⟨owner, s, slot⟩ : Place).nameField boot disk' = padField 8 name := by
    refine Place.nameField_pad (fun index below => ?_)
    rw [Place.buf, entry.sector]
    exact createdSlot_nameByte name ext attributes _ n entry.below below
  have kept : ∀ place : Place, place.In boot dirs' ∧ place.Used boot disk' → place ≠ ⟨owner, s, slot⟩ →
      (place.In boot dirs ∧ place.Used boot disk) ∧
        place.nameField boot disk' = place.nameField boot disk := by
    rintro place ⟨inside, used⟩ old
    obtain ⟨before, same⟩ := entry.place inside used old
    have bytes := fun index (below : index < 8) => same.nameByte (by omega : index < 32)
    exact ⟨⟨before, (Place.used_congr bytes).mp used⟩, Place.nameField_congr bytes⟩
  refine injOn_of_one unique ⟨owner, s, slot⟩ kept ?_
  intro _ place inside old same
  obtain ⟨⟨before, used⟩, field⟩ := kept place inside old
  exact fresh ⟨place, before, used, field.symm.trans (same.trans stored)⟩

/-- Renaming an entry keeps the names apart when no other entry has the new field. -/
theorem namesUnique_rename (wf : boot.WellFormed) (chain : FatChain boot disk first dirs)
    (unique : NamesUnique boot disk dirs) (place : HitIn boot disk wanted dirs hit cluster s)
    (fresh : ∀ other : Place, other.In boot dirs → other.Used boot disk → other ≠ ⟨cluster, s, hit.slot⟩ →
      other.nameField boot disk ≠ padField 8 name) :
    NamesUnique boot (ataWriteSector disk hit.lba (hit.buf.setName hit.slot name)) dirs := by
  have data := chain.data cluster place.member
  have below := (findInSector_some place.found).1
  have sectors : ∀ other ∈ dirs, ∀ t < boot.spc,
      clusterData boot (ataWriteSector disk hit.lba (hit.buf.setName hit.slot name)) other t =
        if other = cluster ∧ t = s then hit.buf.setName hit.slot name else clusterData boot disk other t := by
    intro other member t inside
    rw [place.lba]
    exact clusterData_write wf disk _ data (chain.data other member) place.inside inside
  have stored : (⟨cluster, s, hit.slot⟩ : Place).nameField boot
      (ataWriteSector disk hit.lba (hit.buf.setName hit.slot name)) = padField 8 name := by
    refine Place.nameField_pad (fun index inField => ?_)
    rw [Place.buf, sectors cluster place.member s place.inside, if_pos ⟨rfl, rfl⟩]
    exact Sector.setName_nameByte hit.buf below name inField
  have kept : ∀ other : Place, other.In boot dirs ∧
      other.Used boot (ataWriteSector disk hit.lba (hit.buf.setName hit.slot name)) →
      other ≠ ⟨cluster, s, hit.slot⟩ → (other.In boot dirs ∧ other.Used boot disk) ∧
        other.nameField boot (ataWriteSector disk hit.lba (hit.buf.setName hit.slot name)) =
          other.nameField boot disk := by
    rintro other ⟨inside, used⟩ old
    have bytes : ∀ index < 8,
        (other.buf boot (ataWriteSector disk hit.lba (hit.buf.setName hit.slot name))).nameByte other.slot index =
          (other.buf boot disk).nameByte other.slot index := by
      intro index inField
      rw [Place.buf, Place.buf, sectors other.cluster inside.1 other.s inside.2.1]
      split
      · rename_i here
        have different : other.slot ≠ hit.slot := by
          intro same
          exact old (by cases other; cases here.1; cases here.2; cases same; rfl)
        rw [here.1, here.2, ← place.buf, Sector.nameByte, Sector.nameByte, Sector.setName_other _ _ (by omega)]
      · rfl
    exact ⟨⟨inside, (Place.used_congr bytes).mp used⟩, Place.nameField_congr bytes⟩
  refine injOn_of_one unique ⟨cluster, s, hit.slot⟩ kept ?_
  intro _ other inside old same
  obtain ⟨⟨before, used⟩, field⟩ := kept other inside old
  exact fresh other before used old (field.symm.trans (same.trans stored))

/-- The given clusters are the first ones of different directories, and the current
directory is one of them. -/
structure Directories (st : FatState) (firsts : List Nat) : Prop where
  wf : st.boot.WellFormed
  lagging : Lagging st
  current : st.cwdCluster ∈ firsts
  chain : ∀ first ∈ firsts, ∃ dirs, FatChain st.boot st.disk first dirs
  apart : ∀ first ∈ firsts, ∀ other ∈ firsts, ∀ left right, FatChain st.boot st.disk first left →
    FatChain st.boot st.disk other right → ∀ cluster ∈ left, cluster ∈ right → first = other

/-- The names in each of them are unique. -/
def UniqueNames (st : FatState) (firsts : List Nat) : Prop :=
  ∀ first ∈ firsts, ∀ dirs, FatChain st.boot st.disk first dirs → NamesUnique st.boot st.disk dirs

theorem FatChain.unique (left : FatChain boot disk first lefts) (right : FatChain boot disk first rights) :
    lefts = rights :=
  left.chain.unique right.chain

theorem Directories.loaded (directories : Directories st firsts) (loaded : Loaded st st') :
    Directories st' firsts := by
  obtain ⟨wf, lagging, current, chain, apart⟩ := directories
  refine ⟨by rw [loaded.kept.boot]; exact wf, lagging.loaded loaded, by rw [loaded.kept.cwdCluster]; exact current,
    ?_, ?_⟩
  · rw [loaded.kept.boot, loaded.disk]
    exact chain
  · rw [loaded.kept.boot, loaded.disk]
    exact apart

theorem UniqueNames.loaded (unique : UniqueNames st firsts) (loaded : Loaded st st') :
    UniqueNames st' firsts := by
  rw [UniqueNames, loaded.kept.boot, loaded.disk]
  exact unique

/-- The clusters outside the list that are in use keep their links and contents. -/
def Untouched (boot : FAT32BootSector) (disk disk' : Disk) (dirs : List Nat) : Prop :=
  ∀ cluster, boot.DataCluster cluster → cluster ∉ dirs → fatEntry boot disk cluster ≠ 0 →
    fatEntry boot disk' cluster = fatEntry boot disk cluster ∧
      ∀ s < boot.spc, clusterData boot disk' cluster s = clusterData boot disk cluster s

/-- A call that works on the current directory only. -/
theorem Directories.update (directories : Directories st firsts) (unique : UniqueNames st firsts)
    (directory : FatChain st.boot st.disk st.cwdCluster dirs) (kept : Kept st st') (lagging : Lagging st')
    (chain : FatChain st.boot st'.disk st.cwdCluster dirs')
    (within : ∀ cluster ∈ dirs', cluster ∈ dirs ∨ fatEntry st.boot st.disk cluster = 0)
    (names : NamesUnique st.boot st'.disk dirs') (untouched : Untouched st.boot st.disk st'.disk dirs) :
    Directories st' firsts ∧ UniqueNames st' firsts ∧
      ∀ first ∈ firsts, ∀ clusters, FatChain st.boot st'.disk first clusters →
        ∀ cluster ∈ clusters, cluster ∈ dirs' ∨ fatEntry st.boot st.disk cluster ≠ 0 := by
  have survives : ∀ first ∈ firsts, ∃ old new, FatChain st.boot st.disk first old ∧
      FatChain st.boot st'.disk first new ∧ NamesUnique st.boot st'.disk new ∧
      ((first = st.cwdCluster ∧ old = dirs ∧ new = dirs') ∨ new = old) := by
    intro first member
    obtain ⟨old, before⟩ := directories.chain first member
    by_cases here : first = st.cwdCluster
    · rw [here] at before
      exact ⟨dirs, dirs', here ▸ directory, here ▸ chain, names, .inl ⟨here, rfl, rfl⟩⟩
    · have outside : ∀ cluster ∈ old, cluster ∉ dirs := fun cluster inOld inDirs =>
        here (directories.apart first member _ directories.current old dirs before directory cluster inOld inDirs)
      have same := fun cluster (inOld : cluster ∈ old) => untouched cluster (before.data cluster inOld)
        (outside cluster inOld) (before.entry_ne_zero inOld)
      refine ⟨old, old, before, before.congr (fun cluster inOld => (same cluster inOld).1), ?_, .inr rfl⟩
      refine (unique first member old before).congr (fun place inside index _ => ?_)
      rw [Place.buf, Place.buf, (same _ inside.1).2 _ inside.2.1]
  have boot := kept.boot
  have cwd := kept.cwdCluster
  refine ⟨⟨by rw [boot]; exact directories.wf, lagging, by rw [cwd]; exact directories.current, ?_, ?_⟩, ?_, ?_⟩
  · intro first member
    obtain ⟨_, new, _, after, _⟩ := survives first member
    exact ⟨new, by rw [boot]; exact after⟩
  · rw [boot]
    intro first member other otherMember left right inLeft inRight cluster here there
    obtain ⟨old, new, before, after, _, grown⟩ := survives first member
    obtain ⟨old', new', before', after', _, grown'⟩ := survives other otherMember
    cases inLeft.unique after
    cases inRight.unique after'
    have apart := directories.apart first member other otherMember old old' before before' cluster
    rcases grown with ⟨first', rfl, rfl⟩ | rfl
    · rcases grown' with ⟨other', _, _⟩ | rfl
      · exact first'.trans other'.symm
      · rcases within cluster here with inDirs | free
        · exact apart inDirs there
        · exact absurd free (before'.entry_ne_zero there)
    · rcases grown' with ⟨_, rfl, rfl⟩ | rfl
      · rcases within cluster there with inDirs | free
        · exact apart here inDirs
        · exact absurd free (before.entry_ne_zero here)
      · exact apart here there
  · intro first member clusters inChain
    rw [boot] at inChain ⊢
    obtain ⟨_, new, _, after, names', _⟩ := survives first member
    cases inChain.unique after
    exact names'
  · intro first member clusters inChain cluster here
    obtain ⟨old, new, before, after, _, grown⟩ := survives first member
    cases inChain.unique after
    rcases grown with ⟨_, _, rfl⟩ | rfl
    · exact .inl here
    · exact .inr (before.entry_ne_zero here)

theorem Directories.add (directories : Directories st firsts) (unique : UniqueNames st firsts)
    (chain : FatChain st.boot st.disk n [n])
    (new : ∀ first ∈ firsts, ∀ dirs, FatChain st.boot st.disk first dirs → n ∉ dirs)
    (names : NamesUnique st.boot st.disk [n]) :
    Directories st (n :: firsts) ∧ UniqueNames st (n :: firsts) := by
  obtain ⟨wf, lagging, current, chains, apart⟩ := directories
  refine ⟨⟨wf, lagging, List.mem_cons_of_mem n current, ?_, ?_⟩, ?_⟩
  · intro first member
    rcases List.mem_cons.mp member with rfl | old
    · exact ⟨[first], chain⟩
    · exact chains first old
  · intro first member other otherMember left right inLeft inRight cluster here there
    rcases List.mem_cons.mp member with rfl | old
    · cases inLeft.unique chain
      cases List.mem_singleton.mp here
      rcases List.mem_cons.mp otherMember with rfl | old'
      · rfl
      · exact absurd there (new other old' right inRight)
    · rcases List.mem_cons.mp otherMember with rfl | old'
      · cases inRight.unique chain
        cases List.mem_singleton.mp there
        exact absurd here (new first old left inLeft)
      · exact apart first old other old' left right inLeft inRight cluster here there
  · intro first member dirs inChain
    rcases List.mem_cons.mp member with rfl | old
    · cases inChain.unique chain
      exact names
    · exact unique first old dirs inChain

/-- The directories behind a creating call. -/
def CreateExit.directories (firsts : List Nat) : CreateExit → List Nat
  | .created n => if n = 0 then firsts else n :: firsts
  | .duplicate | .full => firsts

/-- The calls that store names, with the directories of the volume. -/
inductive NameStep : FatState × List Nat → FsCall → FatState × List Nat → Prop where
  | writeFile (finished : fatWriteFile fuel name ext st = some (exit, st')) :
      NameStep (st, firsts) (.writeFile name ext) (st', firsts)
  | createDir (finished : fatCreateDir fuel name st = some (exit, st')) :
      NameStep (st, firsts) (.createDir name) (st', exit.directories firsts)
  | renameFile (finished : fatRenameFile fuel name newName st = some st') :
      NameStep (st, firsts) (.renameFile name newName) (st', firsts)

/-- The driver sees a cluster for a new directory, two when a full directory needs one as well, or its sector
lies outside the FAT. -/
def DirRoom (st : FatState) (dirs : List Nat) : Prop :=
  OutsideFat st.boot 0 ∨ if (firstPlace st.boot st.disk Sector.slotFree dirs).isSome then (visibleFree st).Nonempty
    else 2 ≤ (visibleFree st).card ∨ freeClusters st.boot st.disk = ∅

/-- What is left of old contents in the cluster does not repeat a name when
`fat_init_dir_cluster` has written its first sector. -/
def FreshNames (boot : FAT32BootSector) (disk : Disk) (n : Nat) : Prop :=
  NamesUnique boot (ataWriteSector disk (boot.clusterSector n) (dirSector n 0)) [n]

/-- The field that is stored is not there yet, or the check of the call finds it. -/
def NameOk (state : FatState × List Nat) : FsCall → Prop
  | .writeFile name _ => ∀ dirs, FatChain state.1.boot state.1.disk state.1.cwdCluster dirs →
      Listed state.1.boot state.1.disk dirs (padField 8 name) →
        (dirs.findSome? (fileDuplicateIn state.1.boot state.1.disk name)).isSome = true
  | .createDir name => ∀ dirs, FatChain state.1.boot state.1.disk state.1.cwdCluster dirs →
      dirs.findSome? (dirDuplicateIn state.1.boot state.1.disk name) ≠ some true →
        ¬ Listed state.1.boot state.1.disk dirs (padField 8 name) ∧ DirRoom state.1 dirs ∧
          ∀ n, MayReserve state.1 dirs n → FreshNames state.1.boot state.1.disk n
  | .renameFile name newName => ∀ dirs, FatChain state.1.boot state.1.disk state.1.cwdCluster dirs →
      ∀ hit cluster s, firstHit state.1.boot state.1.disk (Sector.slotMatches name) dirs = some hit →
        HitIn state.1.boot state.1.disk (Sector.slotMatches name) dirs hit cluster s →
        ∀ other : Place, other.In state.1.boot dirs → other.Used state.1.boot state.1.disk →
          other ≠ ⟨cluster, s, hit.slot⟩ →
          other.nameField state.1.boot state.1.disk ≠ padField 8 newName
  | _ => True

theorem EntryStored.within
    (entry : EntryStored boot disk disk' first dirs dirs' name ext attributes n owner s slot) :
    ∀ cluster ∈ dirs', cluster ∈ dirs ∨ fatEntry boot disk cluster = 0 := by
  intro cluster member
  rcases entry.grows with rfl | ⟨more, free, rfl⟩
  · exact .inl member
  · rcases List.mem_append.mp member with old | new
    · exact .inl old
    · exact .inr (List.mem_singleton.mp new ▸ free)

theorem EntryStored.untouched
    (entry : EntryStored boot disk disk' first dirs dirs' name ext attributes n owner s slot) :
    Untouched boot disk disk' dirs := by
  intro cluster data absent used
  refine ⟨entry.entries cluster data.2 absent used, fun t inside => ?_⟩
  refine entry.contents cluster data (fun member => ?_) t inside (.inl ?_)
  · rcases entry.within cluster member with old | free
    · exact absent old
    · exact used free
  · rintro rfl
    have low := data.1
    exact used (entry.taken (by omega)).2.1

theorem Directories.created (directories : Directories st firsts) (unique : UniqueNames st firsts)
    (directory : FatChain st.boot st.disk st.cwdCluster dirs)
    (created : CreatedIn st st' dirs dirs' name ext attributes n owner s slot)
    (fresh : ¬ Listed st.boot st.disk dirs (padField 8 name)) :
    Directories st' firsts ∧ UniqueNames st' firsts ∧
      ∀ first ∈ firsts, ∀ clusters, FatChain st.boot st'.disk first clusters →
        ∀ cluster ∈ clusters, cluster ∈ dirs' ∨ fatEntry st.boot st.disk cluster ≠ 0 :=
  directories.update unique directory created.kept created.lagging created.entry.chain created.entry.within
    (created.entry.namesUnique (unique _ directories.current dirs directory) fresh) created.entry.untouched

theorem Directories.writeFile (directories : Directories st firsts) (unique : UniqueNames st firsts)
    (ok : NameOk (st, firsts) (.writeFile name ext))
    (finished : fatWriteFile fuel name ext st = some (exit, st')) :
    Directories st' firsts ∧ UniqueNames st' firsts := by
  obtain ⟨dirs, directory⟩ := directories.chain _ directories.current
  obtain ⟨_, _, total, duplicate, stored⟩ := fatWriteFile_stores directories.wf directories.lagging directory
    (Nat.lt_succ_self _) name ext
  cases fatWriteFile_deterministic finished total
  cases found : (dirs.findSome? (fileDuplicateIn st.boot st.disk name)).isSome with
  | true =>
    have loaded := (duplicate found).2
    exact ⟨directories.loaded loaded, unique.loaded loaded⟩
  | false =>
    rcases stored found with full | ⟨n, dirs', current, s, slot, _, created⟩
    · exact ⟨directories.loaded full.loaded, unique.loaded full.loaded⟩
    · have fresh : ¬ Listed st.boot st.disk dirs (padField 8 name) := by
        intro listed
        rw [ok dirs directory listed] at found
        cases found
      obtain ⟨directories', unique', _⟩ := directories.created unique directory created fresh
      exact ⟨directories', unique'⟩

/-- With room for the directory its first sector goes to a cluster of the volume or to
no place in the FAT. -/
theorem StoredAt.initsAt (place : StoredAt st dirs n current s slot) (room : DirRoom st dirs) : InitsAt st.boot n := by
  by_cases none : n = 0
  · rcases room with outside | some
    · exact .inr ⟨none, outside⟩
    · have full := place.room none
      cases found : firstPlace st.boot st.disk Sector.slotFree dirs with
      | some hit =>
        rw [if_pos (place.found _ _ found).2.1] at full
        rw [found, if_pos Option.isSome_some, full] at some
        exact absurd some Finset.not_nonempty_empty
      | none =>
        rw [if_neg (place.absent found)] at full
        rw [found, if_neg (by decide)] at some
        rcases some with many | empty
        · omega
        · exact absurd empty full.2.ne_empty
  · exact .inl (place.data none)

theorem FreshNames.unique (fresh : FreshNames boot disk n) (wf : boot.WellFormed) (data : boot.DataCluster n)
    (first : clusterData boot disk' n 0 = dirSector n parent)
    (same : ∀ t < boot.spc, t ≠ 0 → clusterData boot disk' n t = clusterData boot disk n t) :
    NamesUnique boot disk' [n] := by
  refine NamesUnique.congr fresh (fun place inside index below => ?_)
  obtain ⟨member, number, _⟩ := inside
  rw [Place.buf, Place.buf, List.mem_singleton.mp member, clusterData_initDir wf _ _ data number]
  split
  · rename_i start
    rw [start, first, dirSector_nameByte _ _ _ below, dirSector_nameByte _ _ _ below]
  · rename_i behind
    rw [same _ number behind]

theorem Directories.createDir (directories : Directories st firsts) (unique : UniqueNames st firsts)
    (ok : NameOk (st, firsts) (.createDir name)) (finished : fatCreateDir fuel name st = some (exit, st')) :
    Directories st' (exit.directories firsts) ∧ UniqueNames st' (exit.directories firsts) := by
  obtain ⟨dirs, directory⟩ := directories.chain _ directories.current
  obtain ⟨_, _, total, duplicate, stored⟩ := fatCreateDir_stores directories.wf directories.lagging directory
    (Nat.lt_succ_self _) name
  cases fatCreateDir_deterministic finished total
  by_cases present : dirs.findSome? (dirDuplicateIn st.boot st.disk name) = some true
  · obtain ⟨rfl, loaded⟩ := duplicate present
    exact ⟨directories.loaded loaded, unique.loaded loaded⟩
  obtain ⟨fresh, room, clean⟩ := ok dirs directory present
  rcases stored present with full | ⟨n, dirs', current, s, slot, placed, rfl, storing, rfl⟩
  · cases full.exit
    exact ⟨directories.loaded full.loaded, unique.loaded full.loaded⟩
  obtain ⟨created, first⟩ := storing.initDir directories.wf (storing.place.initsAt room)
  obtain ⟨directories', unique', old⟩ := directories.created unique directory created fresh
  rw [CreateExit.directories]
  split
  · exact ⟨directories', unique'⟩
  · rename_i some
    obtain ⟨data, free, last, outside⟩ := created.entry.taken some
    have boot := created.kept.boot
    have chain : FatChain st.boot (fatInitDirCluster n current placed).disk n [n] := .single data last
    have names : NamesUnique st.boot (fatInitDirCluster n current placed).disk [n] :=
      (clean n ⟨mem_freeClusters.mpr ⟨data, free⟩, fun coherent =>
        fatCreateDir_reserves directories.wf coherent directory finished some⟩).unique directories.wf data (first some)
        (fun t inside behind => created.entry.contents n data outside t inside (.inr behind))
    refine directories'.add unique' (by rw [boot]; exact chain) ?_ (by rw [boot]; exact names)
    intro other member clusters inChain here
    rw [boot] at inChain
    rcases old other member clusters inChain n here with inDirs | used
    · exact outside inDirs
    · exact used free

theorem Directories.renameFile (directories : Directories st firsts) (unique : UniqueNames st firsts)
    (ok : NameOk (st, firsts) (.renameFile name newName))
    (finished : fatRenameFile fuel name newName st = some st') :
    Directories st' firsts ∧ UniqueNames st' firsts := by
  obtain ⟨dirs, directory⟩ := directories.chain _ directories.current
  have wf := directories.wf
  rcases fatRenameFile_cases finished with ⟨mid, _, located, rfl⟩ | ⟨hit, last, located, rfl⟩
  · obtain ⟨_, loaded⟩ := locate_result directories.lagging directory located
    exact ⟨directories.loaded (loaded.kprintf _), unique.loaded (loaded.kprintf _)⟩
  · obtain ⟨found, loaded⟩ := locate_result directories.lagging directory located
    obtain ⟨cluster, s, place⟩ := firstHit_some found
    have data := directory.data cluster place.member
    have names := namesUnique_rename wf directory (unique _ directories.current dirs directory) place
      (ok dirs directory hit cluster s found place)
    have boot := loaded.kept.boot
    have disk := loaded.disk
    have fat : ∀ lba, st.boot.IsFatSector lba → ataReadSector (ataWriteSector st.disk hit.lba
        (hit.buf.setName hit.slot newName)) lba = ataReadSector st.disk lba := by
      intro lba isFat
      rw [place.lba]
      exact readFat_writeData wf st.disk _ data place.inside isFat
    have entries := fun cluster (range : cluster < st.boot.totalClusters + 2) =>
      fatEntry_congr wf.layout fat range
    have kept : Kept st { last with disk := ataWriteSector last.disk hit.lba (hit.buf.setName hit.slot newName) } :=
      ⟨loaded.kept.boot, loaded.kept.cwdCluster, loaded.kept.cwdPath⟩
    have lagging : Lagging { last with
        disk := ataWriteSector last.disk hit.lba (hit.buf.setName hit.slot newName) } := by
      refine (directories.lagging.loaded loaded).rewrite (by rw [boot]; exact wf.layout) _ ?_
      rw [boot, disk]
      exact fat
    have untouched : Untouched st.boot st.disk
        (ataWriteSector st.disk hit.lba (hit.buf.setName hit.slot newName)) dirs := by
      intro other otherData outside _
      refine ⟨entries other otherData.2, fun t inside => ?_⟩
      rw [place.lba, clusterData_write wf st.disk _ data otherData place.inside inside]
      exact if_neg (fun here : other = cluster ∧ t = s => outside (here.1 ▸ place.member))
    rw [disk] at kept lagging ⊢
    obtain ⟨directories', unique', _⟩ := directories.update unique directory kept lagging
      (directory.congr (fun other member => entries other (directory.data other member).2))
      (fun _ => .inl) names untouched
    exact ⟨directories', unique'⟩

theorem NameStep.unique (step : NameStep (st, firsts) call (st', firsts')) (ok : NameOk (st, firsts) call)
    (directories : Directories st firsts) (unique : UniqueNames st firsts) :
    Directories st' firsts' ∧ UniqueNames st' firsts' := by
  cases step with
  | writeFile finished => exact directories.writeFile unique ok finished
  | createDir finished => exact directories.createDir unique ok finished
  | renameFile finished => exact directories.renameFile unique ok finished

theorem oneFileVolume_used (place : Place) (inside : place.In sampleBoot [2])
    (used : place.Used sampleBoot (mounted oneFileVolume).disk) : place = ⟨2, 0, 0⟩ := by
  have slots : ∀ slot < 16, (clusterData sampleBoot (mounted oneFileVolume).disk 2 0).slotFree slot = false →
      slot = 0 := by
    decide +kernel
  obtain ⟨cluster, s, slot⟩ := place
  obtain ⟨member, number, below⟩ := inside
  cases List.mem_singleton.mp member
  cases Nat.lt_one_iff.mp number
  rw [slots slot below used]

end LivlyOS.Fs
