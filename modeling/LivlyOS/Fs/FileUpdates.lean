import LivlyOS.Fs.FileStore

namespace LivlyOS.Fs

open LivlyOS.Lib

variable {boot : FAT32BootSector} {disk disk' : Disk}

/-- Only the entry at `place`, the chain `clusters` and free clusters change; the directory
may grow by a free cluster without entries. -/
structure EntryChanged (boot : FAT32BootSector) (disk disk' : Disk) (first : Nat) (dirs dirs' : List Nat) (place : Place)
    (clusters : List Nat) : Prop where
  chain : FatChain boot disk' first dirs'
  within : ∀ cluster ∈ dirs', cluster ∈ dirs ∨ fatEntry boot disk cluster = 0
  grown : dirs ⊆ dirs'
  same : ∀ other : Place, other.In boot dirs → other ≠ place → other.Same boot disk disk'
  fresh : ∀ other : Place, other.In boot dirs' → other.Used boot disk' → other ≠ place → other.In boot dirs
  others : ∀ cluster, boot.DataCluster cluster → cluster ∉ dirs → cluster ∉ clusters → fatEntry boot disk cluster ≠ 0 →
    fatEntry boot disk' cluster = fatEntry boot disk cluster ∧
      ∀ s < boot.spc, clusterData boot disk' cluster s = clusterData boot disk cluster s

theorem EntryChanged.write (wf : boot.WellFormed) (directory : FatChain boot disk first dirs) {place : Place}
    (inside : place.In boot dirs) {buf : Sector} (outside : ∀ position, position < 32 * place.slot ∨
      32 * place.slot + 32 ≤ position → buf.bytes position = (place.buf boot disk).bytes position) :
    EntryChanged boot disk (ataWriteSector disk (boot.clusterLba place.cluster place.s) buf) first dirs dirs place [] := by
  obtain ⟨member, sector, below⟩ := inside
  have data := directory.data place.cluster member
  have entries : ∀ cluster, cluster < boot.totalClusters + 2 →
      fatEntry boot (ataWriteSector disk (boot.clusterLba place.cluster place.s) buf) cluster = fatEntry boot disk cluster :=
    fun cluster inRange => fatEntry_congr wf.layout (fun lba fat => readFat_writeData wf disk buf data sector fat) inRange
  refine ⟨directory.congr fun cluster here => entries cluster (directory.data cluster here).2, fun _ here => .inl here,
    fun _ here => here, ?_, fun other here _ _ => here, ?_⟩
  · intro other otherInside different
    obtain ⟨otherMember, otherSector, otherBelow⟩ := otherInside
    rw [Place.Same, Place.buf, clusterData_write wf disk buf data (directory.data _ otherMember) sector otherSector]
    split
    · rename_i here
      rw [Place.buf, here.1, here.2]
      refine Sector.sameSlot_of_outside (fun slot => different ?_) outside
      cases other
      cases place
      simp_all
    · exact .refl _ _
  · intro cluster clusterData' notDir _ _
    refine ⟨entries cluster clusterData'.2, fun s inCluster => ?_⟩
    rw [clusterData_write wf disk buf data clusterData' sector inCluster, if_neg]
    rintro ⟨rfl, -⟩
    exact notDir member

theorem chainByte_congr {clusters : List Nat} (same : ∀ cluster ∈ clusters, ∀ s < boot.spc,
    clusterData boot disk' cluster s = clusterData boot disk cluster s) (position : Nat) :
    chainByte boot disk' clusters position = chainByte boot disk clusters position := by
  induction clusters generalizing position with
  | nil => rfl
  | cons cluster rest ih =>
    unfold chainByte
    split
    · rename_i inside
      rw [same cluster List.mem_cons_self _ (sector_inside inside)]
    · exact ih (fun other member => same other (List.mem_cons_of_mem _ member)) _

/-- A file whose entry keeps its cluster and its size, and whose chain is left alone. -/
theorem FileAt.frame {place : Place} (file : FileAt boot disk place clusters data)
    (target : place.target boot disk' = place.target boot disk)
    (size : (place.buf boot disk').slotSize place.slot = (place.buf boot disk).slotSize place.slot)
    (kept : ∀ cluster ∈ clusters, fatEntry boot disk' cluster = fatEntry boot disk cluster ∧
      ∀ s < boot.spc, clusterData boot disk' cluster s = clusterData boot disk cluster s) :
    FileAt boot disk' place clusters data := by
  refine ⟨?_, size.trans file.size, file.long, file.short, fun index inside => ?_⟩
  · rw [target]
    exact file.chain.congr fun cluster member => (kept cluster member).1
  · rw [chainByte_congr (fun cluster member => (kept cluster member).2), file.contents index inside]

theorem Sector.SameSlot.slotSize {left right : Sector} (same : Sector.SameSlot left right slot) :
    left.slotSize slot = right.slotSize slot := by
  refine word_congr fun position low high => ?_
  obtain ⟨index, rfl⟩ : ∃ index, position = 32 * slot + index := ⟨position - 32 * slot, by omega⟩
  exact same index (by omega)

theorem Sector.SameSlot.shownName {left right : Sector} (same : Sector.SameSlot left right slot) :
    left.shownName slot = right.shownName slot := by
  unfold Sector.shownName shownField
  congr 1
  refine List.map_congr_left fun index member => ?_
  exact same.nameByte (by have below := List.mem_range.mp member; omega)

theorem Place.Same.shows {place : Place} (same : place.Same boot disk disk') {name : FileName} :
    place.Shows boot disk' name ↔ place.Shows boot disk name := by
  have shown : (place.buf boot disk').shownName place.slot = (place.buf boot disk).shownName place.slot :=
    Sector.SameSlot.shownName same
  constructor
  · rintro ⟨used, text⟩
    exact ⟨(Place.Same.used same).mp used, shown ▸ text⟩
  · rintro ⟨used, text⟩
    exact ⟨(Place.Same.used same).mpr used, shown.trans text⟩

theorem Place.Same.clear {place : Place} (same : place.Same boot disk disk') (clear : place.Clear boot disk) :
    place.Clear boot disk' := by
  intro index below
  rw [Sector.SameSlot.nameByte same (by omega)]
  exact clear index below

theorem Ended.congr (ended : Ended boot disk dirs)
    (same : ∀ place : Place, place.In boot dirs → (place.first boot disk' = 0 ↔ place.first boot disk = 0)) :
    Ended boot disk' dirs := by
  refine List.Pairwise.imp_of_mem (fun {earlier later} member laterMember kept zero => ?_) ended
  rw [same _ (mem_places.mp laterMember)]
  exact kept ((same _ (mem_places.mp member)).mp zero)

/-- A file with its chain. -/
structure StoredFile where
  name : FileName
  clusters : List Nat
  data : List UInt8

/-- The map without one file and with another. -/
def FileStore.exchange (store : FileStore) (old : Option FileName) (new : Option StoredFile) : FileStore :=
  let rest := match old with
    | none => store
    | some name => store.remove name
  match new with
  | none => rest
  | some file => Function.update rest file.name (some file.data)

/-- The layout with the new file at this place. -/
def FileLayout.exchange (layout : FileLayout) (dirs : List Nat) (place : Place) : Option StoredFile → FileLayout
  | none => { layout with dirs }
  | some file => ⟨dirs, Function.update layout.place file.name place, Function.update layout.chain file.name file.clusters⟩

namespace FileStore

variable {store : FileStore} {old : Option FileName} {new : Option StoredFile}

theorem exchange_new (member : file ∈ new) : store.exchange old new file.name = some file.data := by
  cases Option.mem_def.mp member
  exact Function.update_self _ _ _

theorem exchange_other (notNew : ∀ file ∈ new, file.name ≠ name) (notOld : old ≠ some name) :
    store.exchange old new name = store name := by
  have rest : store.exchange old none name = store name := by
    cases old with
    | none => rfl
    | some old => exact Function.update_of_ne (fun same => notOld (congrArg some same.symm)) _ _
  cases new with
  | none => exact rest
  | some file => exact (Function.update_of_ne (Ne.symm (notNew file rfl)) _ _).trans rest

theorem exchange_cases (stored : store.exchange old new name = some data) :
    (∃ file ∈ new, file.name = name ∧ file.data = data) ∨
      ((∀ file ∈ new, file.name ≠ name) ∧ old ≠ some name ∧ store name = some data) := by
  by_cases isNew : ∃ file ∈ new, file.name = name
  · obtain ⟨file, member, rfl⟩ := isNew
    rw [exchange_new member] at stored
    exact .inl ⟨file, member, rfl, Option.some.inj stored⟩
  · have notNew : ∀ file ∈ new, file.name ≠ name := fun file member same => isNew ⟨file, member, same⟩
    by_cases isOld : old = some name
    · have gone : store.exchange old new name = none := by
        subst isOld
        cases new with
        | none => exact Function.update_self _ _ _
        | some file => exact (Function.update_of_ne (Ne.symm (notNew file rfl)) _ _).trans (Function.update_self _ _ _)
      rw [gone] at stored
      cases stored
    · rw [exchange_other notNew isOld] at stored
      exact .inr ⟨notNew, isOld, stored⟩

end FileStore

namespace FileLayout

variable (layout : FileLayout) (dirs : List Nat) (place : Place) {new : Option StoredFile}

theorem exchange_dirs : (layout.exchange dirs place new).dirs = dirs := by
  cases new <;> rfl

theorem exchange_new (member : file ∈ new) : (layout.exchange dirs place new).place file.name = place ∧
    (layout.exchange dirs place new).chain file.name = file.clusters := by
  cases Option.mem_def.mp member
  exact ⟨Function.update_self _ _ _, Function.update_self _ _ _⟩

theorem exchange_other (notNew : ∀ file ∈ new, file.name ≠ name) :
    (layout.exchange dirs place new).place name = layout.place name ∧
      (layout.exchange dirs place new).chain name = layout.chain name := by
  cases new with
  | none => exact ⟨rfl, rfl⟩
  | some file =>
    have different := Ne.symm (notNew file rfl)
    exact ⟨Function.update_of_ne different _ _, Function.update_of_ne different _ _⟩

end FileLayout

/-- The entry at `place` was that of the file `old`, and is now that of the file `new`. -/
structure FileLayout.Exchanges (layout : FileLayout) (foreign : Set FileName) (st st' : FatState) (store : FileStore)
    (dirs : List Nat) (place : Place) (old : Option FileName) (new : Option StoredFile) : Prop where
  changed : EntryChanged st.boot st.disk st'.disk st.cwdCluster layout.dirs dirs place (old.elim [] layout.chain)
  ended : Ended st.boot st'.disk dirs
  clear : place.Used st.boot st'.disk → place.Clear st.boot st'.disk
  was : ∀ name ∈ old, store name ≠ none
  before : ∀ name, store name ≠ none → (layout.place name = place ↔ old = some name)
  shows' : ∀ name ∉ foreign, place.Shows st.boot st'.disk name → ∃ file ∈ new, file.name = name
  inside : ∀ file ∈ new, place.In st.boot dirs
  file : ∀ file ∈ new, place.Shows st.boot st'.disk file.name ∧ FileAt st.boot st'.disk place file.clusters file.data
  known : ∀ file ∈ new, file.name ∉ foreign ∧ (old = some file.name ∨ store file.name = none)
  apart : ∀ file ∈ new, List.Disjoint dirs file.clusters ∧
    ∀ cluster ∈ file.clusters, cluster ∈ old.elim [] layout.chain ∨ fatEntry st.boot st.disk cluster = 0

section Exchange

variable {layout : FileLayout} {foreign : Set FileName} {st st' : FatState} {store : FileStore} {dirs : List Nat}
  {place : Place} {old : Option FileName} {new : Option StoredFile} {name : FileName}
  (holds : layout.Holds foreign st store) (change : layout.Exchanges foreign st st' store dirs place old new)
include holds change

/-- The clusters of another file are none of those that change. -/
theorem FileLayout.Exchanges.untouched (stored : store name = some data) (notOld : old ≠ some name) :
    layout.place name ≠ place ∧ (∀ cluster ∈ layout.chain name, cluster ∉ old.elim [] layout.chain) ∧
      ∀ cluster ∈ layout.chain name, fatEntry st.boot st'.disk cluster = fatEntry st.boot st.disk cluster ∧
        ∀ s < st.boot.spc, clusterData st.boot st'.disk cluster s = clusterData st.boot st.disk cluster s := by
  have here : store name ≠ none := by simp [stored]
  have file := (holds.entry name data stored).2.2
  have outside : ∀ cluster ∈ layout.chain name, cluster ∉ old.elim [] layout.chain := by
    intro cluster member touched
    cases old with
    | none => exact List.not_mem_nil touched
    | some other =>
      exact holds.apart name other here (change.was other rfl) (fun same => notOld (congrArg some same.symm)) member touched
  refine ⟨fun same => notOld ((change.before name here).mp same), outside, fun cluster member => ?_⟩
  exact change.changed.others cluster (file.chain.data cluster member)
    (fun inDir => holds.apartDir name here inDir member) (outside cluster member) (file.chain.entry_ne_zero member)

/-- A file that is neither old nor new keeps its entry and its contents. -/
theorem FileLayout.Exchanges.keptEntry (stored : store name = some data) (notOld : old ≠ some name) :
    (layout.place name).In st.boot dirs ∧ (layout.place name).Shows st.boot st'.disk name ∧
      FileAt st.boot st'.disk (layout.place name) (layout.chain name) data := by
  obtain ⟨inside, shows', file⟩ := holds.entry name data stored
  obtain ⟨different, _, kept⟩ := change.untouched holds stored notOld
  have same := change.changed.same _ inside different
  exact ⟨⟨change.changed.grown inside.1, inside.2⟩, same.shows.mpr shows',
    file.frame (Place.Same.target same) (Sector.SameSlot.slotSize same) kept⟩

theorem FileLayout.Exchanges.apartNew {file : StoredFile} (member : file ∈ new) (stored : store name = some data) (notOld : old ≠ some name) :
    List.Disjoint file.clusters (layout.chain name) := by
  intro cluster inNew inOther
  rcases (change.apart file member).2 cluster inNew with inOld | free
  · exact (change.untouched holds stored notOld).2.1 cluster inOther inOld
  · exact (holds.entry name data stored).2.2.chain.entry_ne_zero inOther free

theorem FileLayout.Exchanges.apartDirs (stored : store name = some data) : List.Disjoint dirs (layout.chain name) := by
  intro cluster inDirs inChain
  rcases change.changed.within cluster inDirs with inDir | free
  · exact holds.apartDir name (by simp [stored]) inDir inChain
  · exact (holds.entry name data stored).2.2.chain.entry_ne_zero inChain free

/-- The volume keeps the map in which the new file has taken the place of the old one. -/
theorem FileLayout.Holds.exchange (kept : Kept st st') (lagging : Lagging st') :
    (layout.exchange dirs place new).Holds foreign st' (store.exchange old new) := by
  have wf := holds.wf
  have boot := kept.boot
  refine ⟨?_, lagging, ?_, ?_, ?_, ?_, ?_, ?_, ?_, ?_⟩
  · rw [boot]
    exact wf
  · rw [boot, kept.cwdCluster, layout.exchange_dirs]
    exact change.changed.chain
  · rw [boot, layout.exchange_dirs]
    exact change.ended
  · rw [boot, layout.exchange_dirs]
    intro other inside used
    by_cases here : other = place
    · subst here
      exact change.clear used
    · have old := change.changed.fresh other inside used here
      have same := change.changed.same other old here
      exact same.clear (holds.clear other old ((Place.Same.used same).mp used))
  · rw [boot, layout.exchange_dirs]
    intro name data stored
    rcases FileStore.exchange_cases stored with ⟨file, member, rfl, rfl⟩ | ⟨notNew, notOld, stored⟩
    · rw [(layout.exchange_new dirs place member).1, (layout.exchange_new dirs place member).2]
      exact ⟨change.inside file member, change.file file member⟩
    · rw [(layout.exchange_other dirs place notNew).1, (layout.exchange_other dirs place notNew).2]
      exact change.keptEntry holds stored notOld
  · rw [boot, layout.exchange_dirs]
    intro other inside name known shown
    by_cases here : other = place
    · subst here
      obtain ⟨file, member, rfl⟩ := change.shows' name known shown
      rw [FileStore.exchange_new member, (layout.exchange_new dirs other member).1]
      exact ⟨Option.some_ne_none _, rfl⟩
    · have old' := change.changed.fresh other inside shown.used here
      have same := change.changed.same other old' here
      obtain ⟨stored, lies⟩ := holds.only other old' name known (same.shows.mp shown)
      have notOld : old ≠ some name := fun was => here (lies.trans ((change.before name stored).mpr was))
      have notNew : ∀ file ∈ new, file.name ≠ name := by
        rintro file member rfl
        rcases (change.known file member).2 with was | none
        · exact notOld was
        · exact stored none
      rw [FileStore.exchange_other notNew notOld, (layout.exchange_other dirs place notNew).1]
      exact ⟨stored, lies⟩
  · intro name other
    by_contra stored
    obtain ⟨data, stored⟩ := Option.ne_none_iff_exists'.mp stored
    rcases FileStore.exchange_cases stored with ⟨file, member, rfl, -⟩ | ⟨-, -, stored⟩
    · exact (change.known file member).1 other
    · exact absurd (holds.own name other) (by simp [stored])
  · rw [layout.exchange_dirs]
    intro name stored
    obtain ⟨data, stored⟩ := Option.ne_none_iff_exists'.mp stored
    rcases FileStore.exchange_cases stored with ⟨file, member, rfl, -⟩ | ⟨notNew, -, stored⟩
    · rw [(layout.exchange_new dirs place member).2]
      exact (change.apart file member).1
    · rw [(layout.exchange_other dirs place notNew).2]
      exact change.apartDirs holds stored
  · intro name other stored otherStored different
    obtain ⟨data, stored⟩ := Option.ne_none_iff_exists'.mp stored
    obtain ⟨otherData, otherStored⟩ := Option.ne_none_iff_exists'.mp otherStored
    rcases FileStore.exchange_cases stored with ⟨file, member, rfl, -⟩ | ⟨notNew, notOld, stored⟩
    · rcases FileStore.exchange_cases otherStored with ⟨file', member', rfl, -⟩ | ⟨notNew', notOld', otherStored⟩
      · exact absurd (congrArg StoredFile.name (Option.some.inj (member.symm.trans member'))) different
      · rw [(layout.exchange_new dirs place member).2, (layout.exchange_other dirs place notNew').2]
        exact change.apartNew holds member otherStored notOld'
    · rcases FileStore.exchange_cases otherStored with ⟨file', member', rfl, -⟩ | ⟨notNew', notOld', otherStored⟩
      · rw [(layout.exchange_new dirs place member').2, (layout.exchange_other dirs place notNew).2]
        exact (change.apartNew holds member' stored notOld).symm
      · rw [(layout.exchange_other dirs place notNew).2, (layout.exchange_other dirs place notNew').2]
        exact holds.apart name other (by simp [stored]) (by simp [otherStored]) different

end Exchange

end LivlyOS.Fs
