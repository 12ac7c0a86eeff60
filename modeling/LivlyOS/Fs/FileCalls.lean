import LivlyOS.Fs.FileUpdates
import LivlyOS.Fs.VisibleSaves

namespace LivlyOS.Fs

open LivlyOS.Lib

variable {boot : FAT32BootSector} {disk disk' : Disk}

/-- Whatever else happens behind a rewritten entry happens in the chain of its file. -/
theorem EntryChanged.followed (changed : EntryChanged boot disk mid first dirs dirs place [])
    (directory : FatChain boot disk first dirs) (apart : List.Disjoint dirs clusters)
    (behind : ∀ cluster, boot.DataCluster cluster → cluster ∉ clusters → fatEntry boot mid cluster ≠ 0 →
      fatEntry boot disk' cluster = fatEntry boot mid cluster ∧
        ∀ s < boot.spc, clusterData boot disk' cluster s = clusterData boot mid cluster s) :
    EntryChanged boot disk disk' first dirs dirs place clusters := by
  have stays : ∀ cluster ∈ dirs, fatEntry boot disk' cluster = fatEntry boot mid cluster ∧
      ∀ s < boot.spc, clusterData boot disk' cluster s = clusterData boot mid cluster s :=
    fun cluster member => behind cluster (directory.data cluster member) (fun inChain => apart member inChain)
      (changed.chain.entry_ne_zero member)
  refine ⟨changed.chain.congr fun cluster member => (stays cluster member).1, fun _ member => .inl member,
    fun _ member => member, ?_, fun other inside _ _ => inside, ?_⟩
  · intro other inside different
    have same := changed.same other inside different
    rw [Place.Same, Place.buf, (stays _ inside.1).2 _ inside.2.1]
    exact same
  · intro cluster data notDir notChain taken
    obtain ⟨entry, contents⟩ := changed.others cluster data notDir List.not_mem_nil taken
    obtain ⟨entry', contents'⟩ := behind cluster data notChain (entry ▸ taken)
    exact ⟨entry'.trans entry, fun s inside => (contents' s inside).trans (contents s inside)⟩

/-- A slot whose name field was padded shows its name. -/
theorem Place.shows_padded {place : Place} {name : FileName}
    (stored : ∀ index < 8, (place.buf boot disk).nameByte place.slot index = (padField 8 name.text).getD index 0) :
    place.Shows boot disk name ∧ place.Clear boot disk := by
  have clear : place.Clear boot disk := fun index below => by
    rw [stored index below]
    exact padField_clear name.text below
  have shown : (place.buf boot disk).shownName place.slot = name.text := by
    have field := shownField_padField name.visible.spaceFree 8
    rw [name.visible.text, List.take_of_length_le name.short] at field
    rw [← field, Sector.shownName, shownField, shownField]
    congr 1
    exact List.map_congr_left fun index member => stored index (List.mem_range.mp member)
  exact ⟨⟨slotFree_of_matches name.visible name.nonempty ((Sector.slotMatches_iff name.visible clear).mpr shown), shown⟩, clear⟩

theorem Place.Used.first {place : Place} (used : place.Used boot disk) : place.first boot disk ≠ 0 := by
  intro zero
  rw [Place.first] at zero
  rw [Place.Used, Sector.slotFree, zero] at used
  cases used

/-- Deleting the only match: its slot is marked, then the entries of its chain are cleared. -/
theorem fatDeleteFile_marks (wf : st.boot.WellFormed) (lagging : Lagging st)
    (directory : FatChain st.boot st.disk st.cwdCluster dirs) (only : OnlyMatch st.boot st.disk dirs name owner s slot)
    (file : FatChain st.boot st.disk ((clusterData st.boot st.disk owner s).slotCluster slot) clusters)
    (enough : dirs.length ≤ fuel) (more : clusters.length < fuel) :
    ∃ st', fatDeleteFile fuel name st = some st' ∧ Kept st st' ∧ Lagging st' ∧
      st'.disk = clearEntries st.boot clusters (ataWriteSector st.disk (st.boot.clusterLba owner s)
        ((clusterData st.boot st.disk owner s).putByte slot 0 0xE5)) := by
  obtain ⟨mid, located, loaded⟩ := locate_eq lagging directory enough name
  have lagging' := lagging.loaded loaded
  obtain ⟨_, _, _, _, nr, cached, dirty, console⟩ := mid
  obtain ⟨⟨rfl, rfl, rfl⟩, rfl, -, -⟩ := loaded
  have data := directory.data owner only.member
  have sameFat : ∀ lba, st.boot.IsFatSector lba → ataReadSector (ataWriteSector st.disk (st.boot.clusterLba owner s)
      ((clusterData st.boot st.disk owner s).putByte slot 0 0xE5)) lba = ataReadSector st.disk lba :=
    fun lba fat => readFat_writeData wf st.disk _ data only.inside fat
  obtain ⟨st', freed, cleared, after, kept⟩ := freeLoop_eq (by exact wf) (lagging'.rewrite wf.layout _ sameFat)
    (by exact file.congr fun cluster member => fatEntry_congr wf.layout sameFat (file.data cluster member).2) more
  refine ⟨st', ?_, ⟨kept.boot, kept.cwdCluster, kept.cwdPath⟩, after, cleared⟩
  rw [fatDeleteFile, located, only.firstHit]
  refine deleteSlots_only List.nodup_range (List.mem_range.mpr only.below) only.hits ?_ freed
  intro other inside different
  by_contra hits
  exact different (only.only owner only.member s only.inside other (List.mem_range.mp inside)
    (Bool.not_eq_false _ ▸ hits)).2.2

theorem fatRenameFile_writes (wf : st.boot.WellFormed) (lagging : Lagging st)
    (directory : FatChain st.boot st.disk st.cwdCluster dirs) {place : Place}
    (found : firstHit st.boot st.disk (Sector.slotMatches name) dirs = some (place.hit st.boot st.disk))
    (inside : place.In st.boot dirs) (enough : dirs.length ≤ fuel) (newName : CString) :
    ∃ st', fatRenameFile fuel name newName st = some st' ∧ Kept st st' ∧ Lagging st' ∧
      st'.disk = ataWriteSector st.disk (st.boot.clusterLba place.cluster place.s)
        ((place.buf st.boot st.disk).setName place.slot newName) := by
  obtain ⟨mid, located, loaded⟩ := locate_eq lagging directory enough name
  have lagging' := lagging.loaded loaded
  obtain ⟨_, _, _, _, nr, cached, dirty, console⟩ := mid
  obtain ⟨⟨rfl, rfl, rfl⟩, rfl, -, -⟩ := loaded
  have data := directory.data _ inside.1
  have after := lagging'.rewrite wf.layout (ataWriteSector st.disk (st.boot.clusterLba place.cluster place.s)
    ((place.buf st.boot st.disk).setName place.slot newName))
    fun lba fat => readFat_writeData wf st.disk _ data inside.2.1 fat
  have renamed : fatRenameFile fuel name newName st = some ⟨ataWriteSector st.disk (st.boot.clusterLba place.cluster place.s)
      ((place.buf st.boot st.disk).setName place.slot newName), st.boot, st.cwdCluster, st.cwdPath, nr, cached, dirty, console⟩ := by
    rw [fatRenameFile, located, found]
    rfl
  exact ⟨_, renamed, ⟨rfl, rfl, rfl⟩, after, rfl⟩

namespace FileLayout.Holds

variable {layout : FileLayout} {foreign : Set FileName} {st : FatState} {store : FileStore} {name : FileName}
  (holds : layout.Holds foreign st store)
include holds

/-- The first bytes that a change may set to zero or away from it are those of its own slot. -/
theorem endedAfter {place : Place} (changed : EntryChanged st.boot st.disk disk' st.cwdCluster layout.dirs layout.dirs place
    clusters) (before : place.first st.boot st.disk ≠ 0) (after : place.first st.boot disk' ≠ 0) :
    Ended st.boot disk' layout.dirs := by
  refine holds.ended.congr fun other inside => ?_
  by_cases here : other = place
  · subst here
    exact iff_of_false after before
  · rw [Place.first, Place.first, Sector.SameSlot.nameByte (changed.same other inside here) (by decide)]

theorem place_eq_iff {other : FileName} (stored : store name ≠ none) (otherStored : store other ≠ none) :
    layout.place other = layout.place name ↔ some name = some other := by
  constructor
  · intro same
    rw [holds.place_inj otherStored stored same]
  · intro same
    rw [Option.some.inj same]

theorem load (known : name ∉ foreign) (out : Bytes) : ∃ enough, ∀ fuel, enough ≤ fuel → ∃ st',
    (FileCall.load name out).run fuel st = some (.contents ((store name).getD []), st') ∧ layout.Holds foreign st' store := by
  cases stored : store name with
  | none =>
    refine ⟨layout.dirs.length, fun fuel enough => ?_⟩
    obtain ⟨mid, located, loaded⟩ := locate_eq holds.lagging holds.directory enough name.text
    rw [holds.missing known stored] at located
    refine ⟨mid.kprintf "nicht gefunden\n", ?_, (holds.loaded loaded).printed _⟩
    simp [FileCall.run, fatReadFile, located]
  | some data =>
    obtain ⟨inside, shows', file⟩ := holds.entry name data stored
    refine ⟨layout.dirs.length + (layout.chain name).length + 1, fun fuel enough => ?_⟩
    by_cases empty : data = []
    · subst empty
      obtain ⟨mid, located, loaded⟩ := locate_eq holds.lagging holds.directory (by omega : layout.dirs.length ≤ fuel) name.text
      rw [holds.found stored] at located
      have size : ((layout.place name).hit st.boot st.disk).buf.slotSize ((layout.place name).hit st.boot st.disk).slot = 0 :=
        file.size
      refine ⟨mid, ?_, holds.loaded loaded⟩
      simp [FileCall.run, fatReadFile, located, size]
    · have size : ((layout.place name).hit st.boot st.disk).buf.slotSize ((layout.place name).hit st.boot st.disk).slot =
          data.length := file.size
      obtain ⟨out', st', read, bytes⟩ := fatReadFile_found holds.wf holds.lagging holds.directory (holds.found stored) file.chain
        file.short (by rw [size]; simpa using empty) (by omega : layout.dirs.length ≤ fuel) (by omega) out
      rw [size] at read
      refine ⟨st', ?_, holds.loaded (fatReadFile_loaded holds.lagging.clean read)⟩
      have copied : (List.range data.length).map out' = data := by
        refine List.ext_getElem (by simp) fun index _ below => ?_
        have long := file.long
        rw [List.getElem_map, List.getElem_range, bytes index (by omega), file.contents index below]
      rw [FileCall.run, read, Option.map_some, copied]
      rfl

theorem removeStored (stored : store name = some data) : ∃ enough, ∀ fuel, enough ≤ fuel → ∃ st',
    fatDeleteFile fuel name.text st = some st' ∧ Keeps foreign st' (store.remove name) := by
  obtain ⟨inside, shows', file⟩ := holds.entry name data stored
  have here : store name ≠ none := by simp [stored]
  refine ⟨layout.dirs.length + (layout.chain name).length + 1, fun fuel enough => ?_⟩
  obtain ⟨st', deleted, kept, lagging, disk⟩ := fatDeleteFile_marks holds.wf holds.lagging holds.directory
    (holds.onlyMatch stored) file.chain (by omega : layout.dirs.length ≤ fuel) (by omega)
  refine ⟨st', deleted, layout.exchange layout.dirs (layout.place name) none, ?_⟩
  generalize place : layout.place name = entry at *
  have data := holds.directory.data _ inside.1
  have written := @EntryChanged.write st.boot st.disk _ _ holds.wf holds.directory entry inside
    ((entry.buf st.boot st.disk).putByte entry.slot 0 0xE5) (fun position outside => Sector.putByte_other _ _ (by omega))
  have frees := clearEntries_frees holds.wf (fun cluster member => (file.chain.data cluster member).2) (ataWriteSector st.disk
    (st.boot.clusterLba entry.cluster entry.s) ((entry.buf st.boot st.disk).putByte entry.slot 0 0xE5))
  rw [Place.buf, ← disk] at frees
  have changed : EntryChanged st.boot st.disk st'.disk st.cwdCluster layout.dirs layout.dirs entry (layout.chain name) :=
    written.followed holds.directory (holds.apartDir name here) fun cluster data outside _ =>
      ⟨frees.entries cluster data.2 outside, frees.contents cluster data⟩
  have mark : entry.first st.boot st'.disk = 0xE5 := by
    rw [Place.first, Place.buf, frees.contents _ data _ inside.2.1, clusterData_write holds.wf _ _ data data inside.2.1
      inside.2.1, if_pos ⟨rfl, rfl⟩]
    exact Sector.putByte_same _ inside.2.2 (by decide) 0xE5
  have unused : ¬entry.Used st.boot st'.disk := by
    rw [Place.Used, Sector.slotFree, show (entry.buf st.boot st'.disk).nameByte entry.slot 0 = 0xE5 from mark]
    decide
  have change : layout.Exchanges foreign st st' store layout.dirs entry (some name) none := by
    refine ⟨changed, holds.endedAfter changed shows'.used.first (by rw [mark]; decide), fun used => absurd used unused, ?_,
      fun other stored => ?_, fun other _ shown => absurd shown.used unused, ?_, ?_, ?_, ?_⟩
    · rintro _ ⟨⟩
      exact here
    · rw [← place]
      exact holds.place_eq_iff here stored
    all_goals rintro _ ⟨⟩
  exact holds.exchange change kept lagging

theorem remove (known : name ∉ foreign) : ∃ enough, ∀ fuel, enough ≤ fuel → ∃ st',
    (FileCall.remove name).run fuel st = some (.done, st') ∧ Keeps foreign st' (store.remove name) := by
  cases stored : store name with
  | none =>
    refine ⟨layout.dirs.length, fun fuel enough => ?_⟩
    obtain ⟨mid, located, loaded⟩ := locate_eq holds.lagging holds.directory enough name.text
    rw [holds.missing known stored] at located
    have same : store.remove name = store := Function.update_eq_self_iff.mpr stored.symm
    refine ⟨mid.kprintf "Datei nicht gefunden :(\n", ?_, layout, ?_⟩
    · simp [FileCall.run, fatDeleteFile, located]
    · rw [same]
      exact (holds.loaded loaded).printed _
  | some data =>
    obtain ⟨enough, runs⟩ := holds.removeStored stored
    refine ⟨enough, fun fuel more => ?_⟩
    obtain ⟨st', deleted, keeps⟩ := runs fuel more
    exact ⟨st', by rw [FileCall.run, deleted, Option.map_some], keeps⟩

theorem renameStored {newName : FileName} (stored : store name = some data) (newKnown : newName ∉ foreign)
    (free : newName = name ∨ store newName = none) : ∃ enough, ∀ fuel, enough ≤ fuel → ∃ st',
    fatRenameFile fuel name.text newName.text st = some st' ∧ Keeps foreign st' (store.rename name newName) := by
  obtain ⟨inside, shows', file⟩ := holds.entry name data stored
  have here : store name ≠ none := by simp [stored]
  refine ⟨layout.dirs.length, fun fuel enough => ?_⟩
  obtain ⟨st', renamed, kept, lagging, disk⟩ := fatRenameFile_writes holds.wf holds.lagging holds.directory
    (holds.found stored) inside enough newName.text
  have change : layout.Exchanges foreign st st' store layout.dirs (layout.place name) (some name)
      (some ⟨newName, layout.chain name, data⟩) := by
    generalize place : layout.place name = entry at *
    have data' := holds.directory.data _ inside.1
    have written := @EntryChanged.write st.boot st.disk _ _ holds.wf holds.directory entry inside
      ((entry.buf st.boot st.disk).setName entry.slot newName.text) (fun position outside => Sector.setName_other _ _ (by omega))
    rw [← disk] at written
    have buf : entry.buf st.boot st'.disk = (entry.buf st.boot st.disk).setName entry.slot newName.text := by
      rw [disk, Place.buf, clusterData_write holds.wf _ _ data' data' inside.2.1 inside.2.1, if_pos ⟨rfl, rfl⟩]
    have changed : EntryChanged st.boot st.disk st'.disk st.cwdCluster layout.dirs layout.dirs entry (layout.chain name) :=
      written.followed holds.directory (holds.apartDir name here) fun _ _ _ _ => ⟨rfl, fun _ _ => rfl⟩
    obtain ⟨shown, clear⟩ : entry.Shows st.boot st'.disk newName ∧ entry.Clear st.boot st'.disk := Place.shows_padded
      fun index below => by rw [buf, Sector.setName_nameByte _ inside.2.2 _ below]
    have target : entry.target st.boot st'.disk = entry.target st.boot st.disk := by
      rw [Place.target, buf]
      exact Sector.slotCluster_congr fun index low high => Sector.setName_other _ _ (by omega)
    have size : (entry.buf st.boot st'.disk).slotSize entry.slot = (entry.buf st.boot st.disk).slotSize entry.slot := by
      rw [buf]
      exact word_congr fun position low high => Sector.setName_other _ _ (by omega)
    have kept : ∀ cluster ∈ layout.chain name, fatEntry st.boot st'.disk cluster = fatEntry st.boot st.disk cluster ∧
        ∀ s < st.boot.spc, clusterData st.boot st'.disk cluster s = clusterData st.boot st.disk cluster s :=
      fun cluster member => written.others cluster (file.chain.data cluster member)
        (fun inDir => holds.apartDir name here inDir member) List.not_mem_nil (file.chain.entry_ne_zero member)
    refine ⟨changed, holds.endedAfter changed shows'.used.first shown.used.first, fun _ => clear, ?_, fun other stored => ?_,
      fun other _ otherShown => ⟨_, rfl, shown.unique otherShown⟩, ?_, ?_, ?_, ?_⟩
    · rintro _ ⟨⟩
      exact here
    · rw [← place]
      exact holds.place_eq_iff here stored
    all_goals rintro _ ⟨⟩
    · exact inside
    · exact ⟨shown, file.frame target size kept⟩
    · exact ⟨newKnown, free.imp (fun same => congrArg some same.symm) id⟩
    · exact ⟨holds.apartDir name here, fun cluster member => .inl member⟩
  have next : store.rename name newName = store.exchange (some name) (some ⟨newName, layout.chain name, data⟩) := by
    rw [FileStore.rename, stored]
    rfl
  rw [next]
  exact ⟨st', renamed, _, holds.exchange change kept lagging⟩

theorem rename {newName : FileName} (known : name ∉ foreign)
    (free : store name ≠ none → newName ∉ foreign ∧ (newName = name ∨ store newName = none)) :
    ∃ enough, ∀ fuel, enough ≤ fuel → ∃ st',
      (FileCall.rename name newName).run fuel st = some (.done, st') ∧ Keeps foreign st' (store.rename name newName) := by
  cases stored : store name with
  | none =>
    refine ⟨layout.dirs.length, fun fuel enough => ?_⟩
    obtain ⟨mid, located, loaded⟩ := locate_eq holds.lagging holds.directory enough name.text
    rw [holds.missing known stored] at located
    have same : store.rename name newName = store := by rw [FileStore.rename, stored]
    refine ⟨mid.kprintf "nicht gefunden :(n", ?_, layout, ?_⟩
    · simp [FileCall.run, fatRenameFile, located]
    · rw [same]
      exact (holds.loaded loaded).printed _
  | some data =>
    obtain ⟨newKnown, free⟩ := free (by simp [stored])
    obtain ⟨enough, runs⟩ := holds.renameStored stored newKnown free
    refine ⟨enough, fun fuel more => ?_⟩
    obtain ⟨st', renamed, keeps⟩ := runs fuel more
    exact ⟨st', by rw [FileCall.run, renamed, Option.map_some], keeps⟩

theorem saveStored (stored : store name = some data) (buf : Bytes) (small : size + st.boot.clusterSize ≤ 4294967296)
    (room : size ≤ ((visibleFree st).card + 1) * st.boot.clusterSize) : ∃ enough, ∀ fuel, enough ≤ fuel → ∃ st',
    fatWriteData fuel name.text buf size st = some st' ∧ Keeps foreign st' (store.save name ((List.range size).map buf)) := by
  obtain ⟨inside, shows', file⟩ := holds.entry name data stored
  have here : store name ≠ none := by simp [stored]
  have apart := holds.apartDir name here
  have positive : 0 < st.boot.clusterSize := Nat.mul_pos holds.wf.spc_pos (by decide)
  obtain ⟨enough, runs⟩ := fatWriteData_visible holds.wf holds.lagging holds.directory (holds.found stored) file.chain buf small
    file.short room
  refine ⟨enough, fun fuel more => ?_⟩
  obtain ⟨st', files, saved, lagging, kept, written⟩ := runs fuel more
  have stays := reload_saved holds.wf holds.directory (holds.found stored) apart written.toRewrites
  have change : layout.Exchanges foreign st st' store layout.dirs (layout.place name) (some name)
      (some ⟨name, files, (List.range size).map buf⟩) := by
    generalize place : layout.place name = entry at *
    have sized := @EntryChanged.write st.boot st.disk _ _ holds.wf holds.directory entry inside
      ((entry.buf st.boot st.disk).setSize entry.slot size) (fun position outside => Sector.setSize_other _ (by omega))
    have changed : EntryChanged st.boot st.disk st'.disk st.cwdCluster layout.dirs layout.dirs entry (layout.chain name) :=
      sized.followed holds.directory apart fun cluster data outside taken =>
        ⟨written.entries cluster data.2 outside taken, written.frame cluster data outside taken⟩
    have buf' : entry.buf st.boot st'.disk = (entry.buf st.boot st.disk).setSize entry.slot size := stays
    have bytes : ∀ index < 8, (entry.buf st.boot st'.disk).nameByte entry.slot index =
        (entry.buf st.boot st.disk).nameByte entry.slot index := by
      intro index below
      rw [buf']
      exact Sector.nameByte_setSize _ inside.2.2 below
    have shown : entry.Shows st.boot st'.disk name := by
      refine ⟨(Place.used_congr bytes).mpr shows'.used, ?_⟩
      rw [← shows'.shown, Sector.shownName, Sector.shownName, shownField, shownField]
      congr 1
      exact List.map_congr_left fun index member => bytes index (List.mem_range.mp member)
    have contents : FileAt st.boot st'.disk entry files ((List.range size).map buf) := by
      refine ⟨?_, ?_, ?_, by simpa using written.fits, fun index inside => ?_⟩
      · rw [Place.target, buf', Sector.slotCluster_setSize _ inside.2.2]
        exact written.chain
      · rw [buf', Sector.slotSize_setSize _ inside.2.2 (by omega), List.length_map, List.length_range]
      · rw [List.length_map, List.length_range]
        simpa using written.long
      · have below : index < size := by simpa using inside
        simpa using written.contents index (by omega)
    have free : ∀ cluster ∈ files, cluster ∈ layout.chain name ∨ fatEntry st.boot st.disk cluster = 0 := by
      intro cluster member
      rw [← fatEntry_sizedDisk holds.wf holds.directory (place ▸ holds.found stored) size (written.chain.data cluster member).2]
      exact written.within cluster member
    refine ⟨changed, holds.endedAfter changed shows'.used.first shown.used.first, fun _ index below => ?_, ?_,
      fun other stored => ?_, fun other _ otherShown => ⟨_, rfl, shown.unique otherShown⟩, ?_, ?_, ?_, ?_⟩
    · rw [bytes index below]
      exact holds.clear entry inside shows'.used index below
    · rintro _ ⟨⟩
      exact here
    · rw [← place]
      exact holds.place_eq_iff here stored
    all_goals rintro _ ⟨⟩
    · exact inside
    · exact ⟨shown, contents⟩
    · exact ⟨holds.known here, .inl rfl⟩
    · refine ⟨fun cluster inDir inFile => ?_, free⟩
      rcases free cluster inFile with old | zero
      · exact apart inDir old
      · exact holds.directory.entry_ne_zero inDir zero
  have next : store.save name ((List.range size).map buf) =
      store.exchange (some name) (some ⟨name, files, (List.range size).map buf⟩) := by
    rw [FileStore.save, if_neg here]
    exact (Function.update_idem _ _ _).symm
  rw [next]
  exact ⟨st', saved, _, holds.exchange change kept lagging⟩

theorem save (stored : store name ≠ none) (buf : Bytes) (small : size + st.boot.clusterSize ≤ 4294967296)
    (room : size ≤ ((visibleFree st).card + 1) * st.boot.clusterSize) : ∃ enough, ∀ fuel, enough ≤ fuel → ∃ st',
    (FileCall.save name buf size).run fuel st = some (.done, st') ∧
      Keeps foreign st' (store.save name ((List.range size).map buf)) := by
  obtain ⟨data, stored⟩ := Option.ne_none_iff_exists'.mp stored
  obtain ⟨enough, runs⟩ := holds.saveStored stored buf small room
  refine ⟨enough, fun fuel more => ?_⟩
  obtain ⟨st', saved, keeps⟩ := runs fuel more
  exact ⟨st', by rw [FileCall.run, saved, Option.map_some], keeps⟩

end FileLayout.Holds

end LivlyOS.Fs
