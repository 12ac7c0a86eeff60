import LivlyOS.Fs.CreatedFiles
import LivlyOS.Fs.FileCalls

namespace LivlyOS.Fs

open LivlyOS.Lib

variable {boot : FAT32BootSector} {disk disk' : Disk}

theorem firstPlace_places (wanted : Sector → Nat → Bool) (dirs : List Nat) :
    firstPlace boot disk wanted dirs =
      ((slotPlaces boot dirs).find? fun place => wanted (place.buf boot disk) place.slot).map
        fun place => (place.cluster, place.hit boot disk) := by
  induction dirs with
  | nil => rfl
  | cons cluster rest ih =>
    rw [firstPlace, List.findSome?_cons, ← firstPlace, ih, places_cons, List.find?_append, findInSectors_places,
      ← List.range_eq_range']
    cases here : List.find? (fun place => wanted (place.buf boot disk) place.slot)
      (List.flatMap (fun s => (List.range 16).map (Place.mk cluster s)) (List.range boot.spc)) with
    | none => rfl
    | some place =>
      obtain ⟨s, _, inSector⟩ := List.mem_flatMap.mp (List.mem_of_find?_eq_some here)
      obtain ⟨slot, _, rfl⟩ := List.mem_map.mp inSector
      rfl

theorem slotPlaces_nodup (nodup : dirs.Nodup) : (slotPlaces boot dirs).Nodup := by
  refine List.nodup_flatMap.mpr ⟨fun cluster _ => List.nodup_flatMap.mpr ⟨fun s _ => ?_, ?_⟩, ?_⟩
  · exact List.nodup_range.map fun _ _ same => (Place.mk.inj same).2.2
  · refine List.nodup_range.imp fun {s t} different place left right => ?_
    obtain ⟨_, _, rfl⟩ := List.mem_map.mp left
    obtain ⟨_, _, same⟩ := List.mem_map.mp right
    exact different (Place.mk.inj same).2.1.symm
  · refine nodup.imp fun {cluster other} different place left right => ?_
    obtain ⟨_, _, left⟩ := List.mem_flatMap.mp left
    obtain ⟨_, _, right⟩ := List.mem_flatMap.mp right
    obtain ⟨_, _, rfl⟩ := List.mem_map.mp left
    obtain ⟨_, _, same⟩ := List.mem_map.mp right
    exact different (Place.mk.inj same).1.symm

theorem slotPlaces_single (more : Nat) (positive : 1 ≤ boot.spc) :
    ∃ rest, slotPlaces boot [more] = ⟨more, 0, 0⟩ :: rest := by
  obtain ⟨count, spc⟩ : ∃ count, boot.spc = count + 1 := ⟨boot.spc - 1, by omega⟩
  simp [slotPlaces, spc, List.range_succ_eq_map]

/-- The new entry stands in the first free slot, or in the first one of a new cluster behind a
full directory. -/
inductive FirstFree (boot : FAT32BootSector) (disk : Disk) (dirs : List Nat) : List Nat → Place → Prop where
  | slot (split : slotPlaces boot dirs = before ++ place :: after) (full : ∀ earlier ∈ before, earlier.Used boot disk) :
      FirstFree boot disk dirs dirs place
  | grown (full : ∀ place : Place, place.In boot dirs → place.Used boot disk) :
      FirstFree boot disk dirs (dirs ++ [more]) ⟨more, 0, 0⟩

/-- Such a place keeps the end mark behind all entries. -/
theorem FirstFree.ended (first : FirstFree boot disk dirs dirs' place) (wf : boot.WellFormed) (nodup : dirs.Nodup)
    (distinct : dirs'.Nodup) (ended : Ended boot disk dirs) (here : place.first boot disk' ≠ 0)
    (same : ∀ other : Place, other.In boot dirs → other ≠ place → other.first boot disk' = other.first boot disk)
    (zeroed : ∀ other : Place, other.In boot dirs' → other ≠ place → other.cluster ∉ dirs → other.first boot disk' = 0)
    (unused : ∀ other : Place, other.In boot dirs → other.Used boot disk → other ≠ place) : Ended boot disk' dirs' := by
  have stays : ∀ other : Place, other.In boot dirs → other.Used boot disk → other.first boot disk' ≠ 0 := by
    intro other inside used
    rw [same other inside (unused other inside used)]
    exact used.first
  cases first with
  | @slot before _ after split full =>
    have nodup : (slotPlaces boot dirs).Nodup := slotPlaces_nodup nodup
    rw [split] at nodup
    have member : ∀ other ∈ before ++ place :: after, other.In boot dirs := fun other inList =>
      mem_places.mp (split ▸ inList)
    have live : ∀ other ∈ before, other.first boot disk' ≠ 0 := fun other inBefore =>
      stays other (member other (List.mem_append_left _ inBefore)) (full other inBefore)
    have behind : ∀ other ∈ after, other.first boot disk' = other.first boot disk := by
      intro other inAfter
      have different : other ≠ place := by
        rintro rfl
        exact (List.nodup_cons.mp (List.nodup_append.mp nodup).2.1).1 inAfter
      exact same other (member other (by simp [inAfter])) different
    rw [Ended, split, List.pairwise_append, List.pairwise_cons] at ended ⊢
    refine ⟨ended.1.imp_of_mem fun inBefore _ _ zero => absurd zero (live _ inBefore), ⟨fun _ _ zero => absurd zero here,
      ended.2.1.2.imp_of_mem fun left right kept => ?_⟩, fun _ inBefore _ _ zero => absurd zero (live _ inBefore)⟩
    rw [behind _ left, behind _ right]
    exact kept
  | @grown more full =>
    obtain ⟨rest, fresh⟩ := slotPlaces_single more wf.spc_pos
    have nodup : (slotPlaces boot [more]).Nodup := slotPlaces_nodup (List.nodup_singleton more)
    have live : ∀ other ∈ slotPlaces boot dirs, other.first boot disk' ≠ 0 := fun other member =>
      stays other (mem_places.mp member) (full other (mem_places.mp member))
    have outside : more ∉ dirs := fun inDirs => (List.nodup_append.mp distinct).2.2 more inDirs more (by simp) rfl
    rw [fresh] at nodup
    have zero : ∀ other ∈ rest, other.first boot disk' = 0 := by
      intro other member
      have new : other.In boot [more] := mem_places.mp (fresh ▸ List.mem_cons_of_mem _ member)
      have different : other ≠ ⟨more, 0, 0⟩ := by
        rintro rfl
        exact (List.nodup_cons.mp nodup).1 member
      exact zeroed other ⟨List.mem_append_right _ new.1, new.2⟩ different (List.mem_singleton.mp new.1 ▸ outside)
    rw [Ended, slotPlaces, List.flatMap_append, ← slotPlaces, ← slotPlaces, fresh, List.pairwise_append, List.pairwise_cons]
    exact ⟨List.pairwise_of_forall_mem_list fun _ left _ _ zero => absurd zero (live _ left), ⟨fun _ _ zero => absurd zero here,
      List.pairwise_of_forall_mem_list fun _ _ other member _ => zero other member⟩,
      fun _ left _ _ zero => absurd zero (live _ left)⟩

/-- `fat_write_file` has stored its entry, with a cluster of its own. -/
structure EntryMade (st st' : FatState) (dirs dirs' : List Nat) (name ext : CString) (n : Nat) (place : Place) : Prop where
  some : n ≠ 0
  kept : Kept st st'
  lagging : Lagging st'
  entry : EntryStored st.boot st.disk st'.disk st.cwdCluster dirs dirs' name ext 0x20 n place.cluster place.s place.slot
  first : FirstFree st.boot st.disk dirs dirs' place

section Placing

variable {st : FatState} {dirs : List Nat} (wf : st.boot.WellFormed) (lagging : Lagging st)
  (directory : FatChain st.boot st.disk st.cwdCluster dirs)
include wf lagging directory

theorem fillFile_made (room : (visibleFree st).Nonempty)
    (found : firstPlace st.boot st.disk Sector.slotFree dirs = some (cluster, hit)) (name ext : CString) :
    ∃ n st' place, fillFile name ext cluster hit st = (.created n, st') ∧ EntryMade st st' dirs dirs name ext n place := by
  rw [firstPlace_places] at found
  obtain ⟨place, first, same⟩ := Option.map_eq_some_iff.mp found
  obtain ⟨free, before, after, split, earlier⟩ := List.find?_eq_some_iff_append.mp first
  obtain ⟨member, inside, below⟩ := mem_places.mp (List.mem_of_find?_eq_some first)
  cases same
  obtain ⟨lagging', kept, entry⟩ := @placeSlot_stored st st.cwdCluster dirs place.cluster place.s name ext 0x20
    (place.hit st.boot st.disk) wf lagging directory member inside below rfl rfl free
  refine ⟨_, _, place, rfl, fatAllocCluster_visible wf lagging.clean room, kept, lagging', entry, .slot split ?_⟩
  intro other inBefore
  simpa [Place.Used] using earlier other inBefore

/-- Behind a full directory two clusters are needed. -/
theorem placeBehind_made (room : 2 ≤ (visibleFree st).card) (ends : dirs.getLast? = some final)
    (full : firstPlace st.boot st.disk Sector.slotFree dirs = none) (name ext : CString) (fullText : String) :
    ∃ n st' dirs' place, placeBehind (fillFile name ext) fullText final st = (.created n, st') ∧
      EntryMade st st' dirs dirs' name ext n place := by
  have some : (visibleFree st).Nonempty := Finset.card_pos.mp (by omega)
  have member := List.mem_of_getLast? ends
  obtain ⟨after, step, left⟩ := fatExtendChain_visible lagging wf (directory.data final member).2
    (directory.entry_ne_zero member) some
  have kept := fatExtendChain_kept final st
  unfold placeBehind
  dsimp only
  rw [if_neg (Nat.not_le.mpr (data_lt_endOfChain wf step.data))]
  generalize fatExtendChain final st = extended at after step left kept ⊢
  obtain ⟨more, mid⟩ := extended
  have boot : mid.boot = st.boot := kept.boot
  dsimp only at after step left kept ⊢
  have fewer := (Finset.pred_card_le_card_erase (s := visibleFree st) (a := more)).trans (Finset.card_le_card left)
  have free : (visibleFree mid).Nonempty := by
    rw [after.visibleFree (by rw [boot]; exact wf.layout), boot, ← Finset.card_pos]
    omega
  obtain ⟨before, whole⟩ := List.getLast?_eq_some_iff.mp ends
  have grown := step.chain wf (whole ▸ directory)
  rw [← List.singleton_append, ← List.append_assoc, ← whole] at grown
  have entry := @placeSlot_stored mid st.cwdCluster (dirs ++ [more]) more 0 name ext 0x20
    ⟨st.boot.clusterLba more 0, Sector.zero, 0⟩
  rw [boot] at entry
  obtain ⟨lagging', kept', new⟩ := entry wf (after.lagging (by rw [boot]; exact wf.layout)) grown (by simp) wf.spc_pos
    (Nat.succ_pos _) rfl (step.zeroed 0 wf.spc_pos).symm (Sector.zero_slotFree 0)
  refine ⟨_, _, dirs ++ [more], ⟨more, 0, 0⟩, rfl, fatAllocCluster_visible (by rw [boot]; exact wf) after.clean free,
    kept.trans kept', lagging', new.extended step directory member, .grown fun place inside => ?_⟩
  have taken := firstPlace_full full place.cluster inside.1 place.s inside.2.1 place.slot inside.2.2
  exact taken

theorem fatWriteFile_made {name : CString} (room : 2 ≤ (visibleFree st).card)
    (new : (dirs.findSome? (fileDuplicateIn st.boot st.disk name)).isSome = false) (enough : dirs.length + 1 < fuel)
    (ext : CString) : ∃ n st' dirs' place, fatWriteFile fuel name ext st = some (.created n, st') ∧
      EntryMade st st' dirs dirs' name ext n place := by
  obtain ⟨mid, loaded, _, checked⟩ := fatWriteFile_checked wf lagging directory (by omega : dirs.length < fuel) name ext
  obtain ⟨final, ends⟩ : ∃ final, dirs.getLast? = some final := by
    obtain ⟨rest, rfl⟩ := directory.chain.cons
    exact ⟨_, List.getLast?_eq_getLast_of_ne_nil (List.cons_ne_nil _ _)⟩
  obtain ⟨last, loaded', _, placed⟩ := placeLoop_eq wf lagging (fillFile name ext) "Kein Platz im Root-Directory\n" directory
    loaded ends enough
  have more := Finset.card_le_card loaded'.visibleFree
  have lagging' := lagging.loaded loaded'
  rw [checked, new, if_neg Bool.false_ne_true, loaded.kept.cwdCluster, placed]
  obtain ⟨_, _, _, _, nr, cached, dirty, console⟩ := last
  obtain ⟨⟨rfl, rfl, rfl⟩, rfl, -, -⟩ := loaded'
  have moved : ∀ {n st' dirs' place}, EntryMade ⟨st.disk, st.boot, st.cwdCluster, st.cwdPath, nr, cached, dirty, console⟩ st' dirs
      dirs' name ext n place → EntryMade st st' dirs dirs' name ext n place :=
    fun made => ⟨made.some, ⟨made.kept.boot, made.kept.cwdCluster, made.kept.cwdPath⟩, made.lagging, made.entry, made.first⟩
  cases found : firstPlace st.boot st.disk Sector.slotFree dirs with
  | some place =>
    obtain ⟨n, st', place', filled, made⟩ := fillFile_made (by exact wf) lagging' (by exact directory)
      (Finset.card_pos.mp (by omega)) (by exact found) name ext
    exact ⟨n, st', dirs, place', congrArg some filled, moved made⟩
  | none =>
    obtain ⟨n, st', dirs', place, filled, made⟩ := placeBehind_made (by exact wf) lagging' (by exact directory)
      (room.trans more) ends (by exact found) name ext "Kein Platz im Root-Directory\n"
    exact ⟨n, st', dirs', place, congrArg some filled, moved made⟩

end Placing

section Made

variable {st st' : FatState} {dirs dirs' : List Nat} {name : FileName} {ext : CString} {place : Place}
  (made : EntryMade st st' dirs dirs' name.text ext n place)
include made

theorem EntryMade.inside : place.In st.boot dirs' := ⟨made.entry.member, made.entry.inside, made.entry.below⟩

theorem EntryMade.shows' : place.Shows st.boot st'.disk name ∧ place.Clear st.boot st'.disk := by
  refine Place.shows_padded fun index below => ?_
  rw [Place.buf, made.entry.sector, createdSlot_nameByte _ _ _ _ _ made.entry.below below]

/-- The other entries are as they were, and the rest of a new cluster is zero. -/
theorem EntryMade.others {other : Place} (inside : other.In st.boot dirs') (different : other ≠ place) :
    (other.In st.boot dirs ∧ other.Same st.boot st.disk st'.disk) ∨
      (other.cluster ∉ dirs ∧ other.first st.boot st'.disk = 0) := by
  have elsewhere : ¬(other.cluster = place.cluster ∧ other.s = place.s ∧ other.slot = place.slot) := by
    intro here
    apply different
    cases other
    cases place
    simp_all
  have same := made.entry.sameSlot inside.1 inside.2.1 elsewhere
  rw [sectorBefore] at same
  split at same
  · exact .inl ⟨⟨‹_›, inside.2⟩, same⟩
  · refine .inr ⟨‹_›, ?_⟩
    rw [Place.first, Place.buf, same.nameByte (by decide), Sector.nameByte, Sector.bytes_zero]

theorem EntryMade.unused (used : ¬place.Used st.boot st.disk ∨ place.cluster ∉ dirs) :
    ∀ other : Place, other.In st.boot dirs → other.Used st.boot st.disk → other ≠ place := by
  rintro other inside taken rfl
  rcases used with free | outside
  · exact free taken
  · exact outside inside.1

theorem EntryMade.free : ¬place.Used st.boot st.disk ∨ place.cluster ∉ dirs := by
  have free := made.entry.free
  rw [sectorBefore] at free
  split at free
  · left
    rw [Place.Used, Place.buf, free]
    decide
  · exact .inr ‹_›

theorem EntryMade.changed : EntryChanged st.boot st.disk st'.disk st.cwdCluster dirs dirs' place [] := by
  refine ⟨made.entry.chain, made.entry.within, ?_, ?_, ?_, fun cluster data outside _ taken => ?_⟩
  · rcases made.entry.grows with rfl | ⟨more, _, rfl⟩
    · exact fun _ member => member
    · exact fun _ member => List.mem_append_left _ member
  · intro other inside different
    have inside' : other.In st.boot dirs' := by
      rcases made.entry.grows with rfl | ⟨more, _, rfl⟩
      · exact inside
      · exact ⟨List.mem_append_left _ inside.1, inside.2⟩
    rcases made.others inside' different with ⟨_, same⟩ | ⟨outside, _⟩
    · exact same
    · exact absurd inside.1 outside
  · intro other inside used different
    rcases made.others inside different with ⟨inside', _⟩ | ⟨_, zero⟩
    · exact inside'
    · exact absurd zero used.first
  · exact made.entry.untouched cluster data outside taken

/-- The first free slot is not behind the end mark. -/
theorem EntryMade.ended (wf : st.boot.WellFormed) (directory : FatChain st.boot st.disk st.cwdCluster dirs)
    (ended : Ended st.boot st.disk dirs) : Ended st.boot st'.disk dirs' := by
  have changed := made.changed
  refine made.first.ended wf directory.chain.nodup made.entry.chain.chain.nodup ended made.shows'.1.used.first
    (fun other inside different => Sector.SameSlot.nameByte (changed.same other inside different) (by decide))
    (fun other inside different outside => ?_) (made.unused made.free)
  rcases made.others inside different with ⟨old, _⟩ | ⟨_, zero⟩
  · exact absurd old.1 outside
  · exact zero

end Made

/-- The check of one sector finds an entry that no end mark hides. -/
theorem duplicateInSlots_found {buf : Sector} (member : slot ∈ slots) (used : buf.slotFree slot = false)
    (hits : buf.slotMatches name slot = true)
    (ended : slots.Pairwise fun earlier later => buf.nameByte earlier 0 = 0 → buf.nameByte later 0 = 0) :
    duplicateInSlots name buf slots = .duplicate := by
  have first : buf.nameByte slot 0 ≠ 0 ∧ buf.nameByte slot 0 ≠ 0xE5 := by
    simpa [Sector.slotFree] using used
  induction slots with
  | nil => exact absurd member List.not_mem_nil
  | cons head rest ih =>
    obtain ⟨behind, ended⟩ := List.pairwise_cons.mp ended
    unfold duplicateInSlots
    rcases List.mem_cons.mp member with rfl | later
    · rw [if_neg first.1, if_neg first.2, if_pos hits]
    · have live : buf.nameByte head 0 ≠ 0 := fun zero => first.1 (behind slot later zero)
      have rest := ih later ended
      rw [if_neg live, rest]
      split
      · rfl
      · split <;> rfl

/-- With one sector a cluster the check of `fat_write_file` finds every name. -/
theorem fileDuplicate_found {place : Place} {name : FileName} (ended : Ended boot disk dirs) (inside : place.In boot dirs)
    (first : place.s = 0) (shows' : place.Shows boot disk name) (clear : place.Clear boot disk) :
    (dirs.findSome? (fileDuplicateIn boot disk name.text)).isSome = true := by
  obtain ⟨member, sector, below⟩ := inside
  rw [first] at sector
  rw [Ended, slotPlaces, List.pairwise_flatMap] at ended
  have sectors := List.pairwise_flatMap.mp (ended.1 place.cluster member)
  have slots := List.pairwise_map.mp (sectors.1 0 (List.mem_range.mpr sector))
  have hits := (Place.hasName_iff fun _ => clear).mpr shows'
  have used := shows'.used
  rw [Place.hasName, Place.buf, first] at hits
  rw [Place.Used, Place.buf, first] at used
  have found : duplicateInSector name.text (clusterData boot disk place.cluster 0) = .duplicate :=
    duplicateInSlots_found (List.mem_range.mpr below) used hits slots
  rw [List.findSome?_isSome_iff]
  exact ⟨place.cluster, member, by rw [fileDuplicateIn, if_pos found]; rfl⟩

namespace FileLayout.Holds

variable {layout : FileLayout} {foreign : Set FileName} {st : FatState} {store : FileStore} {name : FileName}
  (holds : layout.Holds foreign st store)
include holds

/-- The check finds nothing for a file that is not there. -/
theorem noDuplicate (known : name ∉ foreign) (none : store name = none) :
    (layout.dirs.findSome? (fileDuplicateIn st.boot st.disk name.text)).isSome = false := by
  rw [← Bool.not_eq_true, List.findSome?_isSome_iff]
  rintro ⟨cluster, member, found⟩
  rw [fileDuplicateIn] at found
  split at found
  · rename_i duplicate
    obtain ⟨slot, below, used, hits⟩ := duplicateInSector_match duplicate
    have inside : Place.In st.boot layout.dirs ⟨cluster, 0, slot⟩ := ⟨member, holds.wf.spc_pos, below⟩
    exact (holds.only _ inside name known ((Place.hasName_iff (holds.clear _ inside)).mp hits)).1 none
  · cases found

theorem createMade {place : Place} {dirs' : List Nat} {n : Nat} {ext : CString} (known : name ∉ foreign) (none : store name = none)
    (made : EntryMade st st' layout.dirs dirs' name.text ext n place) : Keeps foreign st' (store.create name) := by
  obtain ⟨data, fresh, last, apart⟩ := made.entry.taken made.some
  have wf := holds.wf
  have unused := made.unused made.free
  obtain ⟨shown, clear⟩ := made.shows'
  have file : FileAt st.boot st'.disk place [n] [] := by
    have target : place.target st.boot st'.disk = n := made.entry.target wf
    have bound : st.boot.spc < 256 := UInt8.toNat_lt _
    refine ⟨?_, ?_, Nat.zero_le _, ?_, fun index inside => absurd inside (Nat.not_lt_zero _)⟩
    · rw [target]
      exact .single data last
    · rw [Place.buf, made.entry.sector, createdSlot_size _ _ _ _ _ made.entry.below]
      rfl
    · rw [List.length_singleton, clusterSize_eq]
      omega
  have change : layout.Exchanges foreign st st' store dirs' place .none (some ⟨name, [n], []⟩) := by
    refine ⟨made.changed, made.ended wf holds.directory holds.ended, fun _ => clear, fun _ member => absurd member (Option.not_mem_none _),
      fun other stored => ⟨fun same => ?_, fun same => by cases same⟩, fun other _ otherShown => ⟨_, rfl, shown.unique otherShown⟩,
      ?_, ?_, ?_, ?_⟩
    · obtain ⟨data, stored⟩ := Option.ne_none_iff_exists'.mp stored
      obtain ⟨inside, shows', _⟩ := holds.entry other data stored
      exact absurd same (unused _ inside shows'.used)
    all_goals rintro _ ⟨⟩
    · exact made.inside
    · exact ⟨shown, file⟩
    · exact ⟨known, .inr none⟩
    · refine ⟨fun cluster inDirs inFile => apart (List.mem_singleton.mp inFile ▸ inDirs), fun cluster member => .inr ?_⟩
      rw [List.mem_singleton.mp member]
      exact fresh
  have next : store.create name = store.exchange .none (some ⟨name, [n], []⟩) := by
    rw [FileStore.create, if_pos none]
    rfl
  rw [next]
  exact ⟨_, holds.exchange change made.kept made.lagging⟩

theorem create (known : name ∉ foreign) (ext : CString) (room : store name = none → 2 ≤ (visibleFree st).card)
    (single : store name ≠ none → st.boot.spc = 1) : ∃ enough, ∀ fuel, enough ≤ fuel → ∃ st',
    (FileCall.create name ext).run fuel st = some (FileStore.spec.answer store (.create name ext), st') ∧
      Keeps foreign st' (store.create name) := by
  refine ⟨layout.dirs.length + 2, fun fuel enough => ?_⟩
  by_cases none : store name = none
  · obtain ⟨n, st', dirs', place, created, made⟩ := fatWriteFile_made holds.wf holds.lagging holds.directory (room none)
      (holds.noDuplicate known none) enough ext
    refine ⟨st', ?_, holds.createMade known none made⟩
    simp [FileCall.run, created, FileStore.spec, none]
  · obtain ⟨data, stored⟩ := Option.ne_none_iff_exists'.mp none
    obtain ⟨inside, shows', _⟩ := holds.entry name data stored
    have first : (layout.place name).s = 0 := by
      have sector := inside.2.1
      rw [single none] at sector
      omega
    have found := fileDuplicate_found holds.ended inside first shows' (holds.clear _ inside shows'.used)
    obtain ⟨mid, loaded, _, checked⟩ := fatWriteFile_checked holds.wf holds.lagging holds.directory
      (by omega : layout.dirs.length < fuel) name.text ext
    rw [if_pos found] at checked
    have same : store.create name = store := by rw [FileStore.create, if_neg none]
    rw [same]
    refine ⟨_, ?_, layout, (holds.loaded loaded).printed "Datei existiert bereits\n"⟩
    simp [FileCall.run, checked, FileStore.spec, none]

end FileLayout.Holds

end LivlyOS.Fs
