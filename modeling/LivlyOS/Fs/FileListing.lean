import LivlyOS.Fs.FileRuns
import LivlyOS.Fs.Listing

namespace LivlyOS.Fs

open LivlyOS.Lib

variable {boot : FAT32BootSector} {disk : Disk}

def Place.slotOf (boot : FAT32BootSector) (disk : Disk) (place : Place) : DirSlot := (place.buf boot disk, place.slot)

theorem sectorsSlots_places (cluster count s : Nat) :
    sectorsSlots disk (boot.clusterSector cluster) count s =
      ((List.range' s count).flatMap fun t => (List.range 16).map (Place.mk cluster t)).map (Place.slotOf boot disk) := by
  induction count generalizing s with
  | zero => rfl
  | succ count ih =>
    rw [sectorsSlots, ih, List.range'_succ, List.flatMap_cons, List.map_append, List.map_map]
    rfl

theorem dirSlots_places (dirs : List Nat) : dirSlots boot disk dirs = (slotPlaces boot dirs).map (Place.slotOf boot disk) := by
  induction dirs with
  | nil => rfl
  | cons cluster rest ih =>
    rw [dirSlots, List.flatMap_cons, ← dirSlots, ih, places_cons, List.map_append, sectorsSlots_places, ← List.range_eq_range']

theorem slotOf_used {place : Place} : (place.slotOf boot disk).used = true ↔ place.first boot disk ≠ 0 := by
  rw [DirSlot.used, decide_eq_true_eq]
  rfl

/-- In front of the end mark stand the slots that are none. -/
theorem Ended.takeWhile (ended : Ended boot disk dirs) :
    (dirSlots boot disk dirs).takeWhile DirSlot.used = (dirSlots boot disk dirs).filter DirSlot.used := by
  rw [dirSlots_places]
  rw [Ended] at ended
  generalize slotPlaces boot dirs = places at ended ⊢
  induction places with
  | nil => rfl
  | cons place rest ih =>
    obtain ⟨behind, ended⟩ := List.pairwise_cons.mp ended
    rw [List.map_cons, List.takeWhile_cons, List.filter_cons]
    split
    · rw [ih ended]
    · rename_i unused
      have zero : place.first boot disk = 0 := not_not.mp fun live => unused (slotOf_used.mpr live)
      symm
      rw [List.filter_eq_nil_iff]
      intro entry member
      obtain ⟨later, inside, rfl⟩ := List.mem_map.mp member
      exact fun live => slotOf_used.mp live (behind later inside zero)

/-- The entry shows the name. -/
def DirSlot.names (name : FileName) (entry : DirSlot) : Bool := entry.1.shownName entry.2 = name.text

/-- An entry in use that shows a name is listed, unless the name begins with a dot. -/
theorem Place.Shows.listed {place : Place} {name : FileName} (shows' : place.Shows boot disk name)
    (clear : place.Used boot disk → place.Clear boot disk) (noDot : name.text.at 0 ≠ 0x2E) :
    (place.slotOf boot disk).used = true ∧ (place.slotOf boot disk).shown = true := by
  have hits : (place.slotOf boot disk).1.slotMatches name.text (place.slotOf boot disk).2 = true :=
    (Place.hasName_iff clear).mpr shows'
  obtain ⟨first, shown⟩ := shown_of_matches name.visible name.nonempty noDot hits
  exact ⟨slotOf_used.mpr first, shown⟩

section Lines

variable {layout : FileLayout} {foreign : Set FileName} {st : FatState} {store : FileStore} {name : FileName}
  (holds : layout.Holds foreign st store)
include holds

/-- The printed entries with a name are the slots of the places that show it. -/
theorem FileLayout.Holds.lines (noDot : name.text.at 0 ≠ 0x2E) :
    (listed (dirSlots st.boot st.disk layout.dirs)).filter (DirSlot.names name) =
      ((slotPlaces st.boot layout.dirs).filter (Place.hasName st.boot st.disk name.text)).map (Place.slotOf st.boot st.disk) := by
  rw [listed, holds.ended.takeWhile, dirSlots_places, List.filter_filter, List.filter_filter, List.filter_map]
  refine congrArg _ (List.filter_congr fun place member => ?_)
  have inside := mem_places.mp member
  have named : place.hasName st.boot st.disk name.text = true ↔ place.Shows st.boot st.disk name :=
    Place.hasName_iff (holds.clear place inside)
  rw [Bool.eq_iff_iff, named]
  simp only [Function.comp_apply, Bool.and_eq_true]
  constructor
  · rintro ⟨⟨shown, visible⟩, used⟩
    refine ⟨?_, of_decide_eq_true shown⟩
    have live : (place.buf st.boot st.disk).nameByte place.slot 0 ≠ 0 := slotOf_used.mp used
    have kept : (place.buf st.boot st.disk).nameByte place.slot 0 ≠ 0xE5 := fun deleted => of_decide_eq_true visible (.inl deleted)
    simp [Place.Used, Sector.slotFree, live, kept]
  · intro shows'
    obtain ⟨used, visible⟩ := shows'.listed (holds.clear place inside) noDot
    exact ⟨⟨decide_eq_true shows'.shown, visible⟩, used⟩

/-- A file has one line, with its size, and a name that is not there has none. -/
theorem FileLayout.Holds.listed (known : name ∉ foreign) (noDot : name.text.at 0 ≠ 0x2E) :
    match store name with
    | none => (Fs.listed (dirSlots st.boot st.disk layout.dirs)).filter (DirSlot.names name) = []
    | some data => ∃ entry, (Fs.listed (dirSlots st.boot st.disk layout.dirs)).filter (DirSlot.names name) = [entry] ∧
        entry.1.slotSize entry.2 = data.length := by
  rw [holds.lines noDot]
  have named : ∀ place ∈ slotPlaces st.boot layout.dirs,
      place.hasName st.boot st.disk name.text = true → store name ≠ none ∧ place = layout.place name := by
    intro place member hits
    have inside := mem_places.mp member
    exact holds.only place inside name known ((Place.hasName_iff (holds.clear place inside)).mp hits)
  cases stored : store name with
  | none =>
    rw [List.map_eq_nil_iff, List.filter_eq_nil_iff]
    exact fun place member hits => (named place member hits).1 stored
  | some data =>
    obtain ⟨inside, shows', file⟩ := holds.entry name data stored
    refine ⟨(layout.place name).slotOf st.boot st.disk, ?_, file.size⟩
    have only : (slotPlaces st.boot layout.dirs).filter (Place.hasName st.boot st.disk name.text) =
        (slotPlaces st.boot layout.dirs).filter (· == layout.place name) := by
      refine List.filter_congr fun place member => ?_
      rw [Bool.eq_iff_iff, beq_iff_eq]
      refine ⟨fun hits => (named place member hits).2, ?_⟩
      rintro rfl
      exact (Place.hasName_iff (holds.clear _ inside)).mpr shows'
    rw [only, List.filter_beq, List.count_eq_one_of_mem (slotPlaces_nodup holds.directory.chain.nodup) (mem_places.mpr inside)]
    rfl

end Lines

end LivlyOS.Fs
