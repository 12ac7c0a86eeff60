import LivlyOS.Fs.Effects
import LivlyOS.Fs.UniqueNames

namespace LivlyOS.Fs

open LivlyOS.Lib

/-- The slots of the clusters of a directory, in the order of the search. -/
def slotPlaces (boot : FAT32BootSector) (dirs : List Nat) : List Place :=
  dirs.flatMap fun cluster => (List.range boot.spc).flatMap fun s => (List.range 16).map (Place.mk cluster s)

namespace Place

variable (boot : FAT32BootSector) (disk : Disk)

def hit (place : Place) : Hit := ⟨boot.clusterLba place.cluster place.s, place.buf boot disk, place.slot⟩

def first (place : Place) : UInt8 := (place.buf boot disk).nameByte place.slot 0

def hasName (name : CString) (place : Place) : Bool := (place.buf boot disk).slotMatches name place.slot

/-- A 0x00 slot whose name is zeros, up to a space or to its end. -/
def Blank (place : Place) : Prop :=
  ∃ zeros ≤ 8, 0 < zeros ∧ (∀ index < zeros, (place.buf boot disk).nameByte place.slot index = 0) ∧
    (zeros = 8 ∨ (place.buf boot disk).nameByte place.slot zeros = 0x20)

end Place

variable {boot : FAT32BootSector} {disk : Disk}

theorem places_cons (cluster : Nat) (rest : List Nat) : slotPlaces boot (cluster :: rest) =
    ((List.range boot.spc).flatMap fun s => (List.range 16).map (Place.mk cluster s)) ++ slotPlaces boot rest := rfl

theorem mem_places {place : Place} : place ∈ slotPlaces boot dirs ↔ place.In boot dirs := by
  obtain ⟨cluster, s, slot⟩ := place
  simp only [slotPlaces, List.mem_flatMap, List.mem_map, List.mem_range, Place.In, Place.mk.injEq]
  constructor
  · rintro ⟨_, member, _, inside, _, below, rfl, rfl, rfl⟩
    exact ⟨member, inside, below⟩
  · rintro ⟨member, inside, below⟩
    exact ⟨cluster, member, s, inside, slot, below, rfl, rfl, rfl⟩

theorem findInSectors_places (wanted : Sector → Nat → Bool) (cluster count s : Nat) :
    findInSectors wanted disk (boot.clusterSector cluster) count s =
      (((List.range' s count).flatMap fun t => (List.range 16).map (Place.mk cluster t)).find?
        fun place => wanted (place.buf boot disk) place.slot).map (Place.hit boot disk) := by
  induction count generalizing s with
  | zero => rfl
  | succ count ih =>
    have sector : findInSector wanted (ataReadSector disk (u32 (boot.clusterSector cluster + s))) =
        (List.range 16).find? (wanted (clusterData boot disk cluster s)) := rfl
    have slots : (List.range 16).find? ((fun place => wanted (place.buf boot disk) place.slot) ∘ Place.mk cluster s) =
        (List.range 16).find? (wanted (clusterData boot disk cluster s)) := rfl
    rw [List.range'_succ, List.flatMap_cons, List.find?_append, List.find?_map, findInSectors, ih, sector, slots]
    cases (List.range 16).find? (wanted (clusterData boot disk cluster s)) with
    | none => rfl
    | some slot => rfl

theorem firstHit_places (wanted : Sector → Nat → Bool) (dirs : List Nat) :
    firstHit boot disk wanted dirs =
      ((slotPlaces boot dirs).find? fun place => wanted (place.buf boot disk) place.slot).map (Place.hit boot disk) := by
  induction dirs with
  | nil => rfl
  | cons cluster rest ih =>
    rw [firstHit, ih, places_cons, List.find?_append, findInSectors_places, ← List.range_eq_range']
    cases List.find? _ (List.flatMap (fun t => (List.range 16).map (Place.mk cluster t)) (List.range boot.spc)) <;> rfl

/-- The bytes of the name of a slot. -/
def NameBytes (boot : FAT32BootSector) (place : Place) (lba position : Nat) : Prop :=
  lba = ataLba (boot.clusterLba place.cluster place.s) ∧ 32 * place.slot ≤ position ∧ position < 32 * place.slot + 8

/-- The slot has the new name and nothing else has changed. -/
structure NameChanged (boot : FAT32BootSector) (disk disk' : Disk) (place : Place) (newName : CString) : Prop where
  field : place.nameField boot disk' = padField 8 newName
  changes : ChangesOnly (NameBytes boot place) disk disk'

/-- The first slot of the directory that the name matches. -/
def FirstMatch (boot : FAT32BootSector) (disk : Disk) (dirs : List Nat) (name : CString) (place : Place) : Prop :=
  ∃ before after, slotPlaces boot dirs = before ++ place :: after ∧ place.hasName boot disk name = true ∧
    ∀ earlier ∈ before, earlier.hasName boot disk name = false

theorem firstMatch_iff : FirstMatch boot disk dirs name place ↔
    (slotPlaces boot dirs).find? (Place.hasName boot disk name) = some place := by
  rw [List.find?_eq_some_iff_append]
  unfold FirstMatch
  constructor
  · rintro ⟨before, after, split, named, missed⟩
    exact ⟨named, before, after, split, fun earlier member => by rw [missed earlier member]; rfl⟩
  · rintro ⟨named, before, after, split, missed⟩
    exact ⟨before, after, split, named, fun earlier member => by simpa using missed earlier member⟩

namespace FirstMatch

theorem member (found : FirstMatch boot disk dirs name place) : place ∈ slotPlaces boot dirs := by
  obtain ⟨before, after, split, _, _⟩ := found
  rw [split]
  exact List.mem_append_right before List.mem_cons_self

theorem named (found : FirstMatch boot disk dirs name place) : place.hasName boot disk name = true := by
  obtain ⟨_, _, _, named, _⟩ := found
  exact named

theorem firstHit (found : FirstMatch boot disk dirs name place) :
    Fs.firstHit boot disk (Sector.slotMatches name) dirs = some (place.hit boot disk) := by
  rw [firstHit_places]
  exact congrArg (Option.map _) (firstMatch_iff.mp found)

end FirstMatch

/-- A call that finds no slot leaves the disk alone, the others change the first match. -/
theorem fatRenameFile_effect (wf : st.boot.WellFormed) (lagging : Lagging st)
    (directory : FatChain st.boot st.disk st.cwdCluster dirs) (enough : dirs.length ≤ fuel) (name newName : CString) :
    ∃ st', fatRenameFile fuel name newName st = some st' ∧
      (((∀ place, ¬FirstMatch st.boot st.disk dirs name place) ∧ st'.disk = st.disk) ∨
        ∃ place, FirstMatch st.boot st.disk dirs name place ∧ NameChanged st.boot st.disk st'.disk place newName) := by
  obtain ⟨mid, located, loaded⟩ := locate_eq lagging directory enough name
  rw [firstHit_places] at located
  rw [fatRenameFile, located]
  cases found : (slotPlaces st.boot dirs).find? (Place.hasName st.boot st.disk name) with
  | none =>
    have found' : ((slotPlaces st.boot dirs).find? fun place => (place.buf st.boot st.disk).slotMatches name place.slot) = none :=
      found
    rw [found']
    refine ⟨_, rfl, .inl ⟨fun place first => ?_, loaded.disk⟩⟩
    rw [firstMatch_iff, found] at first
    cases first
  | some place =>
    have found' : ((slotPlaces st.boot dirs).find? fun place => (place.buf st.boot st.disk).slotMatches name place.slot) =
      some place := found
    rw [found']
    obtain ⟨member, inside, below⟩ := mem_places.mp (List.mem_of_find?_eq_some found)
    have data := directory.data place.cluster member
    refine ⟨_, rfl, .inr ⟨place, firstMatch_iff.mpr found, ?_, ?_⟩⟩
    · apply Place.nameField_pad
      intro index field
      dsimp only
      rw [loaded.disk, Place.buf, Place.hit, clusterData_write wf _ _ data data inside inside, if_pos ⟨rfl, rfl⟩]
      exact Sector.setName_nameByte _ below newName field
    · dsimp only
      rw [loaded.disk]
      refine ChangesOnly.write _ fun position outside => ?_
      have other : position.val < 32 * place.slot ∨ 32 * place.slot + 8 ≤ position.val := by
        by_contra inName
        exact outside ⟨rfl, by omega⟩
      have stays := (place.buf st.boot st.disk).setName_other newName other
      rw [Sector.bytes_fin, Sector.bytes_fin] at stays
      exact stays

/-- The comparison of an empty name from one character on. -/
theorem strEqualFatFrom_nil (fatName : Bytes) (remaining index : Nat) :
    strEqualFatFrom fatName [] remaining index = true ↔ ∃ zeros ≤ remaining,
      (∀ position < zeros, fatName (index + position) = 0) ∧ (zeros = remaining ∨ fatName (index + zeros) = 0x20) := by
  induction remaining generalizing index with
  | zero => exact iff_of_true rfl ⟨0, Nat.le_refl 0, fun _ below => absurd below (Nat.not_lt_zero _), .inl rfl⟩
  | succ remaining ih =>
    have ended : CString.at [] index = 0 := rfl
    have next : ∀ position, index + 1 + position = index + (position + 1) := fun _ => Nat.succ_add_eq_add_succ ..
    rw [strEqualFatFrom, ended]
    by_cases space : fatName index = 0x20
    · rw [if_pos ⟨space, rfl⟩]
      exact iff_of_true rfl ⟨0, Nat.zero_le _, fun _ below => absurd below (Nat.not_lt_zero _), .inr space⟩
    · rw [if_neg fun both => space both.1]
      by_cases zero : fatName index = 0
      · rw [if_neg (not_not_intro zero), ih]
        constructor
        · rintro ⟨zeros, short, clear, stop⟩
          refine ⟨zeros + 1, Nat.succ_le_succ short, fun position below => ?_, ?_⟩
          · cases position with
            | zero => exact zero
            | succ position =>
              rw [← next]
              exact clear position (Nat.lt_of_succ_lt_succ below)
          · rw [← next, Nat.succ_inj]
            exact stop
        · rintro ⟨zeros, short, clear, stop⟩
          cases zeros with
          | zero => exact absurd (stop.resolve_left (Nat.succ_ne_zero _).symm) space
          | succ zeros =>
            refine ⟨zeros, Nat.le_of_succ_le_succ short, fun position below => ?_, ?_⟩
            · rw [next]
              exact clear (position + 1) (Nat.succ_lt_succ below)
            · rw [next, ← @Nat.succ_inj zeros]
              exact stop
      · rw [if_pos zero]
        refine iff_of_false Bool.false_ne_true ?_
        rintro ⟨zeros, -, clear, stop⟩
        cases zeros with
        | zero => exact space (stop.resolve_left (Nat.succ_ne_zero _).symm)
        | succ zeros => exact zero (clear 0 (Nat.succ_pos _))

/-- The empty name matches a slot in use that starts with a space, or a blank one. -/
theorem hasName_nil (place : Place) :
    place.hasName boot disk [] = true ↔ place.first boot disk = 0x20 ∨ place.Blank boot disk := by
  unfold Place.hasName Sector.slotMatches strEqualFat Place.Blank Place.first
  rw [strEqualFatFrom_nil]
  simp only [Nat.zero_add]
  constructor
  · rintro ⟨zeros, short, clear, stop⟩
    rcases Nat.eq_zero_or_pos zeros with rfl | positive
    · exact .inl (stop.resolve_left (by decide))
    · exact .inr ⟨zeros, short, positive, clear, stop⟩
  · rintro (space | ⟨zeros, short, _, clear, stop⟩)
    · exact ⟨0, Nat.zero_le 8, fun _ below => absurd below (Nat.not_lt_zero _), .inr space⟩
    · exact ⟨zeros, short, clear, stop⟩

theorem Place.Blank.first {place : Place} (blank : place.Blank boot disk) : place.first boot disk = 0 := by
  obtain ⟨_, _, positive, clear, _⟩ := blank
  exact clear 0 positive

/-- The slots behind the first 0x00 slot are zero. -/
def EndsInZeros (boot : FAT32BootSector) (disk : Disk) (dirs : List Nat) : Prop :=
  ∀ place ∈ ((slotPlaces boot dirs).dropWhile fun place => place.first boot disk ≠ 0).tail,
    ∀ index < 32, (place.buf boot disk).bytes (32 * place.slot + index) = 0

/-- No slot is blank, or some slot starts with a space. -/
def SparesFree (boot : FAT32BootSector) (disk : Disk) (dirs : List Nat) : Prop :=
  (∃ place ∈ slotPlaces boot dirs, place.first boot disk = 0x20) ∨ ∀ place ∈ slotPlaces boot dirs, ¬place.Blank boot disk

theorem subset_tail_dropWhile (keep : α → Bool) (before : List α) {stop : α} (after : List α) (stops : keep stop = false) :
    after ⊆ ((before ++ stop :: after).dropWhile keep).tail := by
  induction before with
  | nil =>
    rw [List.nil_append, List.dropWhile_cons_of_neg (by rw [stops]; decide)]
    exact List.Subset.refl after
  | cons head rest ih =>
    rw [List.cons_append]
    cases kept : keep head with
    | true =>
      rw [List.dropWhile_cons_of_pos kept]
      exact ih
    | false =>
      rw [List.dropWhile_cons_of_neg (by rw [kept]; decide), List.tail_cons]
      exact fun _ member => List.mem_append_right rest (List.mem_cons_of_mem stop member)

/-- The first match of the empty name is in use exactly when some slot starts with a space. -/
theorem FirstMatch.nil_iff (ended : EndsInZeros boot disk dirs) (found : FirstMatch boot disk dirs [] place) :
    place.first boot disk ≠ 0 ↔ ∃ other ∈ slotPlaces boot dirs, other.first boot disk = 0x20 := by
  constructor
  · intro used
    exact ⟨place, found.member, ((hasName_nil place).mp found.named).resolve_right fun blank => used blank.first⟩
  · rintro ⟨other, inside, space⟩ zero
    obtain ⟨before, after, split, _, missed⟩ := found
    rw [split, List.mem_append, List.mem_cons] at inside
    rcases inside with early | rfl | late
    · -- the search would have stopped there
      have hits := (hasName_nil other).mpr (.inl space)
      rw [missed other early] at hits
      cases hits
    · rw [zero] at space
      exact absurd space (by decide)
    · have behind := subset_tail_dropWhile (fun place : Place => place.first boot disk ≠ 0) before after
        (by simpa using zero)
      rw [← split] at behind
      have cleared : other.first boot disk = 0 := ended other (behind late) 0 (by decide)
      rw [cleared] at space
      exact absurd space (by decide)

/-- Nothing has changed, or the name of the first match, a slot in use. -/
def TouchesLiveName (boot : FAT32BootSector) (disk disk' : Disk) (dirs : List Nat) (name newName : CString) : Prop :=
  disk' = disk ∨ ∃ place, FirstMatch boot disk dirs name place ∧
    (place.first boot disk ≠ 0x00 ∧ place.first boot disk ≠ 0xE5) ∧ NameChanged boot disk disk' place newName

/-- A padded name does not start with a terminator. -/
theorem padField_first (clear : 0 ∉ newName) : (padField 8 newName).getD 0 0 ≠ 0 := by
  cases newName with
  | nil => decide
  | cons head rest =>
    have visible : head ≠ 0 := fun zero => clear (zero ▸ List.mem_cons_self)
    rw [padField_head 8 (by decide) head rest visible]
    exact visible

/-- A name of ASCII characters only matches slots in use. -/
theorem FirstMatch.used (found : FirstMatch boot disk dirs name place) (nonempty : name ≠ [])
    (ascii : ∀ byte ∈ name, 0x20 < byte ∧ byte < 0x80) :
    place.first boot disk ≠ 0x00 ∧ place.first boot disk ≠ 0xE5 := by
  obtain ⟨head, rest, rfl⟩ := List.exists_cons_of_ne_nil nonempty
  obtain ⟨low, high⟩ := ascii head List.mem_cons_self
  have visible : head ≠ 0 := by
    rintro rfl
    exact absurd low (by decide)
  have same : place.first boot disk = head := Sector.slotMatches_first found.named visible
  rw [same]
  refine ⟨visible, ?_⟩
  rintro rfl
  exact absurd high (by decide)

theorem NameChanged.disk_ne (changed : NameChanged boot disk disk' place newName) (clear : 0 ∉ newName)
    (free : place.first boot disk = 0) : disk' ≠ disk := by
  rintro rfl
  have head : (padField 8 newName).getD 0 0 = place.first boot disk' := by
    rw [← changed.field]
    rfl
  exact padField_first clear (head.trans free)

/-- A call keeps to live names exactly when the old name is not empty, no free slot passes for
an empty name, or a slot that starts with a space comes first. -/
theorem fatRenameFile_live_iff {st : FatState} (wf : st.boot.WellFormed) (lagging : Lagging st)
    (directory : FatChain st.boot st.disk st.cwdCluster dirs) (ended : EndsInZeros st.boot st.disk dirs)
    (enough : dirs.length ≤ fuel) (ascii : ∀ byte ∈ name, 0x20 < byte ∧ byte < 0x80) (clear : 0 ∉ newName) :
    ∃ st', fatRenameFile fuel name newName st = some st' ∧
      (TouchesLiveName st.boot st.disk st'.disk dirs name newName ↔ name ≠ [] ∨ SparesFree st.boot st.disk dirs) := by
  obtain ⟨st', ran, effect⟩ := fatRenameFile_effect wf lagging directory enough name newName
  refine ⟨st', ran, ?_⟩
  by_cases nonempty : name = []
  · subst nonempty
    rcases effect with ⟨absent, same⟩ | ⟨place, found, changed⟩
    · refine iff_of_true (.inl same) (.inr (.inr fun place member blank => ?_))
      obtain ⟨first, found⟩ := Option.isSome_iff_exists.mp
        (List.find?_isSome.mpr ⟨place, member, (hasName_nil place).mpr (.inr blank)⟩)
      exact absent first (firstMatch_iff.mpr found)
    · have live := found.nil_iff ended
      constructor
      · intro touches
        refine .inr (.inl (live.mp fun free => ?_))
        rcases touches with same | ⟨other, first, used, -⟩
        · exact changed.disk_ne clear free same
        · have unique := (firstMatch_iff.mp first).symm.trans (firstMatch_iff.mp found)
          cases unique
          exact used.1 free
      · rintro (filled | spared | unblank)
        · exact absurd rfl filled
        · have used := live.mpr spared
          refine .inr ⟨place, found, ⟨used, fun deleted => ?_⟩, changed⟩
          rcases (hasName_nil place).mp found.named with space | blank
          · rw [space] at deleted
            exact absurd deleted (by decide)
          · exact used blank.first
        · have space := ((hasName_nil place).mp found.named).resolve_right (unblank place found.member)
          refine .inr ⟨place, found, ?_, changed⟩
          rw [space]
          decide
  · refine iff_of_true ?_ (.inl nonempty)
    rcases effect with ⟨_, same⟩ | ⟨place, found, changed⟩
    · exact .inl same
    · exact .inr ⟨place, found, found.used nonempty ascii, changed⟩

end LivlyOS.Fs
