import LivlyOS.Fs.FreeSearch
import LivlyOS.Fs.Listing
import LivlyOS.Fs.Storing

namespace LivlyOS.Fs

open LivlyOS.Lib

theorem mem_sectorsSlots : (buf, slot) ∈ sectorsSlots disk sektor count s ↔
    slot < 16 ∧ ∃ t, s ≤ t ∧ t < s + count ∧ buf = ataReadSector disk (u32 (sektor + t)) := by
  induction count generalizing s with
  | zero =>
    constructor
    · exact fun member => absurd member List.not_mem_nil
    · rintro ⟨_, t, low, high, _⟩
      exact absurd (Nat.lt_of_le_of_lt low high) (Nat.lt_irrefl s)
  | succ count ih =>
    rw [sectorsSlots, List.mem_append, ih, sectorSlots, List.mem_map]
    constructor
    · rintro (⟨other, below, same⟩ | ⟨below, t, low, high, rfl⟩)
      · cases same
        exact ⟨List.mem_range.mp below, s, Nat.le_refl s, by omega, rfl⟩
      · exact ⟨below, t, by omega, by omega, rfl⟩
    · rintro ⟨below, t, low, high, rfl⟩
      rcases Nat.eq_or_lt_of_le low with rfl | above
      · exact .inl ⟨slot, List.mem_range.mpr below, rfl⟩
      · exact .inr ⟨below, t, above, by omega, rfl⟩

theorem mem_dirSlots : (buf, slot) ∈ dirSlots boot disk clusters ↔
    slot < 16 ∧ ∃ cluster ∈ clusters, ∃ s < boot.spc, buf = clusterData boot disk cluster s := by
  rw [dirSlots, List.mem_flatMap]
  constructor
  · rintro ⟨cluster, member, here⟩
    obtain ⟨below, s, _, inside, same⟩ := mem_sectorsSlots.mp here
    exact ⟨below, cluster, member, s, by omega, same⟩
  · rintro ⟨below, cluster, member, s, inside, same⟩
    exact ⟨cluster, member, mem_sectorsSlots.mpr ⟨below, s, Nat.zero_le s, by omega, same⟩⟩

/-- A duplicate is an entry in use whose name matches. -/
theorem duplicateInSector_match (duplicate : duplicateInSector name buf = .duplicate) :
    ∃ slot < 16, buf.slotFree slot = false ∧ buf.slotMatches name slot = true := by
  have scan : ∀ slots, duplicateInSlots name buf slots = .duplicate →
      ∃ slot ∈ slots, buf.slotFree slot = false ∧ buf.slotMatches name slot = true := by
    intro slots
    induction slots with
    | nil => exact nofun
    | cons slot rest ih =>
      intro duplicate
      have later : duplicateInSlots name buf rest = .duplicate → ∃ other ∈ slot :: rest,
          buf.slotFree other = false ∧ buf.slotMatches name other = true := by
        intro duplicate
        obtain ⟨other, member, found⟩ := ih duplicate
        exact ⟨other, List.mem_cons_of_mem slot member, found⟩
      rw [duplicateInSlots] at duplicate
      split at duplicate
      · cases duplicate
      · rename_i used
        split at duplicate
        · exact later duplicate
        · rename_i kept
          split at duplicate
          · rename_i hits
            exact ⟨slot, by simp, by simp [Sector.slotFree, used, kept], hits⟩
          · exact later duplicate
  obtain ⟨slot, member, found⟩ := scan _ duplicate
  exact ⟨slot, List.mem_range.mp member, found⟩

theorem slotFree_of_matches {sector : Sector} {name : CString} (visible : name.Visible)
    (nonempty : name ≠ []) (hits : sector.slotMatches name slot = true) :
    sector.slotFree slot = false := by
  obtain ⟨first, rest, rfl⟩ := List.exists_cons_of_ne_nil nonempty
  have character := Sector.slotMatches_first hits (visible.ne (by simp)).1
  obtain ⟨_, high⟩ := visible first (by simp)
  have kept : first ≠ 0xE5 := by
    rintro rfl
    exact absurd high (by decide)
  simp [Sector.slotFree, character, kept, (visible.ne (by simp : first ∈ first :: rest)).1]

theorem shownField_length_le (width : Nat) (field : Nat → UInt8) :
    (shownField width field).length ≤ width := by
  have shorter := (List.takeWhile_sublist (· ≠ 0x20) (l := (List.range width).map field)).length_le
  rwa [List.length_map, List.length_range] at shorter

/-- The entries of a directory are complete names, none of them the name that
would be stored. -/
def Unlisted (boot : FAT32BootSector) (disk : Disk) (dirs : List Nat) (name : CString) : Prop :=
  ∀ entry ∈ dirSlots boot disk dirs, entry.1.slotFree entry.2 = false →
    (∀ index < 8, entry.1.nameByte entry.2 index ≠ 0) ∧ entry.1.shownName entry.2 ≠ name.take 8

instance : Decidable (Unlisted boot disk dirs name) :=
  inferInstanceAs (Decidable (∀ _ ∈ _, _ → _))

/-- A slot as a search reports it. -/
def slotHit (boot : FAT32BootSector) (disk : Disk) (cluster s slot : Nat) : Hit :=
  ⟨boot.clusterLba cluster s, clusterData boot disk cluster s, slot⟩

section Found

variable {name : CString} (visible : name.Visible) (nonempty : name ≠ [])
  (unlisted : Unlisted boot disk dirs name)
include visible nonempty unlisted

theorem Unlisted.no_match (member : (buf, slot) ∈ dirSlots boot disk dirs) :
    buf.slotMatches name slot = false := by
  by_contra hits
  rw [Bool.not_eq_false] at hits
  obtain ⟨clear, other⟩ := unlisted _ member (slotFree_of_matches visible nonempty hits)
  have shown : buf.shownName slot = name := (Sector.slotMatches_iff visible clear).mp hits
  have short := shownField_length_le 8 (buf.nameByte slot)
  change (buf.shownName slot).length ≤ 8 at short
  rw [shown] at short
  rw [List.take_of_length_le short] at other
  exact other shown

/-- The check of `fat_write_file` lets the name through. -/
theorem Unlisted.no_duplicate (spc : 1 ≤ boot.spc) :
    (dirs.findSome? (fileDuplicateIn boot disk name)).isSome = false := by
  rw [Option.isSome_eq_false_iff, Option.isNone_iff_eq_none, List.findSome?_eq_none_iff]
  intro cluster inChain
  rw [fileDuplicateIn, if_neg]
  intro duplicate
  obtain ⟨slot, below, _, hits⟩ := duplicateInSector_match duplicate
  have member : (clusterData boot disk cluster 0, slot) ∈ dirSlots boot disk dirs :=
    mem_dirSlots.mpr ⟨below, cluster, inChain, 0, spc, rfl⟩
  rw [unlisted.no_match visible nonempty member] at hits
  cases hits

theorem EntryStored.only_match
    (entry : EntryStored boot disk disk' first dirs dirs' name ext attributes n owner s slot)
    (member : cluster ∈ dirs') (inside : t < boot.spc) (below : other < 16)
    (hits : (clusterData boot disk' cluster t).slotMatches name other = true) :
    cluster = owner ∧ t = s ∧ other = slot := by
  have old : (sectorBefore boot disk dirs cluster t).slotMatches name other = false := by
    rw [sectorBefore]
    split
    · rename_i inChain
      exact unlisted.no_match visible nonempty (mem_dirSlots.mpr ⟨below, cluster, inChain, t, inside, rfl⟩)
    · by_contra hits
      rw [Bool.not_eq_false] at hits
      have used := slotFree_of_matches visible nonempty hits
      rw [Sector.zero_slotFree] at used
      cases used
  by_contra different
  rw [(entry.sameSlot member inside different).slotMatches name, old] at hits
  cases hits

/-- A lookup finds the new entry exactly when its name is stored in full. -/
theorem EntryStored.firstHit_iff
    (entry : EntryStored boot disk disk' first dirs dirs' name ext attributes n owner s slot) :
    firstHit boot disk' (Sector.slotMatches name) dirs' = some (slotHit boot disk' owner s slot) ↔ name.length ≤ 8 := by
  have matches_iff : (clusterData boot disk' owner s).slotMatches name slot = true ↔ name.take 8 = name := by
    rw [entry.sector]
    exact createdSlot_matches visible visible ext attributes _ n entry.below
  constructor
  · intro found
    obtain ⟨_, _, place⟩ := firstHit_some found
    have stored := matches_iff.mp (findInSector_some place.found).2.1
    rw [← stored, List.length_take]
    exact Nat.min_le_left 8 name.length
  · intro short
    have hits := matches_iff.mpr (List.take_of_length_le short)
    have present : (clusterData boot disk' owner s, slot) ∈ dirSlots boot disk' dirs' :=
      mem_dirSlots.mpr ⟨entry.below, owner, entry.member, s, entry.inside, rfl⟩
    have some : (firstHit boot disk' (Sector.slotMatches name) dirs').isSome = true := by
      rw [firstHit_isSome, List.any_eq_true]
      exact ⟨_, present, hits⟩
    obtain ⟨⟨lba, buf, other⟩, found⟩ := Option.isSome_iff_exists.mp some
    obtain ⟨cluster, t, member, inside, rfl, rfl, searched⟩ := firstHit_some found
    obtain ⟨below, matched, _⟩ := findInSector_some searched
    obtain ⟨rfl, rfl, rfl⟩ := entry.only_match visible nonempty unlisted member inside below matched
    exact found

end Found

theorem EntryStored.short
    (entry : EntryStored boot disk disk' first dirs dirs' name ext attributes n owner s slot)
    (enough : dirs.length + 2 ≤ fuel) : dirs'.length ≤ fuel := by
  rcases entry.grows with rfl | ⟨more, _, rfl⟩
  · omega
  · rw [List.length_append, List.length_singleton]
    omega

/-- A new entry has a slot: a free one in the directory, or one in the cluster that `fat_extend_chain` finds
after the two walks over it. -/
def SlotLeft (st : FatState) (dirs : List Nat) : Prop :=
  (firstPlace st.boot st.disk Sector.slotFree dirs).isSome = true ∨ (seenFree (linksRead (dirs ++ dirs) st)).Nonempty

/-- `fat_write_file` with a new name finds no place exactly when there is none. -/
theorem fatWriteFile_full_iff (wf : st.boot.WellFormed) (lagging : Lagging st)
    (directory : FatChain st.boot st.disk st.cwdCluster dirs)
    (new : (dirs.findSome? (fileDuplicateIn st.boot st.disk name)).isSome = false)
    (finished : fatWriteFile (dirs.length + 2) name ext st = some (exit, st')) : exit = .full ↔ ¬SlotLeft st dirs := by
  obtain ⟨mid, start, walked, checked⟩ := fatWriteFile_checked wf lagging directory
    (by omega : dirs.length < dirs.length + 2) name ext
  have ends := List.getLast?_eq_some_getLast (List.ne_nil_of_length_pos directory.chain.length_pos)
  obtain ⟨last, loaded, behind, placed⟩ := placeLoop_eq wf lagging (fillFile name ext) "Kein Platz im Root-Directory\n"
    directory start ends (by omega : dirs.length + 1 < dirs.length + 2)
  rw [checked, new, if_neg Bool.false_ne_true, start.kept.cwdCluster, placed] at finished
  rw [SlotLeft]
  cases found : firstPlace st.boot st.disk Sector.slotFree dirs with
  | some place =>
    rw [found] at finished
    cases finished
    exact iff_of_false (fun full => by cases full) (fun none => none (.inl rfl))
  | none =>
    have same : last = linksRead (dirs ++ dirs) st := by
      rw [behind found, walked new, linksRead, linksRead, linksRead, List.foldl_append]
    rw [found] at finished
    have result := congrArg Prod.fst (Option.some.inj finished)
    have member := List.getLast_mem (List.ne_nil_of_length_pos directory.chain.length_pos)
    generalize dirs.getLast _ = final at result member
    have boot := loaded.kept.boot
    have outcome := @fatExtendChain_seen final last
    rw [boot, loaded.disk] at outcome
    rw [← same]
    change (placeBehind (fillFile name ext) _ final last).1 = exit at result
    unfold placeBehind at result
    dsimp only at result
    rcases outcome (lagging.loaded loaded) wf (directory.data final member).2 (directory.entry_ne_zero member) with
      ⟨empty, failed, _⟩ | ⟨some, _, step, _⟩
    · rw [failed, if_pos (by decide)] at result
      refine iff_of_true result.symm ?_
      rintro (free | seen)
      · cases free
      · rw [empty] at seen
        exact Finset.not_nonempty_empty seen
    · rw [if_neg (Nat.not_le.mpr (data_lt_endOfChain wf step.data))] at result
      refine iff_of_false ?_ (fun none => none (.inr some))
      rintro rfl
      cases result

/-- After `fat_write_file` a lookup with the same name finds the new entry exactly when the name has at most
eight characters and there is a slot. -/
theorem fatWriteFile_found_iff {st : FatState} {dirs : List Nat} {name : CString}
    (wf : st.boot.WellFormed) (lagging : Lagging st)
    (directory : FatChain st.boot st.disk st.cwdCluster dirs)
    (unlisted : Unlisted st.boot st.disk dirs name)
    (visible : name.Visible) (nonempty : name ≠ []) (ext : CString) :
    ∃ enough, ∀ fuel, enough ≤ fuel → ∃ exit st', fatWriteFile fuel name ext st = some (exit, st') ∧
      ((∃ n dirs' owner s slot, exit = .created n ∧
          EntryStored st.boot st.disk st'.disk st.cwdCluster dirs dirs' name ext 0x20 n owner s slot ∧
          ∃ after, locate fuel name st' = some (some (slotHit st.boot st'.disk owner s slot), after)) ↔
        name.length ≤ 8 ∧ SlotLeft st dirs) := by
  refine ⟨dirs.length + 2, fun fuel enough => ?_⟩
  have new := unlisted.no_duplicate visible nonempty wf.spc_pos
  obtain ⟨exit, st', finished, _, stored⟩ := fatWriteFile_stores wf lagging directory
    (Nat.lt_succ_self (dirs.length + 1)) name ext
  have full := fatWriteFile_full_iff wf lagging directory new finished
  refine ⟨exit, st', fatWriteFile_mono finished enough, ?_⟩
  rcases stored new with noRoom | ⟨n, dirs', current, s, slot, rfl, created⟩
  · refine iff_of_false ?_ (fun both => full.mp noRoom.exit both.2)
    rintro ⟨n, _, _, _, _, same, _⟩
    cases noRoom.exit.symm.trans same
  · have left : SlotLeft st dirs := by
      by_contra none
      cases full.mpr none
    rw [and_iff_left left]
    have located : ∀ dirs' : List Nat, FatChain st.boot st'.disk st.cwdCluster dirs' → dirs'.length ≤ fuel →
        ∀ hit, (∃ after, locate fuel name st' = some (some hit, after)) ↔
          firstHit st.boot st'.disk (Sector.slotMatches name) dirs' = some hit := by
      intro dirs' chain short hit
      rw [← created.kept.boot, ← created.kept.cwdCluster] at chain
      obtain ⟨after, searched, _⟩ := locate_eq created.lagging chain short name
      rw [created.kept.boot] at searched
      constructor
      · rintro ⟨_, found⟩
        exact congrArg Prod.fst (Option.some.inj (searched.symm.trans found))
      · intro found
        exact ⟨after, by rw [searched, found]⟩
    constructor
    · rintro ⟨_, others, _, _, _, _, entry, found⟩
      exact (entry.firstHit_iff visible nonempty unlisted).mp ((located others entry.chain (entry.short enough) _).mp found)
    · intro short
      have entry := created.entry
      exact ⟨n, dirs', current, s, slot, rfl, entry, (located dirs' entry.chain (entry.short enough) _).mpr
        ((entry.firstHit_iff visible nonempty unlisted).mpr short)⟩

theorem fatWriteFile_found_iff_oneFile :
    ∃ enough, ∀ fuel, enough ≤ fuel → ∃ exit st',
      fatWriteFile fuel [0x42] [0x54] (mounted oneFileVolume) = some (exit, st') ∧
      ((∃ n dirs' owner s slot, exit = .created n ∧
          EntryStored (mounted oneFileVolume).boot (mounted oneFileVolume).disk st'.disk
            (mounted oneFileVolume).cwdCluster [2] dirs' [0x42] [0x54] 0x20 n owner s slot ∧
          ∃ after, locate fuel [0x42] st' =
            some (some (slotHit (mounted oneFileVolume).boot st'.disk owner s slot), after)) ↔
        [0x42].length ≤ 8 ∧ SlotLeft (mounted oneFileVolume) [2]) := by
  obtain ⟨boot, directory, _⟩ := oneFileVolume_directory
  have wf : (mounted oneFileVolume).boot.WellFormed := by
    rw [boot]
    exact sampleBoot_wellFormed
  exact fatWriteFile_found_iff wf ((mounted_coherent _).lagging wf.layout)
    directory (by decide +kernel) (by decide +kernel) (by decide) [0x54]

/-- `ABCDEFGHI`. -/
def nineLetters : CString := [0x41, 0x42, 0x43, 0x44, 0x45, 0x46, 0x47, 0x48, 0x49]

/-- `create ABCDEFGHI T` makes an entry which no lookup of `ABCDEFGHI` finds. -/
theorem fatWriteFile_notFound :
    FatChain (mounted oneFileVolume).boot (mounted oneFileVolume).disk
        (mounted oneFileVolume).cwdCluster [2] ∧
      2 ≤ (freeClusters (mounted oneFileVolume).boot (mounted oneFileVolume).disk).card ∧
      Unlisted (mounted oneFileVolume).boot (mounted oneFileVolume).disk [2] nineLetters ∧
      ∃ st' after, fatWriteFile 3 nineLetters [0x54] (mounted oneFileVolume) = some (.created 4, st') ∧
        locate 3 nineLetters st' = some (none, after) := by
  obtain ⟨_, directory, _⟩ := oneFileVolume_directory
  refine ⟨directory, by decide +kernel, by decide +kernel, ?_⟩
  have trace : (fatWriteFile 3 nineLetters [0x54] (mounted oneFileVolume)).bind (fun result =>
      (locate 3 nineLetters result.2).map (fun found => (result.1, found.1.isNone))) =
      some (.created 4, true) := by
    decide +kernel
  obtain ⟨⟨exit, st'⟩, created, trace⟩ := Option.bind_eq_some_iff.mp trace
  obtain ⟨⟨found, after⟩, searched, facts⟩ := Option.map_eq_some_iff.mp trace
  cases congrArg Prod.fst facts
  cases found with
  | none => exact ⟨st', after, created, searched⟩
  | some hit => cases congrArg Prod.snd facts

end LivlyOS.Fs
