import LivlyOS.Fs.WalksEnd
import LivlyOS.Fs.Names

/-! The displayed path: `str_end` and `fat_cd_back` edit a string, the `cd`
commands enter and leave directories. -/

namespace LivlyOS.Fs

open LivlyOS.Lib

/-- The characters of the path in front of its terminator. -/
def pathText (path : Bytes) : List UInt8 := ((List.range 256).map path).takeWhile (· ≠ 0)

/-- The array holds a string. -/
structure HoldsText (path : Bytes) (text : List UInt8) : Prop where
  spells : ∀ index (inside : index < text.length), path index = text[index]
  ended : path text.length = 0
  plain : 0 ∉ text
  fits : text.length < 256

theorem HoldsText.ne_zero (holds : HoldsText path text) (inside : index < text.length) : path index ≠ 0 := by
  rw [holds.spells index inside]
  exact fun zero => holds.plain (zero ▸ List.getElem_mem inside)

theorem HoldsText.pathText_eq (holds : HoldsText path text) : pathText path = text := by
  have split : (List.range 256).map path =
      text ++ 0 :: (List.range' (text.length + 1) (256 - text.length - 1)).map path := by
    have fits := holds.fits
    apply List.ext_getElem
    · simp
      omega
    · intro index below _
      rw [List.getElem_map, List.getElem_range, List.getElem_append]
      split
      · rename_i inside
        exact holds.spells index inside
      · rename_i beyond
        rcases Nat.eq_or_lt_of_le (Nat.not_lt.mp beyond) with here | later
        · subst here
          simp [holds.ended]
        · obtain ⟨more, rfl⟩ : ∃ more, index = text.length + 1 + more := ⟨index - text.length - 1, by omega⟩
          have position : text.length + 1 + more - text.length = more + 1 := by omega
          simp [position]
  rw [pathText, split, List.takeWhile_append_of_pos]
  · simp
  · intro byte member
    simpa using fun zero : byte = 0 => holds.plain (zero ▸ member)

theorem HoldsText.first_zero (holds : HoldsText path text) :
    (List.range 256).find? (fun index => path index = 0) = some text.length := by
  rw [List.find?_range_eq_some]
  refine ⟨by simpa using holds.ended, List.mem_range.mpr holds.fits, ?_⟩
  intro index inside
  simpa using holds.ne_zero inside

theorem HoldsText.strEnd (holds : HoldsText path text) (name : CString)
    (room : text.length + name.text.length + 1 < 256) :
    HoldsText (Fs.strEnd name path) (text ++ (name.text ++ [0x2F])) := by
  have written : Fs.strEnd name path = putBytes path text.length (name.text ++ [0x2F, 0]) := by
    rw [Fs.strEnd, holds.first_zero]
  have run : name.text ++ [0x2F, 0] = (name.text ++ [0x2F]) ++ [0] := by simp
  rw [written, run]
  refine ⟨?_, ?_, ?_, ?_⟩
  · intro index inside
    rw [List.getElem_append]
    split
    · rename_i old
      rw [putBytes_outside _ _ (.inl old)]
      exact holds.spells index old
    · rename_i beyond
      obtain ⟨more, rfl⟩ : ∃ more, index = text.length + more := ⟨index - text.length, by omega⟩
      rw [List.length_append] at inside
      rw [putBytes_inside _ _ (by rw [List.length_append]; omega), List.getD_eq_getElem _ _
        (by rw [List.length_append]; omega), List.getElem_append_left (by omega)]
      simp only [Nat.add_sub_cancel_left]
  · rw [List.length_append, putBytes_inside _ _ (by simp)]
    simp
  · intro member
    rcases List.mem_append.mp member with old | new
    · exact holds.plain old
    · rcases List.mem_append.mp new with inName | slash
      · exact name.text_plain inName
      · cases List.mem_singleton.mp slash
  · rw [List.length_append, List.length_append, List.length_singleton]
    omega

/-- The loop to the end of the path stops at the terminator. -/
theorem HoldsText.pathEnd (holds : HoldsText path text) (start : index ≤ text.length)
    (enough : text.length - index < fuel) : loop (pathEndTurn path) fuel index = some text.length := by
  induction fuel generalizing index with
  | zero => exact absurd enough (Nat.not_lt_zero _)
  | succ fuel ih =>
    rcases Nat.eq_or_lt_of_le start with rfl | inside
    · have leave : pathEndTurn path text.length = .leave text.length := if_neg (not_not.mpr holds.ended)
      exact loop_leave leave fuel
    · have again : pathEndTurn path index = .again (index + 1) := if_pos (holds.ne_zero inside)
      rw [loop_again again]
      exact ih inside (by omega)

theorem backToSlash_eq (path : Bytes) (slash : slashAt = 0 ∨ path slashAt = 0x2F) (low : slashAt ≤ index)
    (plain : ∀ other, slashAt < other → other ≤ index → path other ≠ 0x2F) :
    backToSlash path index = slashAt := by
  induction index with
  | zero => exact (Nat.le_zero.mp low).symm
  | succ index ih =>
    rcases Nat.eq_or_lt_of_le low with rfl | below
    · rcases slash with zero | here
      · cases zero
      · rw [backToSlash, if_neg (not_not.mpr here)]
    · rw [backToSlash, if_pos (plain (index + 1) below (Nat.le_refl _))]
      exact ih (Nat.lt_succ_iff.mp below) (fun other high within => plain other high (by omega))

theorem HoldsText.cut (holds : HoldsText path (front ++ back)) :
    HoldsText (putBytes path front.length [0]) front where
  spells index inside := by
    rw [putBytes_outside _ _ (.inl inside), holds.spells index (by rw [List.length_append]; omega),
      List.getElem_append_left inside]
  ended := by
    have written := @putBytes_inside path front.length 0 [0] (Nat.succ_pos 0)
    rwa [Nat.add_zero] at written
  plain member := holds.plain (List.mem_append_left back member)
  fits := by
    have fits := holds.fits
    rw [List.length_append] at fits
    omega

/-- `fat_cd_back` takes the last name and its slash off. -/
theorem HoldsText.back (holds : HoldsText path (front ++ (last ++ [0x2F])))
    (slash : front.getLast? = some 0x2F) (plain : 0x2F ∉ last) :
    HoldsText (pathBack path (front ++ (last ++ [0x2F])).length) front := by
  obtain ⟨before, rfl⟩ := List.getLast?_eq_some_iff.mp slash
  have length : (before ++ [0x2F] ++ (last ++ [0x2F])).length = before.length + last.length + 2 := by
    simp
    omega
  have closing : path (before.length + 1 + last.length) = 0x2F := by
    rw [holds.spells _ (by rw [length]; omega), List.getElem_append_right (by simp)]
    simp
  have opening : path before.length = 0x2F := by
    rw [holds.spells _ (by rw [length]; omega), List.getElem_append_left (by simp)]
    simp
  have between : ∀ other, before.length < other → other ≤ before.length + last.length → path other ≠ 0x2F := by
    intro other low high
    obtain ⟨more, rfl⟩ : ∃ more, other = before.length + 1 + more := ⟨other - before.length - 1, by omega⟩
    rw [holds.spells _ (by rw [length]; omega), List.getElem_append_right (by simp)]
    have inside : more < last.length := by omega
    have position : before.length + 1 + more - (before ++ [0x2F]).length = more := by simp
    simp only [position, List.getElem_append_left inside]
    exact fun same => plain (same ▸ List.getElem_mem inside)
  have cut := holds.cut
  rw [List.length_append, List.length_singleton] at cut
  have index : before.length + last.length + 2 - 1 = before.length + 1 + last.length := by omega
  have earlier : before.length + 1 + last.length - 1 = before.length + last.length := by omega
  have positive : 0 < before.length + 1 + last.length := by omega
  have found := backToSlash_eq path (.inr opening) (Nat.le_add_right before.length last.length) between
  simp only [pathBack, length, index, positive, closing, and_self, ↓reduceIte, earlier, found]
  exact cut

theorem HoldsText.backAtRoot (holds : HoldsText path [0x2F]) : HoldsText (pathBack path 1) [0x2F] := by
  have whole : HoldsText path ([0x2F] ++ []) := holds
  simpa [pathBack, backToSlash] using whole.cut

/-- The root prefix and the entered names, each followed by a slash. -/
def namesText (names : List (List UInt8)) : List UInt8 := 0x2F :: names.flatMap (fun name => name ++ [0x2F])

theorem namesText_snoc (names : List (List UInt8)) (last : List UInt8) :
    namesText (names ++ [last]) = namesText names ++ (last ++ [0x2F]) := by
  simp [namesText]

theorem namesText_getLast (names : List (List UInt8)) : (namesText names).getLast? = some 0x2F := by
  induction names using List.reverseRecOn with
  | nil => rfl
  | append_singleton names last _ =>
    rw [namesText_snoc, ← List.append_assoc, List.getLast?_concat]

/-- `cmd_cd`. -/
def cmdCd (fuel : Nat) (arg : CString) (st : FatState) : Option FatState :=
  if arg.at 0 = 0 then some (fatCdRoot st)
  else if arg.at 0 = 0x2E ∧ arg.at 1 = 0x2E then fatCdBack fuel st
  else fatOpenDir fuel arg st

/-- A successful `cd`, with the names of the directories entered and not left. -/
inductive CdStep : FatState × List (List UInt8) → CString → FatState × List (List UInt8) → Prop where
  | root (empty : arg.at 0 = 0) : CdStep (st, names) arg (fatCdRoot st, [])
  | back (dots : arg.at 0 = 0x2E ∧ arg.at 1 = 0x2E) (away : st.cwdCluster ≠ st.boot.rootCluster.toNat)
      (finished : fatCdBack fuel st = some st') : CdStep (st, names) arg (st', names.dropLast)
  | openDir (named : arg.at 0 ≠ 0) (noDot : arg.at 0 ≠ 0x2E)
      (found : loop (openTurn arg) fuel (st.cwdCluster, st) = some (true, st')) :
      CdStep (st, names) arg (st', names ++ [arg.text])

theorem CdStep.command (step : CdStep (st, names) arg (st', names')) :
    ∃ fuel, cmdCd fuel arg st = some st' := by
  cases step with
  | root empty => exact ⟨0, if_pos empty⟩
  | back dots away finished =>
    have named : arg.at 0 ≠ 0 := by
      rw [dots.1]
      decide
    exact ⟨_, by rw [cmdCd, if_neg named, if_pos dots]; exact finished⟩
  | openDir named noDot found =>
    exact ⟨_, by rw [cmdCd, if_neg named, if_neg (fun dots => noDot dots.1), fatOpenDir, found]⟩

/-- In the first cluster of the walk that has a directory of this name, one
sector has it. -/
def SingleMatch (name : CString) (st : FatState) : Prop :=
  ∀ count, (∀ earlier < count, findInSectors (Sector.slotIsDirNamed name) st.disk
      (st.boot.clusterSector (followed st.cwdCluster st earlier).1) st.boot.spc 0 = none) →
    ∀ s t, s < st.boot.spc → t < st.boot.spc →
      (findInSector (Sector.slotIsDirNamed name)
        (clusterData st.boot st.disk (followed st.cwdCluster st count).1 s)).isSome = true →
      (findInSector (Sector.slotIsDirNamed name)
        (clusterData st.boot st.disk (followed st.cwdCluster st count).1 t)).isSome = true → s = t

/-- With a single match the directory is entered and the name appended once. -/
theorem openInSectors_single (name : CString) (sektor count s : Nat) (st : FatState)
    (single : ∀ t t', s ≤ t → t < s + count → s ≤ t' → t' < s + count →
      (findInSector (Sector.slotIsDirNamed name) (ataReadSector st.disk (u32 (sektor + t)))).isSome = true →
      (findInSector (Sector.slotIsDirNamed name) (ataReadSector st.disk (u32 (sektor + t')))).isSome = true →
      t = t')
    (found : findInSectors (Sector.slotIsDirNamed name) st.disk sektor count s = some hit) :
    openInSectors name sektor count s false st = (true,
      { st with cwdCluster := hit.buf.slotCluster hit.slot, cwdPath := strEnd name st.cwdPath }) := by
  induction count generalizing s with
  | zero => cases found
  | succ count ih =>
    rw [findInSectors] at found
    rw [openInSectors]
    cases here : findInSector (Sector.slotIsDirNamed name) (ataReadSector st.disk (u32 (sektor + s))) with
    | some slot =>
      rw [here] at found
      cases found
      have rest : findInSectors (Sector.slotIsDirNamed name) st.disk sektor count (s + 1) = none := by
        apply findInSectors_none.mpr
        intro t low high
        by_contra some
        have same := single s t (Nat.le_refl s) (by omega) (by omega) (by omega) (by rw [here]; rfl)
          (Option.isSome_iff_ne_none.mpr some)
        omega
      exact openInSectors_absent name sektor count (s + 1) true _ rest
    | none =>
      rw [here] at found
      exact ih (s + 1) (fun t t' low high low' high' => single t t' (by omega) (by omega) (by omega) (by omega))
        found

/-- A successful `fat_open_dir` with a single match appends the name to the path. -/
theorem openLoop_path (clean : st.fatCacheDirty = false) (single : SingleMatch name st)
    (finished : loop (openTurn name) fuel (st.cwdCluster, st) = some (true, st')) :
    st'.cwdPath = strEnd name st.cwdPath ∧ st'.fatCacheDirty = false ∧ st'.boot = st.boot := by
  refine loop_ends
    (fun state => ∃ count, state = followed st.cwdCluster st count ∧
      ∀ earlier < count, findInSectors (Sector.slotIsDirNamed name) st.disk
        (st.boot.clusterSector (followed st.cwdCluster st earlier).1) st.boot.spc 0 = none)
    (fun result : Bool × FatState => result.1 = true →
      result.2.cwdPath = strEnd name st.cwdPath ∧ result.2.fatCacheDirty = false ∧ result.2.boot = st.boot)
    ?_ ⟨0, rfl, fun earlier none => absurd none (Nat.not_lt_zero _)⟩ finished rfl
  rintro _ ⟨count, rfl, before⟩
  have loaded := followed_clean clean st.cwdCluster count
  have turn := openTurn_eq name (followed st.cwdCluster st count).1 (followed st.cwdCluster st count).2
  rw [loaded.disk, loaded.kept.boot] at turn
  rw [turn]
  split
  · exact fun opened => absurd opened Bool.false_ne_true
  · split
    · rename_i found
      intro _
      have boot := loaded.kept.boot
      have path := loaded.kept.cwdPath
      have single := single count before
      generalize followed st.cwdCluster st count = point at loaded found boot path single ⊢
      obtain ⟨current, mid⟩ := point
      simp only at loaded boot path single
      obtain ⟨hit, here⟩ := Option.isSome_iff_exists.mp found
      have after := openInSectors_single name (st.boot.clusterSector current) st.boot.spc 0 mid
        (by
          intro t t' _ high _ high' hit hit'
          rw [Nat.zero_add] at high high'
          rw [loaded.disk] at hit hit'
          exact single t t' high high' hit hit') (by rw [loaded.disk]; exact here)
      rw [after]
      have moved := (Loaded.refl loaded.clean).moved (hit.buf.slotCluster hit.slot) (strEnd name mid.cwdPath)
      have next := moved.next current
      exact ⟨next.kept.cwdPath.trans (by rw [← path]), next.clean, next.kept.boot.trans boot⟩
    · rename_i missing
      refine ⟨count + 1, (followed_last st.cwdCluster st count).symm, fun earlier below => ?_⟩
      rcases Nat.lt_succ_iff_lt_or_eq.mp below with sooner | rfl
      · exact before earlier sooner
      · exact Option.not_isSome_iff_eq_none.mp missing

/-- The state between two commands: the path spells the entered names. -/
structure Tracks (st : FatState) (names : List (List UInt8)) : Prop where
  path : HoldsText st.cwdPath (namesText names)
  clean : st.fatCacheDirty = false

theorem mounted_tracks (disk : Disk) : Tracks (mounted disk) [] where
  path.spells index inside := by
    obtain rfl := Nat.lt_one_iff.mp inside
    rfl
  path.ended := rfl
  path.plain := by decide
  path.fits := by decide
  clean := rfl

/-- The directory `fat_cd_back` goes to. -/
def parentOf (st : FatState) : Nat :=
  if (ataReadSector st.disk (st.boot.clusterSector st.cwdCluster)).slotCluster 1 = 0 then
    st.boot.rootCluster.toNat
  else (ataReadSector st.disk (st.boot.clusterSector st.cwdCluster)).slotCluster 1

/-- `fat_cd_back` returns outside the root and cuts the path. -/
theorem Tracks.back (tracks : Tracks st names) (away : st.cwdCluster ≠ st.boot.rootCluster.toNat)
    (plain : ∀ last ∈ names.getLast?, 0x2F ∉ last) :
    ∃ path, HoldsText path (namesText names.dropLast) ∧ ∀ fuel, (namesText names).length < fuel →
      fatCdBack fuel st = some { st with cwdCluster := parentOf st, cwdPath := path } := by
  have ends := fun fuel => @HoldsText.pathEnd _ _ 0 fuel tracks.path (Nat.zero_le _)
  refine ⟨pathBack st.cwdPath (namesText names).length, ?_, fun fuel enough => ?_⟩
  · cases names using List.reverseRecOn with
    | nil => exact tracks.path.backAtRoot
    | append_singleton front last =>
      have path := tracks.path
      rw [namesText_snoc] at path ⊢
      rw [List.dropLast_concat]
      exact path.back (namesText_getLast front) (plain last (by simp))
  · rw [fatCdBack, if_neg away, ends fuel (by omega)]
    rfl

theorem fatCdBack_mono (finished : fatCdBack fuel st = some st') (enough : fuel ≤ more) :
    fatCdBack more st = some st' := by
  rw [fatCdBack] at finished ⊢
  split
  · rename_i root
    rwa [if_pos root] at finished
  · rename_i away
    rw [if_neg away] at finished
    cases ends : loop (pathEndTurn st.cwdPath) fuel 0 with
    | none =>
      rw [ends] at finished
      cases finished
    | some terminator =>
      rw [ends] at finished
      rw [loop_mono ends enough]
      exact finished

/-- The command is not the one to the root, a name that is left has no slash in it, and
one that is entered fits in the array and has a single match. -/
def CdOk (state : FatState × List (List UInt8)) (arg : CString) : Prop :=
  arg.at 0 ≠ 0 ∧
    (arg.at 0 = 0x2E → ∀ last ∈ state.2.getLast?, 0x2F ∉ last) ∧
    (arg.at 0 ≠ 0x2E → (namesText state.2).length + arg.text.length + 1 < 256 ∧ SingleMatch arg state.1)

theorem Tracks.openDir (tracks : Tracks st names) (ok : CdOk (st, names) arg) (noDot : arg.at 0 ≠ 0x2E)
    (found : loop (openTurn arg) fuel (st.cwdCluster, st) = some (true, st')) :
    Tracks st' (names ++ [arg.text]) := by
  obtain ⟨fits, single⟩ := ok.2.2 noDot
  obtain ⟨path, clean, _⟩ := openLoop_path tracks.clean single found
  refine ⟨?_, clean⟩
  rw [path, namesText_snoc]
  exact tracks.path.strEnd arg fits

/-- One command keeps the path in step with the names. -/
theorem Tracks.step (tracks : Tracks st names) (ok : CdOk (st, names) arg)
    (step : CdStep (st, names) arg (st', names')) : Tracks st' names' := by
  cases step with
  | root empty => exact absurd empty ok.1
  | back dots away finished =>
    obtain ⟨path, holds, returns⟩ := tracks.back away (ok.2.1 dots.1)
    have same := fatCdBack_mono finished (Nat.le_max_left _ ((namesText names).length + 1))
    rw [returns _ (Nat.lt_of_lt_of_le (Nat.lt_succ_self _) (Nat.le_max_right _ _))] at same
    cases same
    exact ⟨holds, tracks.clean⟩
  | openDir named noDot found => exact tracks.openDir ok noDot found

/-- In every run from the start the path spells the names entered and not left, and
leaving the next directory restores it. -/
theorem path_tracks (run : Run CdStep CdOk (mounted disk, []) args (st, names)) :
    pathText st.cwdPath = namesText names ∧
      ∀ arg opened entered, CdOk (st, names) arg → arg.at 0 ≠ 0x2E → 0x2F ∉ arg.text →
        CdStep (st, names) arg (opened, entered) → opened.cwdCluster ≠ opened.boot.rootCluster.toNat →
        ∃ enough, ∀ fuel, enough ≤ fuel → ∃ left,
          fatCdBack fuel opened = some left ∧ pathText left.cwdPath = pathText st.cwdPath := by
  have tracks : Tracks st names := run.invariant
    (fun state : FatState × List (List UInt8) => Tracks state.1 state.2)
    (fun _ _ _ before ok step => before.step ok step) (mounted_tracks disk)
  refine ⟨tracks.path.pathText_eq, ?_⟩
  intro arg opened entered ok noDot plain step away
  have entering := tracks.step ok step
  cases step with
  | root empty => exact absurd empty ok.1
  | back dots _ _ => exact absurd dots.1 noDot
  | openDir named _ found =>
    obtain ⟨path, holds, returns⟩ := entering.back away (by simpa using plain)
    refine ⟨(namesText (names ++ [arg.text])).length + 1, fun fuel enough => ⟨_, returns fuel enough, ?_⟩⟩
    rw [tracks.path.pathText_eq]
    simpa using holds.pathText_eq

/-- The directory `D` in cluster 3 of a disk with nothing else. -/
def folderVolume : Disk :=
  image sampleBoot (assigned 0 [(0, 0x0FFFFFF8), (1, 0x0FFFFFFF), (2, 0x0FFFFFFF), (3, 0x0FFFFFFF)])
    (fun cluster _ =>
      if cluster = 2 then createdSlot [0x44] [] 0x10 Sector.zero 0 3
      else if cluster = 3 then dirSector 3 2 else Sector.zero)

/-- Opening a directory whose entry lies in the only sector of the cluster. -/
theorem openTurn_single (spc : st.boot.spc = 1) (inside : current < endOfChain)
    (found : findInSector (Sector.slotIsDirNamed name)
      (ataReadSector st.disk (u32 (st.boot.clusterSector current))) = some slot) :
    openTurn name (current, st) = .leave (true, (fatNextCluster current { st with
      cwdCluster := (ataReadSector st.disk (u32 (st.boot.clusterSector current))).slotCluster slot
      cwdPath := strEnd name st.cwdPath }).2) := by
  simp [openTurn, spc, Nat.not_le.mpr inside, openInSectors, found]

theorem folderVolume_opens (path : Bytes) :
    ∃ opened, loop (openTurn [0x44]) 1 (2, { mounted folderVolume with cwdPath := path }) = some (true, opened) ∧
      opened.cwdCluster = 3 ∧ opened.cwdPath = strEnd [0x44] path ∧ opened.boot = sampleBoot := by
  have boot : (mounted folderVolume).boot = sampleBoot := (mounted_image _ _ _).1
  have found : findInSector (Sector.slotIsDirNamed [0x44]) (ataReadSector (mounted folderVolume).disk
      (u32 ((mounted folderVolume).boot.clusterSector 2))) = some 0 := by
    decide +kernel
  have cluster : (ataReadSector (mounted folderVolume).disk
      (u32 ((mounted folderVolume).boot.clusterSector 2))).slotCluster 0 = 3 := by
    decide +kernel
  have turn := @openTurn_single 2 [0x44] 0 { mounted folderVolume with cwdPath := path }
    (congrArg FAT32BootSector.spc boot) (by decide) found
  refine ⟨_, loop_leave turn 0, ?_⟩
  have kept := fatNextCluster_kept 2 { mounted folderVolume with
    cwdCluster := (ataReadSector (mounted folderVolume).disk
      (u32 ((mounted folderVolume).boot.clusterSector 2))).slotCluster 0
    cwdPath := strEnd [0x44] path }
  exact ⟨kept.cwdCluster.trans cluster, kept.cwdPath, kept.boot.trans boot⟩

theorem path_tracks_folderVolume : ∃ opened,
    Run CdStep CdOk (mounted folderVolume, []) [[0x44]] (opened, [[0x44]]) ∧
      pathText opened.cwdPath = namesText [[0x44]] ∧
      ∃ enough, ∀ fuel, enough ≤ fuel → ∃ left,
        fatCdBack fuel opened = some left ∧ pathText left.cwdPath = pathText (mounted folderVolume).cwdPath := by
  have boot : (mounted folderVolume).boot = sampleBoot := (mounted_image _ _ _).1
  obtain ⟨opened, found, cluster, _, openedBoot⟩ := folderVolume_opens (mounted folderVolume).cwdPath
  have ok : CdOk (mounted folderVolume, []) [0x44] := by
    refine ⟨by decide, fun dot => absurd dot (by decide), fun _ => ⟨by decide, ?_⟩⟩
    intro count _ s t first second _ _
    have spc : (mounted folderVolume).boot.spc = 1 := congrArg FAT32BootSector.spc boot
    rw [spc, Nat.lt_one_iff] at first second
    rw [first, second]
  have step : CdStep (mounted folderVolume, []) [0x44] (opened, [[0x44]]) :=
    .openDir (by decide) (by decide) found
  have run : Run CdStep CdOk (mounted folderVolume, []) [[0x44]] (opened, [[0x44]]) := .next ok step .done
  refine ⟨opened, run, (path_tracks run).1, ?_⟩
  have away : opened.cwdCluster ≠ opened.boot.rootCluster.toNat := by
    rw [cluster, openedBoot]
    decide
  exact (path_tracks .done).2 [0x44] opened _ ok (by decide) (by decide) step away

/-- After a `cd` to the root the path has another prefix, and entering and leaving `D`
keeps the name. -/
theorem cmdCd_folderVolume :
    pathText (mounted folderVolume).cwdPath = [0x2F] ∧
      ∃ opened left,
        CdStep (mounted folderVolume, []) [] (fatCdRoot (mounted folderVolume), []) ∧
        CdStep (fatCdRoot (mounted folderVolume), []) [0x44] (opened, [[0x44]]) ∧
        CdStep (opened, [[0x44]]) [0x2E, 0x2E] (left, []) ∧
        pathText (fatCdRoot (mounted folderVolume)).cwdPath = [] ∧ pathText left.cwdPath = [0x44] := by
  obtain ⟨opened, found, cluster, path, openedBoot⟩ :=
    folderVolume_opens (fatCdRoot (mounted folderVolume)).cwdPath
  have away : opened.cwdCluster ≠ opened.boot.rootCluster.toNat := by
    rw [cluster, openedBoot]
    decide
  have ends : loop (pathEndTurn opened.cwdPath) 3 0 = some 2 := by
    rw [path]
    decide +kernel
  have left : pathText (pathBack opened.cwdPath 2) = [0x44] := by
    rw [path]
    decide +kernel
  have back : fatCdBack 3 opened =
      some { opened with cwdCluster := parentOf opened, cwdPath := pathBack opened.cwdPath 2 } := by
    rw [fatCdBack, if_neg away, ends]
    rfl
  exact ⟨by decide +kernel, opened, _, .root rfl, .openDir (by decide) (by decide) found,
    .back ⟨by decide, by decide⟩ away back, by decide +kernel, left⟩

end LivlyOS.Fs
