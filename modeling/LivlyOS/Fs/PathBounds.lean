import LivlyOS.Fs.PathTracking

namespace LivlyOS.Fs

open LivlyOS.Lib

/-- The places of the path that `str_end` writes. -/
def strEndPlaces (name : CString) (path : Bytes) : List Nat :=
  match (List.range 256).find? (fun index => path index = 0) with
  | some index => List.range' index (name.text.length + 2)
  | none => []

/-- The places that the sectors of one cluster write in `fat_open_dir`. -/
def openPlaces (name : CString) (sektor : Nat) : (count s : Nat) → FatState → List Nat
  | 0, _, _ => []
  | count + 1, s, st =>
    let buf := ataReadSector st.disk (u32 (sektor + s))
    match findInSector (Sector.slotIsDirNamed name) buf with
    | some slot =>
      strEndPlaces name st.cwdPath ++ openPlaces name sektor count (s + 1)
        { st with cwdCluster := buf.slotCluster slot, cwdPath := strEnd name st.cwdPath }
    | none => openPlaces name sektor count (s + 1) st

/-- `openTurn` with the places it writes. -/
def openPlacesTurn (name : CString) : Nat × FatState → Turn (Nat × FatState) (List Nat × Bool × FatState)
  | (current, st) =>
    if endOfChain ≤ current then .leave ([], false, st)
    else
      let opened := openInSectors name (st.boot.clusterSector current) st.boot.spc 0 false st
      let places := openPlaces name (st.boot.clusterSector current) st.boot.spc 0 st
      let link := fatNextCluster current opened.2
      if opened.1 then .leave (places, true, link.2) else .again link

def fatOpenDirPlaces (fuel : Nat) (name : CString) (st : FatState) : Option (List Nat × FatState) :=
  match loop (openPlacesTurn name) fuel (st.cwdCluster, st) with
  | none => none
  | some (places, true, st) => some (places, st)
  | some (places, false, st) =>
    some (places, st.kprintf ("Ordner nicht gefunden: " ++
      String.ofList (name.text.map (fun byte => Char.ofNat byte.toNat)) ++ "\n"))

/-- The place where `fat_cd_back` ends the path. -/
def pathBackPlace (path : Bytes) (terminator : Nat) : Nat :=
  let i := terminator - 1
  let i := if 0 < i ∧ path i = 0x2F then i - 1 else i
  backToSlash path i + 1

def fatCdBackPlaces (fuel : Nat) (st : FatState) : Option (List Nat × FatState) :=
  if st.cwdCluster = st.boot.rootCluster.toNat then
    some ([], st.kprintf "Bereits im root Verzeichnis\n")
  else
    match loop (pathEndTurn st.cwdPath) fuel 0 with
    | none => none
    | some terminator =>
      some ([pathBackPlace st.cwdPath terminator],
        { st with cwdCluster := parentOf st, cwdPath := pathBack st.cwdPath terminator })

theorem strEnd_outside (name : CString) (path : Bytes) (outside : place ∉ strEndPlaces name path) :
    strEnd name path place = path place := by
  rw [strEndPlaces] at outside
  rw [strEnd]
  cases found : (List.range 256).find? (fun index => path index = 0) with
  | none => rfl
  | some index =>
    rw [found] at outside
    have apart : place < index ∨ index + (name.text.length + 2) ≤ place := by
      by_contra inside
      exact outside (List.mem_range'_1.mpr (by omega))
    exact putBytes_outside _ _ (by simpa using apart)

theorem pathBack_eq (path : Bytes) (terminator : Nat) :
    pathBack path terminator = putBytes path (pathBackPlace path terminator) [0] := rfl

theorem openPlacesTurn_loop (name : CString) (fuel : Nat) (point : Nat × FatState) :
    loop (openTurn name) fuel point = (loop (openPlacesTurn name) fuel point).map Prod.snd := by
  refine loop_map Prod.snd (fun _ => True) (fun _ _ _ _ => trivial) (fun (current, st) _ => ?_) trivial fuel
  rw [openPlacesTurn, openTurn]
  split
  · rfl
  · dsimp only
    split <;> rfl

theorem fatOpenDirPlaces_state (fuel : Nat) (name : CString) (st : FatState) :
    (fatOpenDirPlaces fuel name st).map Prod.snd = fatOpenDir fuel name st := by
  rw [fatOpenDir, openPlacesTurn_loop, fatOpenDirPlaces]
  rcases loop (openPlacesTurn name) fuel (st.cwdCluster, st) with _ | ⟨places, found, st'⟩
  · rfl
  · cases found <;> rfl

theorem fatCdBackPlaces_state (fuel : Nat) (st : FatState) :
    (fatCdBackPlaces fuel st).map Prod.snd = fatCdBack fuel st := by
  unfold fatCdBackPlaces fatCdBack
  split
  · rfl
  · cases loop (pathEndTurn st.cwdPath) fuel 0 <;> rfl

theorem holdsText_of_zero (zero : path index = 0) (inside : index < 256) : HoldsText path (pathText path) := by
  have exists_zero : ∃ index, path index = 0 := ⟨index, zero⟩
  have holds : HoldsText path ((List.range (Nat.find exists_zero)).map path) := by
    refine ⟨fun place below => ?_, ?_, ?_, ?_⟩
    · rw [List.getElem_map, List.getElem_range]
    · rw [List.length_map, List.length_range]
      exact Nat.find_spec exists_zero
    · intro member
      obtain ⟨place, below, same⟩ := List.mem_map.mp member
      exact Nat.find_min exists_zero (List.mem_range.mp below) same
    · rw [List.length_map, List.length_range]
      exact Nat.lt_of_le_of_lt (Nat.find_min' exists_zero zero) inside
  rw [holds.pathText_eq]
  exact holds

theorem HoldsText.strEndPlaces (holds : HoldsText path text) (name : CString) :
    Fs.strEndPlaces name path = List.range' text.length (name.text.length + 2) := by
  rw [Fs.strEndPlaces, holds.first_zero]

/-- A name that fits makes the path longer by itself and a slash. -/
theorem HoldsText.strEnd_longer (holds : HoldsText path text) (name : CString)
    (room : text.length + name.text.length + 1 < 256) :
    ∃ longer, HoldsText (Fs.strEnd name path) longer ∧ longer.length = text.length + (name.text.length + 1) :=
  ⟨_, holds.strEnd name room, by simp⟩

/-- How many sectors of a cluster have a directory of this name. -/
def dirMatches (name : CString) (disk : Disk) (sektor count s : Nat) : Nat :=
  (List.range' s count).countP fun t =>
    (findInSector (Sector.slotIsDirNamed name) (ataReadSector disk (u32 (sektor + t)))).isSome

theorem dirMatches_succ (name : CString) (disk : Disk) (sektor count s : Nat) :
    dirMatches name disk sektor (count + 1) s = dirMatches name disk sektor count (s + 1) +
      if (findInSector (Sector.slotIsDirNamed name) (ataReadSector disk (u32 (sektor + s)))).isSome then 1 else 0 := by
  rw [dirMatches, List.range'_succ, List.countP_cons, dirMatches]

theorem dirMatches_zero : dirMatches name disk sektor count s = 0 ↔
    findInSectors (Sector.slotIsDirNamed name) disk sektor count s = none := by
  rw [dirMatches, List.countP_eq_zero, findInSectors_none]
  simp only [List.mem_range'_1, Option.not_isSome_iff_eq_none, and_imp]

/-- What the sectors of a cluster append stays inside the array exactly when all of it
fits in front of the last byte. -/
theorem openPlaces_iff (holds : HoldsText st.cwdPath text) :
    (∀ place ∈ openPlaces name sektor count s st, place < 256) ↔
      text.length + dirMatches name st.disk sektor count s * (name.text.length + 1) < 256 := by
  induction count generalizing s st text with
  | zero =>
    have fits := holds.fits
    simp [openPlaces, dirMatches, fits]
  | succ count ih =>
    rw [openPlaces, dirMatches_succ]
    cases findInSector (Sector.slotIsDirNamed name) (ataReadSector st.disk (u32 (sektor + s))) with
    | none => exact ih holds
    | some slot =>
      dsimp only [Option.isSome_some]
      rw [if_pos rfl, Nat.succ_mul, holds.strEndPlaces]
      by_cases room : text.length + name.text.length + 1 < 256
      · obtain ⟨longer, appended, length⟩ := holds.strEnd_longer name room
        rw [List.forall_mem_append, ih appended, length]
        simp only [List.mem_range'_1]
        refine ⟨fun both => by omega, fun fits => ⟨fun place inside => by omega, by omega⟩⟩
      · refine iff_of_false (fun inside => ?_) (by omega)
        have last := inside (text.length + (name.text.length + 1))
          (List.mem_append_left _ (List.mem_range'_1.mpr (by omega)))
        omega

theorem openInSectors_holds (holds : HoldsText st.cwdPath text)
    (fits : text.length + dirMatches name st.disk sektor count s * (name.text.length + 1) < 256) :
    ∃ text', HoldsText (openInSectors name sektor count s found st).2.cwdPath text' := by
  induction count generalizing s st text found with
  | zero => exact ⟨text, holds⟩
  | succ count ih =>
    rw [dirMatches_succ] at fits
    rw [openInSectors]
    cases here : findInSector (Sector.slotIsDirNamed name) (ataReadSector st.disk (u32 (sektor + s))) with
    | none =>
      rw [here] at fits
      exact ih holds fits
    | some slot =>
      rw [here, Option.isSome_some, if_pos rfl, Nat.succ_mul] at fits
      obtain ⟨longer, appended, length⟩ := holds.strEnd_longer name (by omega)
      dsimp only
      refine ih appended ?_
      dsimp only
      rw [length]
      omega

inductive PathCall where
  | openDir (name : CString)
  | cdBack
  | cdRoot

/-- One call that returns, with the places of the path written so far. -/
inductive PathStep : FatState × List Nat → PathCall → FatState × List Nat → Prop where
  | openDir (returned : fatOpenDirPlaces fuel name st = some (places, st')) :
      PathStep (st, written) (.openDir name) (st', written ++ places)
  | cdBack (returned : fatCdBackPlaces fuel st = some (places, st')) :
      PathStep (st, written) .cdBack (st', written ++ places)
  | cdRoot : PathStep (st, written) .cdRoot (fatCdRoot st, written ++ [0])

/-- Everything written lies in the array, and the array still holds a string. -/
structure PathInside (state : FatState × List Nat) : Prop where
  inside : ∀ place ∈ state.2, place < 256
  terminated : ∃ index < 256, state.1.cwdPath index = 0

/-- How many sectors of a cluster have a directory of this name. -/
def dirsIn (name : CString) (st : FatState) (cluster : Nat) : Nat :=
  dirMatches name st.disk (st.boot.clusterSector cluster) st.boot.spc 0

/-- The walk goes through so many clusters without the name. -/
def PassesBy (name : CString) (st : FatState) (count : Nat) : Prop :=
  ∀ earlier < count, (followed st.cwdCluster st earlier).1 < endOfChain ∧
    dirsIn name st (followed st.cwdCluster st earlier).1 = 0

/-- In the first cluster of the walk that has a directory of the name, every sector with
one appends it, and all of that fits behind the path. -/
def OpenFits (name : CString) (st : FatState) : Prop :=
  ∀ count, PassesBy name st count → (followed st.cwdCluster st count).1 < endOfChain →
    (pathText st.cwdPath).length +
      dirsIn name st (followed st.cwdCluster st count).1 * (name.text.length + 1) < 256

def PathFits (state : FatState × List Nat) : PathCall → Prop
  | .openDir name => OpenFits name state.1
  | _ => True

/-- Where the walk of `fat_open_dir` ends, and what it wrote there. -/
inductive OpenExit (name : CString) (st : FatState) : List Nat → FatState → Prop where
  | missing (passed : PassesBy name st count) (ended : endOfChain ≤ (followed st.cwdCluster st count).1)
      (path : st'.cwdPath = st.cwdPath) : OpenExit name st [] st'
  | opened (passed : PassesBy name st count) (inside : (followed st.cwdCluster st count).1 < endOfChain)
      (found : dirsIn name st (followed st.cwdCluster st count).1 ≠ 0) (disk : mid.disk = st.disk)
      (before : mid.cwdPath = st.cwdPath)
      (after : st'.cwdPath = (openInSectors name (st.boot.clusterSector (followed st.cwdCluster st count).1)
        st.boot.spc 0 false mid).2.cwdPath) :
      OpenExit name st (openPlaces name (st.boot.clusterSector (followed st.cwdCluster st count).1) st.boot.spc 0 mid) st'

/-- A turn by what the sectors of its cluster hold. -/
theorem openPlacesTurn_eq (name : CString) (cluster : Nat) (st : FatState) :
    openPlacesTurn name (cluster, st) =
      if endOfChain ≤ cluster then .leave ([], false, st)
      else if dirsIn name st cluster = 0 then .again (fatNextCluster cluster st)
      else .leave (openPlaces name (st.boot.clusterSector cluster) st.boot.spc 0 st, true, (fatNextCluster cluster
        (openInSectors name (st.boot.clusterSector cluster) st.boot.spc 0 false st).2).2) := by
  have found := openInSectors_found name (st.boot.clusterSector cluster) st.boot.spc 0 false st
  have stays := openInSectors_absent name (st.boot.clusterSector cluster) st.boot.spc 0 false st
  rw [Bool.false_or] at found
  rw [openPlacesTurn]
  dsimp only
  rw [found, dirsIn]
  by_cases none : dirMatches name st.disk (st.boot.clusterSector cluster) st.boot.spc 0 = 0
  · rw [if_pos none, dirMatches_zero.mp none, stays (dirMatches_zero.mp none)]
    rfl
  · have some := Option.isSome_iff_ne_none.mpr (mt dirMatches_zero.mpr none)
    rw [if_neg none, some]
    rfl

theorem openPlaces_exit (clean : st.fatCacheDirty = false)
    (returned : loop (openPlacesTurn name) fuel (st.cwdCluster, st) = some (places, found, st')) :
    OpenExit name st places st' ∧ st'.fatCacheDirty = false := by
  refine loop_ends
    (fun point => ∃ count, point = followed st.cwdCluster st count ∧ PassesBy name st count)
    (fun result : List Nat × Bool × FatState =>
      OpenExit name st result.1 result.2.2 ∧ result.2.2.fatCacheDirty = false)
    ?_ ⟨0, rfl, fun earlier none => absurd none (Nat.not_lt_zero _)⟩ returned
  rintro _ ⟨count, rfl, passed⟩
  have loaded := followed_clean clean st.cwdCluster count
  have turn := openPlacesTurn_eq name (followed st.cwdCluster st count).1 (followed st.cwdCluster st count).2
  rw [dirsIn, loaded.disk, loaded.kept.boot] at turn
  rw [turn]
  split
  · rename_i ended
    exact ⟨.missing passed ended loaded.kept.cwdPath, loaded.clean⟩
  · rename_i inside
    split
    · rename_i none
      refine ⟨count + 1, (followed_last st.cwdCluster st count).symm, fun earlier below => ?_⟩
      rcases Nat.lt_succ_iff_lt_or_eq.mp below with sooner | rfl
      · exact passed earlier sooner
      · exact ⟨Nat.not_le.mp inside, none⟩
    · rename_i found
      obtain ⟨cwd, path, moved⟩ := openInSectors_moves name
        (st.boot.clusterSector (followed st.cwdCluster st count).1) st.boot.spc 0 false (followed st.cwdCluster st count).2
      have next := ((Loaded.refl loaded.clean).moved cwd path).next (followed st.cwdCluster st count).1
      rw [← moved] at next
      exact ⟨.opened passed (Nat.not_le.mp inside) found loaded.disk loaded.kept.cwdPath next.kept.cwdPath, next.clean⟩

/-- An entered directory stays inside the array exactly when its name fits. -/
theorem OpenExit.inside_iff (exit : OpenExit name st places st') (holds : HoldsText st.cwdPath text) :
    ((∀ place ∈ places, place < 256) ∧ ∃ index < 256, st'.cwdPath index = 0) ↔ OpenFits name st := by
  have length : (pathText st.cwdPath).length = text.length := congrArg List.length holds.pathText_eq
  have fits := holds.fits
  cases exit with
  | @missing count _ passed ended path =>
    refine iff_of_true ⟨fun _ none => absurd none List.not_mem_nil, text.length, fits, path ▸ holds.ended⟩ ?_
    intro other passed' inside
    have earlier : other < count := by
      by_contra later
      rcases Nat.eq_or_lt_of_le (Nat.not_lt.mp later) with rfl | behind
      · omega
      · have inside' := (passed' count behind).1
        omega
    rw [(passed other earlier).2, length]
    omega
  | @opened count mid _ passed inside found disk before after =>
    have middle : HoldsText mid.cwdPath text := before ▸ holds
    have bound : OpenFits name st ↔ text.length +
        dirsIn name st (followed st.cwdCluster st count).1 * (name.text.length + 1) < 256 := by
      rw [← length]
      refine ⟨fun all => all count passed inside, fun here other passed' inside' => ?_⟩
      rcases Nat.lt_trichotomy other count with earlier | rfl | behind
      · rw [(passed other earlier).2, length]
        omega
      · exact here
      · exact absurd (passed' count behind).2 found
    have places : (∀ place ∈ openPlaces name (st.boot.clusterSector (followed st.cwdCluster st count).1) st.boot.spc 0
        mid, place < 256) ↔ _ := openPlaces_iff middle
    rw [disk] at places
    rw [bound, dirsIn, ← places]
    refine ⟨And.left, fun low => ⟨low, ?_⟩⟩
    have room := places.mp low
    rw [← disk] at room
    obtain ⟨text', holds'⟩ := openInSectors_holds middle room
    exact ⟨text'.length, holds'.fits, after ▸ holds'.ended⟩

theorem backToSlash_le (path : Bytes) (index : Nat) : backToSlash path index ≤ index := by
  induction index with
  | zero => exact Nat.le_refl 0
  | succ index ih =>
    rw [backToSlash]
    split
    · exact Nat.le_succ_of_le ih
    · exact Nat.le_refl _

/-- `fat_cd_back` never writes behind the terminator of a path, and one behind an empty one. -/
theorem pathBackPlace_le (path : Bytes) (terminator : Nat) : pathBackPlace path terminator ≤ max terminator 1 := by
  rw [pathBackPlace]
  split
  · have low := backToSlash_le path (terminator - 1 - 1)
    omega
  · have low := backToSlash_le path (terminator - 1)
    omega

theorem fatOpenDirPlaces_exit (clean : st.fatCacheDirty = false)
    (returned : fatOpenDirPlaces fuel name st = some (places, st')) :
    OpenExit name st places st' ∧ st'.fatCacheDirty = false := by
  rw [fatOpenDirPlaces] at returned
  split at returned
  · cases returned
  · rename_i ran
    cases returned
    exact openPlaces_exit clean ran
  · rename_i ran
    cases returned
    obtain ⟨exit, clean'⟩ := openPlaces_exit clean ran
    refine ⟨?_, clean'⟩
    cases exit with
    | missing passed ended path => exact .missing passed ended path
    | opened passed inside found disk before after => exact .opened passed inside found disk before after

theorem fatCdBackPlaces_inside (holds : HoldsText st.cwdPath text)
    (returned : fatCdBackPlaces fuel st = some (places, st')) :
    (∀ place ∈ places, place < 256) ∧ (∃ index < 256, st'.cwdPath index = 0) ∧
      st'.fatCacheDirty = st.fatCacheDirty := by
  have fits := holds.fits
  rw [fatCdBackPlaces] at returned
  split at returned
  · cases returned
    exact ⟨fun _ none => absurd none List.not_mem_nil, ⟨text.length, fits, holds.ended⟩, rfl⟩
  · cases ran : loop (pathEndTurn st.cwdPath) fuel 0 with
    | none =>
      rw [ran] at returned
      cases returned
    | some terminator =>
      obtain rfl := loop_deterministic ran (holds.pathEnd (Nat.zero_le _) (Nat.lt_succ_self _))
      rw [ran] at returned
      cases returned
      have place := pathBackPlace_le st.cwdPath text.length
      refine ⟨fun other member => ?_, ⟨pathBackPlace st.cwdPath text.length, by omega, ?_⟩, rfl⟩
      · rw [List.mem_singleton.mp member]
        omega
      · rw [pathBack_eq]
        exact @putBytes_inside st.cwdPath (pathBackPlace st.cwdPath text.length) 0 [0] (Nat.succ_pos 0)

/-- One call keeps the writes inside the array exactly when a directory that is entered fits. -/
theorem PathStep.inside_iff (step : PathStep state call next) (inside : PathInside state)
    (clean : state.1.fatCacheDirty = false) :
    (PathInside next ↔ PathFits state call) ∧ next.1.fatCacheDirty = false := by
  obtain ⟨inside, index, low, zero⟩ := inside
  have holds := holdsText_of_zero zero low
  cases step with
  | openDir returned =>
    obtain ⟨exit, clean'⟩ := fatOpenDirPlaces_exit clean returned
    refine ⟨Iff.trans ⟨fun all => ?_, fun both => ?_⟩ (exit.inside_iff holds), clean'⟩
    · exact ⟨fun place member => all.inside place (List.mem_append_right _ member), all.terminated⟩
    · exact ⟨List.forall_mem_append.mpr ⟨inside, both.1⟩, both.2⟩
  | cdBack returned =>
    obtain ⟨places, terminated, same⟩ := fatCdBackPlaces_inside holds returned
    exact ⟨iff_of_true ⟨List.forall_mem_append.mpr ⟨inside, places⟩, terminated⟩ trivial, same.trans clean⟩
  | @cdRoot st written =>
    refine ⟨iff_of_true ⟨List.forall_mem_append.mpr ⟨inside, by simp⟩, 0, by decide, ?_⟩ trivial, clean⟩
    exact @putBytes_inside st.cwdPath 0 0 [0] (Nat.succ_pos 0)

/-- In every run whose entered directories fit, every write to the path lies inside its 256
bytes and the path stays terminated; the first directory that does not fit breaks it. -/
theorem path_bounded (clean : st.fatCacheDirty = false) (terminated : ∃ index < 256, st.cwdPath index = 0)
    (run : Run PathStep PathFits (st, []) calls (st', written)) :
    PathInside (st', written) ∧
      ∀ call next, PathStep (st', written) call next → (PathInside next ↔ PathFits (st', written) call) := by
  have kept : PathInside (st', written) ∧ st'.fatCacheDirty = false := by
    refine run.invariant (fun state : FatState × List Nat => PathInside state ∧ state.1.fatCacheDirty = false) ?_
      ⟨⟨fun _ none => absurd none List.not_mem_nil, terminated⟩, clean⟩
    rintro state call next ⟨inside, clean⟩ fits step
    obtain ⟨iff, clean'⟩ := step.inside_iff inside clean
    exact ⟨iff.mpr fits, clean'⟩
  exact ⟨kept.1, fun call next step => (step.inside_iff kept.1 kept.2).1⟩

theorem dirsIn_le (name : CString) (st : FatState) (cluster : Nat) : dirsIn name st cluster ≤ st.boot.spc := by
  have bound := @List.countP_le_length _ (fun t => (findInSector (Sector.slotIsDirNamed name)
    (ataReadSector st.disk (u32 (st.boot.clusterSector cluster + t)))).isSome) (List.range' 0 st.boot.spc)
  rwa [List.length_range'] at bound

/-- On a volume with one sector per cluster one match is appended. -/
theorem openFits_single (spc : st.boot.spc = 1)
    (fits : (pathText st.cwdPath).length + (name.text.length + 1) < 256) : OpenFits name st := by
  intro count _ _
  have most := dirsIn_le name st (followed st.cwdCluster st count).1
  rw [spc] at most
  have appended := Nat.mul_le_mul_right (name.text.length + 1) most
  omega

/-- A clean cache on the volume with `D`, and a directory to stand in. -/
structure InFolder (cluster : Nat) (st : FatState) : Prop where
  disk : st.disk = folderVolume
  boot : st.boot = sampleBoot
  clean : st.fatCacheDirty = false
  cwd : st.cwdCluster = cluster

theorem mounted_inFolder : InFolder 2 (mounted folderVolume) := by
  obtain ⟨boot, cwd, disk⟩ := mounted_image sampleBoot
    (assigned 0 [(0, 0x0FFFFFF8), (1, 0x0FFFFFFF), (2, 0x0FFFFFFF), (3, 0x0FFFFFFF)])
    (fun cluster _ =>
      if cluster = 2 then createdSlot [0x44] [] 0x10 Sector.zero 0 3
      else if cluster = 3 then dirSector 3 2 else Sector.zero)
  exact ⟨disk, boot, rfl, cwd⟩

/-- Entering the directory behind a slot appends its name once. -/
theorem InFolder.enter (here : InFolder cluster st) (low : cluster < endOfChain)
    (found : findInSector (Sector.slotIsDirNamed name)
      (ataReadSector folderVolume (u32 (sampleBoot.clusterSector cluster))) = some slot)
    (target : (ataReadSector folderVolume (u32 (sampleBoot.clusterSector cluster))).slotCluster slot = next)
    (written : List Nat) :
    ∃ opened, PathStep (st, written) (.openDir name) (opened, written ++ strEndPlaces name st.cwdPath) ∧
      InFolder next opened ∧ opened.cwdPath = strEnd name st.cwdPath := by
  obtain ⟨disk, boot, clean, cwd⟩ := here
  have spc : st.boot.spc = 1 := congrArg FAT32BootSector.spc boot
  rw [← disk, ← boot] at found target
  have turn : openPlacesTurn name (cluster, st) = .leave (strEndPlaces name st.cwdPath, true,
      (fatNextCluster cluster { st with cwdCluster := next, cwdPath := strEnd name st.cwdPath }).2) := by
    simp [openPlacesTurn, spc, Nat.not_le.mpr low, openInSectors, openPlaces, found, target]
  have loaded := ((Loaded.refl clean).moved next (strEnd name st.cwdPath)).next cluster
  have returned : fatOpenDirPlaces 1 name st = some (strEndPlaces name st.cwdPath,
      (fatNextCluster cluster { st with cwdCluster := next, cwdPath := strEnd name st.cwdPath }).2) := by
    rw [fatOpenDirPlaces, cwd, loop_leave turn]
  exact ⟨_, .openDir returned, ⟨loaded.disk.trans disk, loaded.kept.boot.trans boot, loaded.clean,
    loaded.kept.cwdCluster⟩, loaded.kept.cwdPath⟩

theorem InFolder.enterD (here : InFolder 2 st) (written : List Nat) :
    ∃ opened, PathStep (st, written) (.openDir [0x44]) (opened, written ++ strEndPlaces [0x44] st.cwdPath) ∧
      InFolder 3 opened ∧ opened.cwdPath = strEnd [0x44] st.cwdPath :=
  here.enter (by decide) (by decide +kernel : _ = some 0) (by decide +kernel) written

theorem InFolder.enterDot (here : InFolder 3 st) (written : List Nat) :
    ∃ opened, PathStep (st, written) (.openDir [0x2E]) (opened, written ++ strEndPlaces [0x2E] st.cwdPath) ∧
      InFolder 3 opened ∧ opened.cwdPath = strEnd [0x2E] st.cwdPath :=
  here.enter (by decide) (by decide +kernel : _ = some 0) (by decide +kernel) written

theorem InFolder.fits (here : InFolder cluster st) (holds : HoldsText st.cwdPath text)
    (room : text.length + (name.text.length + 1) < 256) (written : List Nat) :
    PathFits (st, written) (.openDir name) := by
  have length : (pathText st.cwdPath).length = text.length := congrArg List.length holds.pathText_eq
  exact openFits_single (congrArg FAT32BootSector.spc here.boot) (length ▸ room)

/-- Entering `.` again and again adds two characters each time. -/
theorem folderVolume_dots (few : count ≤ 126) :
    ∃ st written text, Run PathStep PathFits (mounted folderVolume, [])
        (.openDir [0x44] :: List.replicate count (.openDir [0x2E])) (st, written) ∧
      InFolder 3 st ∧ HoldsText st.cwdPath text ∧ text.length = 3 + 2 * count := by
  induction count with
  | zero =>
    have root := (mounted_tracks folderVolume).path
    obtain ⟨opened, step, inside, path⟩ := mounted_inFolder.enterD []
    have appended := root.strEnd [0x44] (by decide)
    exact ⟨opened, _, _, .next (mounted_inFolder.fits root (by decide) []) step .done, inside, path ▸ appended, rfl⟩
  | succ count ih =>
    obtain ⟨st, written, text, run, inside, holds, length⟩ := ih (by omega)
    obtain ⟨opened, step, inside', path⟩ := inside.enterDot written
    have room : text.length + ((CString.text [0x2E]).length + 1) < 256 := by
      change text.length + 2 < 256
      omega
    have appended := holds.strEnd [0x2E] room
    have last : Run PathStep PathFits (st, written) [.openDir [0x2E]]
        (opened, written ++ strEndPlaces [0x2E] st.cwdPath) :=
      .next (inside.fits holds room written) step .done
    refine ⟨opened, written ++ strEndPlaces [0x2E] st.cwdPath, text ++ (CString.text [0x2E] ++ [0x2F]), ?_, inside',
      path ▸ appended, ?_⟩
    · rw [List.replicate_succ', ← List.cons_append]
      exact run.append last
    · rw [List.length_append, length]
      change 3 + 2 * count + 2 = _
      omega

theorem path_bounded_folderVolume : ∃ st written,
    Run PathStep PathFits (mounted folderVolume, []) (.openDir [0x44] :: List.replicate 126 (.openDir [0x2E]))
        (st, written) ∧
      PathInside (st, written) := by
  obtain ⟨st, written, text, run, _⟩ := folderVolume_dots (Nat.le_refl 126)
  exact ⟨st, written, run, (path_bounded rfl ⟨1, by decide, rfl⟩ run).1⟩

/-- The 127th `cd .` inside `D` writes its slash behind the array. -/
theorem path_overflows :
    (∃ st written, Run PathStep (fun _ _ => True) (mounted folderVolume, [])
        (.openDir [0x44] :: List.replicate 127 (.openDir [0x2E])) (st, written) ∧ 256 ∈ written) ∧
      ¬∀ disk calls st written, Run PathStep (fun _ _ => True) (mounted disk, []) calls (st, written) →
        PathInside (st, written) := by
  obtain ⟨st, written, text, run, inside, holds, length⟩ := folderVolume_dots (Nat.le_refl 126)
  obtain ⟨opened, step, _⟩ := inside.enterDot written
  have free : Run PathStep (fun _ _ => True) (mounted folderVolume, [])
      (.openDir [0x44] :: List.replicate 126 (.openDir [0x2E])) (st, written) :=
    run.imp fun _ _ _ => trivial
  have whole : Run PathStep (fun _ _ => True) (mounted folderVolume, [])
      (.openDir [0x44] :: List.replicate 127 (.openDir [0x2E])) (opened, written ++ strEndPlaces [0x2E] st.cwdPath) := by
    rw [List.replicate_succ', ← List.cons_append]
    exact free.append (.next trivial step .done)
  have outside : 256 ∈ written ++ strEndPlaces [0x2E] st.cwdPath := by
    rw [holds.strEndPlaces, length]
    exact List.mem_append_right _ (by decide)
  refine ⟨⟨_, _, whole, outside⟩, fun always => ?_⟩
  exact absurd ((always _ _ _ _ whole).inside 256 outside) (by decide)

end LivlyOS.Fs
