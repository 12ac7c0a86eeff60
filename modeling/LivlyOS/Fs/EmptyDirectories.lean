import LivlyOS.Fs.CreatedFiles
import LivlyOS.Fs.ParentLink

namespace LivlyOS.Fs

open LivlyOS.Lib

/-- Neither empty nor `.` nor `..`, without a space. -/
def CString.Ordinary (name : CString) : Prop :=
  name.text ≠ [] ∧ 0x20 ∉ name.text ∧ name.text ≠ [0x2E] ∧ name.text ≠ [0x2E, 0x2E]

instance (name : CString) : Decidable name.Ordinary := inferInstanceAs (Decidable (_ ∧ _))

theorem CString.Ordinary.congr {name other : CString} (ordinary : name.Ordinary) (same : other.text = name.text) :
    other.Ordinary := by
  unfold Ordinary
  rw [same]
  exact ordinary

/-- A name without a space that matches a field is the one the field shows, up to the first NUL. -/
theorem strEqualFatFrom_text {field : Bytes} {name : CString} (spaceFree : 0x20 ∉ CString.text (name.drop index))
    (equal : strEqualFatFrom field name remaining index = true) :
    CString.text (((List.range' index remaining).map field).takeWhile (· ≠ 0x20)) = CString.text (name.drop index) := by
  induction remaining generalizing index with
  | zero =>
    rw [strEqualFatFrom, decide_eq_true_eq] at equal
    rw [CString.text_drop, if_pos equal]
    rfl
  | succ remaining ih =>
    rw [strEqualFatFrom] at equal
    rw [List.range'_succ, List.map_cons, List.takeWhile_cons]
    split at equal
    · rename_i ended
      rw [CString.text_drop, if_pos ended.2, ended.1]
      rfl
    · split at equal
      · cases equal
      · rename_i same
        rw [not_not] at same
        rw [CString.text_drop] at spaceFree
        rw [CString.text_drop, same]
        by_cases zero : name.at index = 0
        · rw [if_pos zero, zero]
          rfl
        · rw [if_neg zero] at spaceFree ⊢
          obtain ⟨character, rest⟩ := not_or.mp (List.mem_cons.not.mp spaceFree)
          rw [if_pos (decide_eq_true (Ne.symm character)), CString.text_cons, if_neg zero, ih rest equal]

theorem CString.at_append (before rest : CString) : CString.at (before ++ rest) before.length = rest.getD 0 0 := by
  rw [CString.at, List.getD_append_right _ _ _ _ (Nat.le_refl _), Nat.sub_self]

/-- The name that a field shows matches the field. -/
theorem strEqualFatFrom_shown (field : Bytes) (before : CString) (remaining : Nat) :
    strEqualFatFrom field (before ++ ((List.range' before.length remaining).map field).takeWhile (· ≠ 0x20))
      remaining before.length = true := by
  induction remaining generalizing before with
  | zero =>
    rw [strEqualFatFrom, CString.at_append, decide_eq_true_eq, List.range'_zero, List.map_nil, List.takeWhile_nil,
      List.getD_nil]
  | succ remaining ih =>
    rw [strEqualFatFrom, CString.at_append, List.range'_succ, List.map_cons, List.takeWhile_cons]
    by_cases space : field before.length = 0x20
    · rw [if_pos ⟨space, by rw [space]; rfl⟩]
    · rw [if_pos (decide_eq_true space), if_neg fun ended => space ended.1, List.getD_cons_zero, if_neg (not_not.mpr rfl)]
      have tail := ih (before ++ [field before.length])
      rw [List.length_append, List.length_singleton, List.append_assoc, List.singleton_append] at tail
      exact tail

theorem strEqualFat_shown (field : Bytes) : strEqualFat field (shownField 8 field) = true := by
  have matching := strEqualFatFrom_shown field [] 8
  rwa [List.length_nil, List.nil_append, ← List.range_eq_range'] at matching

/-- A slot matches an ordinary name exactly when it shows one. -/
theorem Sector.matches_ordinary {sector : Sector} : (∃ name : CString, name.Ordinary ∧ sector.slotMatches name slot = true) ↔
    CString.Ordinary (sector.shownName slot) := by
  constructor
  · rintro ⟨name, ordinary, hits⟩
    apply ordinary.congr
    have text := @strEqualFatFrom_text 0 8 (sector.nameByte slot) name ordinary.2.1 hits
    rwa [← List.range_eq_range'] at text
  · intro ordinary
    exact ⟨_, ordinary, strEqualFat_shown (sector.nameByte slot)⟩

/-- No slot of the second and later sectors of a cluster shows an ordinary name. -/
def ClearedBehind (boot : FAT32BootSector) (disk : Disk) (cluster : Nat) : Prop :=
  ∀ s < boot.spc, s ≠ 0 → ∀ slot < 16, ¬CString.Ordinary ((clusterData boot disk cluster s).shownName slot)

/-- No lookup in the current directory finds an ordinary name. -/
def LooksEmpty (st : FatState) : Prop :=
  ∀ name : CString, name.Ordinary → ∃ enough, ∀ fuel, enough ≤ fuel →
    (∃ last, locate fuel name st = some (none, last)) ∧
      ∃ last, loop (openTurn name) fuel (st.cwdCluster, st) = some (false, last)

/-- `.`, `..` and free slots show no ordinary name. -/
theorem dirSector_shown (n parent slot : Nat) : ¬CString.Ordinary ((dirSector n parent).shownName slot) := by
  have shown : (dirSector n parent).shownName slot = shownField 8 (fun index =>
      if slot = 0 then (padField 8 [0x2E]).getD index 0
      else if slot = 1 then (padField 8 [0x2E, 0x2E]).getD index 0 else 0) := by
    unfold Sector.shownName shownField
    rw [List.map_congr_left fun index member => dirSector_nameByte n parent slot (List.mem_range.mp member)]
  rw [shown]
  by_cases first : slot = 0
  · simp only [if_pos first]
    decide
  · by_cases second : slot = 1
    · simp only [if_neg first, if_pos second]
      decide
    · simp only [if_neg first, if_neg second]
      decide

/-- A directory of one cluster looks empty exactly when none of its slots shows an ordinary name. -/
theorem looksEmpty_iff (wf : st.boot.WellFormed) (lagging : Lagging st)
    (chain : FatChain st.boot st.disk st.cwdCluster [st.cwdCluster]) :
    LooksEmpty st ↔ ∀ s < st.boot.spc, ∀ slot < 16,
      ¬CString.Ordinary ((clusterData st.boot st.disk st.cwdCluster s).shownName slot) := by
  constructor
  · intro empty s inside slot below shows
    obtain ⟨name, ordinary, hits⟩ := Sector.matches_ordinary.mpr shows
    obtain ⟨enough, looks⟩ := empty name ordinary
    obtain ⟨⟨last, missed⟩, _⟩ := looks (enough + 1) (Nat.le_succ enough)
    have absent := firstHit_none (locate_result lagging chain missed).1 _ List.mem_cons_self s inside slot below
    rw [hits] at absent
    cases absent
  · intro blank name ordinary
    have never : ∀ cluster ∈ [st.cwdCluster], ∀ s < st.boot.spc, ∀ slot < 16,
        (clusterData st.boot st.disk cluster s).slotMatches name slot = false := by
      intro cluster member s inside slot below
      rw [List.mem_singleton.mp member]
      by_contra hits
      exact blank s inside slot below (Sector.matches_ordinary.mp ⟨name, ordinary, Bool.not_eq_false _ ▸ hits⟩)
    refine ⟨2, fun fuel enough => ?_⟩
    have longer : [st.cwdCluster].length < fuel := enough
    constructor
    · obtain ⟨last, located, _⟩ := locate_eq lagging chain (Nat.le_of_lt longer) name
      cases found : firstHit st.boot st.disk (Sector.slotMatches name) [st.cwdCluster] with
      | none => exact ⟨last, found ▸ located⟩
      | some hit =>
        obtain ⟨cluster, s, place⟩ := firstHit_some found
        obtain ⟨below, hits, _⟩ := findInSector_some place.found
        rw [place.buf, never cluster place.member s place.inside hit.slot below] at hits
        cases hits
    · obtain ⟨last, _, finished⟩ := @openLoop_chain _ _ _ name wf lagging chain longer
      refine ⟨last, ?_⟩
      rw [finished, firstPlace_none]
      · rfl
      · intro cluster member s inside slot below
        rw [Sector.slotIsDirNamed, never cluster member s inside slot below, Bool.and_false]

/-- Behind `fat_create_dir` and `fat_open_dir` the current directory is the new cluster: its first sector
is new, the others hold what they held. -/
theorem newDirectory_sectors {st : FatState} (wf : st.boot.WellFormed) (lagging : Lagging st)
    (directory : FatChain st.boot st.disk st.cwdCluster dirs)
    (created : fatCreateDir fuel name st = some (.created n, made)) (nonzero : n ≠ 0)
    (opened : fatOpenDir fuel' name made = some after) :
    after.boot = st.boot ∧ Lagging after ∧ FatChain st.boot after.disk n [n] ∧ n ∈ freeClusters st.boot st.disk ∧
      (∃ parent, clusterData st.boot after.disk n 0 = dirSector n parent) ∧
      ∀ s < st.boot.spc, s ≠ 0 → clusterData st.boot after.disk n s = clusterData st.boot st.disk n s := by
  obtain ⟨exit, st', finished, duplicate, stored⟩ := fatCreateDir_stores wf lagging directory
    (Nat.lt_succ_self (dirs.length + 1)) name
  cases fatCreateDir_deterministic created finished
  by_cases found : dirs.findSome? (dirDuplicateIn st.boot st.disk name) = some true
  · cases (duplicate found).1
  rcases stored found with full | ⟨other, dirs', current, s, slot, placed, same, entry, rfl⟩
  · cases full.exit
  · cases same
    obtain ⟨data, fresh, _⟩ := entry.entry.taken nonzero
    obtain ⟨stored', first⟩ := entry.initDir wf (.inl data)
    obtain ⟨_, _, last, apart⟩ := stored'.entry.taken nonzero
    obtain ⟨cwd, path, loaded⟩ := fatOpenDir_moves stored'.lagging.clean opened
    have disk : after.disk = (fatInitDirCluster n current placed).disk := loaded.disk
    have boot : after.boot = st.boot := loaded.kept.boot.trans stored'.kept.boot
    rw [disk]
    refine ⟨boot, ?_, .single data last,
      mem_freeClusters.mpr ⟨data, fresh⟩, ⟨current, first nonzero⟩, ?_⟩
    · have moved : Lagging { fatInitDirCluster n current placed with cwdCluster := cwd, cwdPath := path } :=
        ⟨stored'.lagging.clean, stored'.lagging.entries⟩
      exact moved.loaded loaded
    · intro t inside behind
      exact stored'.entry.contents n data apart t inside (.inr behind)

/-- After `mkdir` and `cd` the lookups find no ordinary name exactly when the cluster of the directory showed
none behind its first sector. On a cache that agrees with the disk it is the lowest free one. -/
theorem newDirectory_looksEmpty_iff {st : FatState} (wf : st.boot.WellFormed) (lagging : Lagging st)
    (directory : FatChain st.boot st.disk st.cwdCluster dirs)
    (created : fatCreateDir fuel name st = some (.created n, made)) (nonzero : n ≠ 0)
    (opened : fatOpenDir fuel' name made = some after) (entered : after.cwdCluster = n) :
    (LooksEmpty after ↔ ClearedBehind st.boot st.disk n) ∧ (Coherent st → reservedCluster st dirs = some n) := by
  obtain ⟨boot, lagging', chain, _, ⟨parent, first⟩, others⟩ :=
    newDirectory_sectors wf lagging directory created nonzero opened
  refine ⟨?_, fun coherent => fatCreateDir_reserves wf coherent directory created nonzero⟩
  have looks := @looksEmpty_iff after
  rw [boot, entered] at looks
  rw [looks wf lagging' chain]
  constructor
  · intro blank s inside behind slot below
    rw [← others s inside behind]
    exact blank s inside slot below
  · intro cleared s inside slot below
    by_cases zero : s = 0
    · rw [zero, first]
      exact dirSector_shown n parent slot
    · rw [others s inside zero]
      exact cleared s inside zero slot below

/-- `mkdir D`, `cd D` with one sector for each cluster. -/
theorem newDirectory_looksEmpty_oneFile : ∃ made after, fatCreateDir 3 [0x44] (mounted oneFileVolume) = some (.created 4, made) ∧
    fatOpenDir 3 [0x44] made = some after ∧ after.cwdCluster = 4 ∧ LooksEmpty after := by
  obtain ⟨boot, directory, _⟩ := oneFileVolume_directory
  have wf : (mounted oneFileVolume).boot.WellFormed := by
    rw [boot]
    exact sampleBoot_wellFormed
  have trace : (fatCreateDir 3 [0x44] (mounted oneFileVolume)).bind (fun made =>
      (fatOpenDir 3 [0x44] made.2).map (fun after => (made.1, after.cwdCluster))) = some (.created 4, 4) := by
    decide +kernel
  obtain ⟨⟨exit, made⟩, created, trace⟩ := Option.bind_eq_some_iff.mp trace
  obtain ⟨after, opened, facts⟩ := Option.map_eq_some_iff.mp trace
  obtain ⟨rfl, entered⟩ := Prod.mk.inj facts
  refine ⟨made, after, created, opened, entered, ?_⟩
  have empty := (newDirectory_looksEmpty_iff wf ((mounted_coherent _).lagging wf.layout) directory created
    (by decide) opened entered).1
  apply empty.mpr
  intro s inside behind
  rw [boot] at inside
  have single : sampleBoot.spc = 1 := rfl
  omega

/-- Two sectors for each cluster. -/
def pairBoot : FAT32BootSector := { sampleBoot with sectorsPerCluster := 2 }

/-- The free cluster 3 has been a directory with the file `A` in its second sector. -/
def reusedVolume : Disk :=
  image pairBoot (assigned 0 [(0, 0x0FFFFFF8), (1, 0x0FFFFFFF), (2, 0x0FFFFFFF)])
    (fun cluster s => if cluster = 3 ∧ s = 1 then newSlot [0x41] [] 0x20 Sector.zero 0 else Sector.zero)

/-- `mkdir D`, `cd D` end in a directory with the old file `A`. -/
theorem newDirectory_reused : (mounted reusedVolume).boot.WellFormed ∧ Coherent (mounted reusedVolume) ∧
    FatChain (mounted reusedVolume).boot (mounted reusedVolume).disk (mounted reusedVolume).cwdCluster [2] ∧
    ∃ made after, fatCreateDir 3 [0x44] (mounted reusedVolume) = some (.created 3, made) ∧
      fatOpenDir 3 [0x44] made = some after ∧ after.cwdCluster = 3 ∧ CString.Ordinary [0x41] ∧
      (∃ hit last, locate 3 [0x41] after = some (some hit, last)) ∧ ¬LooksEmpty after := by
  have boot : (mounted reusedVolume).boot = pairBoot := (mounted_image _ _ _).1
  refine ⟨by rw [boot]; exact ⟨by decide, by decide, by decide, by decide, by decide⟩, mounted_coherent _,
    ⟨.last (nextOf_last (by decide +kernel)), by rw [boot]; decide⟩, ?_⟩
  have trace : (fatCreateDir 3 [0x44] (mounted reusedVolume)).bind (fun made =>
      (fatOpenDir 3 [0x44] made.2).bind (fun after => (locate 3 [0x41] after).map (fun located =>
        (made.1, after.cwdCluster, located.1.isSome)))) = some (.created 3, 3, true) := by
    decide +kernel
  obtain ⟨⟨exit, made⟩, created, trace⟩ := Option.bind_eq_some_iff.mp trace
  obtain ⟨after, opened, trace⟩ := Option.bind_eq_some_iff.mp trace
  obtain ⟨⟨found, last⟩, located, facts⟩ := Option.map_eq_some_iff.mp trace
  obtain ⟨rfl, rest⟩ := Prod.mk.inj facts
  obtain ⟨entered, hits⟩ := Prod.mk.inj rest
  obtain ⟨hit, rfl⟩ := Option.isSome_iff_exists.mp hits
  refine ⟨made, after, created, opened, entered, by decide, ⟨hit, last, located⟩, ?_⟩
  intro empty
  obtain ⟨enough, looks⟩ := empty [0x41] (by decide)
  obtain ⟨⟨_, missed⟩, _⟩ := looks enough (Nat.le_refl enough)
  cases loop_deterministic located missed

end LivlyOS.Fs
