import LivlyOS.Fs.PathTracking
import LivlyOS.Fs.UniqueNames

namespace LivlyOS.Fs

open LivlyOS.Lib

/-- A stored name matches exactly when it is stored in full. -/
theorem strEqualFat_padField (name : CString) :
    strEqualFat (fun index => (padField 8 name).getD index 0) name = true ↔ name.text.length ≤ 8 := by
  have from_iff : ∀ remaining index, index + remaining = 8 → index ≤ name.text.length →
      (strEqualFatFrom (fun index => (padField 8 name).getD index 0) name remaining index = true ↔
        name.text.length ≤ 8) := by
    intro remaining
    induction remaining with
    | zero =>
      intro index total within
      rw [strEqualFatFrom, decide_eq_true_eq]
      constructor
      · intro ended
        by_contra longer
        have character := CString.text_at (by omega : index < name.text.length)
        exact character.2 ended
      · intro short
        have same : index = name.text.length := by omega
        rw [same, name.text_end]
    | succ remaining ih =>
      intro index total within
      rw [strEqualFatFrom]
      rcases Nat.lt_or_eq_of_le within with inside | rfl
      · have character := CString.text_at inside
        have stored : (padField 8 name).getD index 0 = name.at index := by
          rw [padField_text, List.getD_append _ _ _ _ (by simp; omega), character.1,
            List.getD_eq_getElem _ _ (by simp; omega), List.getD_eq_getElem _ _ inside, List.getElem_take]
        rw [if_neg (fun both : _ ∧ _ => character.2 both.2), if_neg (not_not_intro stored)]
        exact ih (index + 1) (by omega) inside
      · have space : (padField 8 name).getD name.text.length 0 = 0x20 := by
          have short : (name.text.take 8).length = name.text.length := by
            rw [List.length_take]
            omega
          rw [padField_text, List.getD_append_right _ _ _ _ (by omega), short, Nat.sub_self,
            List.getD_eq_getElem _ _ (by simp; omega), List.getElem_replicate]
        rw [if_pos ⟨space, name.text_end⟩]
        exact iff_of_true rfl (by omega)
  exact from_iff 8 0 rfl (Nat.zero_le _)

theorem createdSlot_matches_iff (name ext : CString) (attributes : UInt8) (buf : Sector) (cluster : Nat)
    (inside : slot < 16) :
    (createdSlot name ext attributes buf slot cluster).slotMatches name slot = true ↔ name.text.length ≤ 8 := by
  rw [Sector.slotMatches, strEqualFat_congr (fun index below =>
    createdSlot_nameByte name ext attributes buf cluster inside below), strEqualFat_padField]

section Search

variable {wanted : Sector → Nat → Bool}

theorem firstPlace_some (found : firstPlace boot disk wanted dirs = some (cluster, hit)) :
    ∃ s, HitIn boot disk wanted dirs hit cluster s := by
  obtain ⟨other, member, here⟩ := List.exists_of_findSome?_eq_some found
  obtain ⟨hit', found', same⟩ := Option.map_eq_some_iff.mp here
  cases same
  obtain ⟨s, _, inside, lba, buf, slot⟩ := findInSectors_some found'
  exact ⟨s, member, by omega, lba, by rw [buf, lba]; rfl, slot⟩

theorem firstPlace_none (never : ∀ cluster ∈ dirs, ∀ t < boot.spc, ∀ slot < 16,
    wanted (clusterData boot disk cluster t) slot = false) : firstPlace boot disk wanted dirs = none := by
  by_contra some
  obtain ⟨⟨cluster, hit⟩, found⟩ := Option.ne_none_iff_exists'.mp some
  obtain ⟨s, place⟩ := firstPlace_some found
  obtain ⟨below, hits, _⟩ := findInSector_some place.found
  rw [place.buf, never cluster place.member s place.inside _ below] at hits
  cases hits

theorem firstPlace_single (member : cluster ∈ dirs) (inside : s < boot.spc) (below : slot < 16)
    (hits : wanted (clusterData boot disk cluster s) slot = true)
    (only : ∀ other ∈ dirs, ∀ t < boot.spc, ∀ slot' < 16, wanted (clusterData boot disk other t) slot' = true →
      other = cluster ∧ t = s ∧ slot' = slot) :
    firstPlace boot disk wanted dirs =
      some (cluster, ⟨boot.clusterLba cluster s, clusterData boot disk cluster s, slot⟩) := by
  cases found : firstPlace boot disk wanted dirs with
  | none =>
    have missing := Option.map_eq_none_iff.mp (List.findSome?_eq_none_iff.mp found cluster member)
    have never := findInSectors_absent missing s (Nat.zero_le s) (by omega) slot below
    exact absurd (hits.symm.trans never) (by decide)
  | some place =>
    obtain ⟨other, hit⟩ := place
    obtain ⟨t, there⟩ := firstPlace_some found
    obtain ⟨below', hits', _⟩ := findInSector_some there.found
    rw [there.buf] at hits'
    obtain ⟨rfl, rfl, slot'⟩ := only other there.member t there.inside _ below' hits'
    obtain ⟨lba, buf, _⟩ := hit
    cases slot'
    cases there.lba
    cases there.buf
    rfl

end Search

/-- The end of `fat_open_dir` in the first cluster with a directory of the name. -/
def entered (name : CString) (st : FatState) (place : Nat × Hit) (last : FatState) : Bool × FatState :=
  (true, (fatNextCluster place.1
    (openInSectors name (st.boot.clusterSector place.1) st.boot.spc 0 false last).2).2)

theorem openLoop_chain (wf : st.boot.WellFormed) (lagging : Lagging st)
    (chain : FatChain st.boot st.disk st.cwdCluster dirs) (enough : dirs.length < fuel) :
    ∃ last, Loaded st last ∧ loop (openTurn name) fuel (st.cwdCluster, st) =
      some ((firstPlace st.boot st.disk (Sector.slotIsDirNamed name) dirs).elim (false, last)
        (fun place => entered name st place last)) := by
  have turns : ∀ cluster mid, Loaded st mid → openTurn name (cluster, mid) =
      if endOfChain ≤ cluster then .leave (false, mid)
      else ((findInSectors (Sector.slotIsDirNamed name) st.disk (st.boot.clusterSector cluster) st.boot.spc 0).map
          (fun hit => (cluster, hit))).elim (.again (fatNextCluster cluster mid))
        (fun place => .leave (entered name st place mid)) := by
    intro cluster mid loaded
    rw [openTurn_eq, loaded.disk, loaded.kept.boot]
    cases findInSectors (Sector.slotIsDirNamed name) st.disk (st.boot.clusterSector cluster) st.boot.spc 0 with
    | some hit => rfl
    | none => rfl
  exact scanChain (openTurn name) _ (entered name st) (fun last => (false, last)) lagging turns wf chain
    (.refl lagging.clean) enough

theorem fatOpenDir_none (wf : st.boot.WellFormed) (lagging : Lagging st)
    (chain : FatChain st.boot st.disk st.cwdCluster dirs) (enough : dirs.length < fuel)
    (never : ∀ cluster ∈ dirs, ∀ t < st.boot.spc, ∀ slot < 16,
      (clusterData st.boot st.disk cluster t).slotIsDirNamed name slot = false) :
    ∃ opened, fatOpenDir fuel name st = some opened ∧ Loaded st opened := by
  obtain ⟨last, loaded, finished⟩ := @openLoop_chain _ _ _ name wf lagging chain enough
  rw [firstPlace_none never] at finished
  rw [fatOpenDir, finished]
  exact ⟨_, rfl, loaded.kprintf _⟩

/-- What `fat_open_dir` leaves when it enters the directory of a slot. -/
structure Entered (name : CString) (buf : Sector) (slot : Nat) (st opened : FatState) : Prop where
  disk : opened.disk = st.disk
  boot : opened.boot = st.boot
  cwdCluster : opened.cwdCluster = buf.slotCluster slot
  cwdPath : opened.cwdPath = strEnd name st.cwdPath

/-- The only sector of the cluster with a directory of the name is entered. -/
theorem entered_single (loaded : Loaded st last) (inside : s < st.boot.spc) (below : slot < 16)
    (hits : (clusterData st.boot st.disk cluster s).slotIsDirNamed name slot = true)
    (only : ∀ t < st.boot.spc, ∀ slot' < 16,
      (clusterData st.boot st.disk cluster t).slotIsDirNamed name slot' = true → t = s ∧ slot' = slot) :
    (openInSectors name (st.boot.clusterSector cluster) st.boot.spc 0 false last).1 = true ∧
      Entered name (clusterData st.boot st.disk cluster s) slot st (entered name st (cluster, hit) last).2 := by
  have place : firstPlace st.boot st.disk (Sector.slotIsDirNamed name) [cluster] =
      some (cluster, ⟨st.boot.clusterLba cluster s, clusterData st.boot st.disk cluster s, slot⟩) := by
    refine firstPlace_single (List.mem_singleton_self _) inside below hits ?_
    intro other member t tInside slot' below' hits'
    cases List.mem_singleton.mp member
    exact ⟨rfl, only t tInside slot' below' hits'⟩
  simp only [firstPlace, List.findSome?_cons, List.findSome?_nil] at place
  have found : findInSectors (Sector.slotIsDirNamed name) last.disk (st.boot.clusterSector cluster) st.boot.spc 0 =
      some ⟨st.boot.clusterLba cluster s, clusterData st.boot st.disk cluster s, slot⟩ := by
    rw [loaded.disk]
    cases here : findInSectors (Sector.slotIsDirNamed name) st.disk (st.boot.clusterSector cluster) st.boot.spc 0 with
    | none =>
      rw [here] at place
      cases place
    | some hit' =>
      rw [here] at place
      cases place
      rfl
  have here : ∀ t < st.boot.spc, (findInSector (Sector.slotIsDirNamed name)
      (ataReadSector last.disk (u32 (st.boot.clusterSector cluster + t)))).isSome = true → t = s := by
    intro t tInside some
    rw [loaded.disk] at some
    obtain ⟨slot', found⟩ := Option.isSome_iff_exists.mp some
    obtain ⟨below', hits', _⟩ := findInSector_some found
    exact (only t tInside slot' below' hits').1
  have opens := openInSectors_single name (st.boot.clusterSector cluster) st.boot.spc 0 last
    (fun t t' _ high _ high' some some' =>
      (here t (by omega) some).trans (here t' (by omega) some').symm) found
  have moved := (Loaded.refl loaded.clean).moved ((clusterData st.boot st.disk cluster s).slotCluster slot)
    (strEnd name last.cwdPath)
  have next := moved.next cluster
  rw [entered, opens]
  exact ⟨rfl, next.disk.trans loaded.disk, next.kept.boot.trans loaded.kept.boot, next.kept.cwdCluster,
    next.kept.cwdPath.trans (by rw [loaded.kept.cwdPath])⟩

/-- The only slot of the chain with a directory of the name is entered. -/
theorem fatOpenDir_single (wf : st.boot.WellFormed) (lagging : Lagging st)
    (chain : FatChain st.boot st.disk st.cwdCluster dirs) (enough : dirs.length < fuel) (member : cluster ∈ dirs)
    (inside : s < st.boot.spc) (below : slot < 16)
    (hits : (clusterData st.boot st.disk cluster s).slotIsDirNamed name slot = true)
    (only : ∀ other ∈ dirs, ∀ t < st.boot.spc, ∀ slot' < 16,
      (clusterData st.boot st.disk other t).slotIsDirNamed name slot' = true →
        other = cluster ∧ t = s ∧ slot' = slot) :
    ∃ opened, fatOpenDir fuel name st = some opened ∧
      Entered name (clusterData st.boot st.disk cluster s) slot st opened := by
  obtain ⟨last, loaded, finished⟩ := @openLoop_chain _ _ _ name wf lagging chain enough
  rw [firstPlace_single member inside below hits only] at finished
  have single := @entered_single _ _ s slot cluster name
    ⟨st.boot.clusterLba cluster s, clusterData st.boot st.disk cluster s, slot⟩ loaded inside below hits
    (fun t tInside slot' below' hits' => (only cluster member t tInside slot' below' hits').2)
  refine ⟨_, ?_, single.2⟩
  rw [fatOpenDir, finished]
  rfl

/-- It need not follow a link when the directory lies in the first cluster. -/
theorem fatOpenDir_first (clean : st.fatCacheDirty = false) (start : st.cwdCluster < endOfChain)
    (inside : s < st.boot.spc) (below : slot < 16)
    (hits : (clusterData st.boot st.disk st.cwdCluster s).slotIsDirNamed name slot = true)
    (only : ∀ t < st.boot.spc, ∀ slot' < 16,
      (clusterData st.boot st.disk st.cwdCluster t).slotIsDirNamed name slot' = true → t = s ∧ slot' = slot)
    (enough : 0 < fuel) :
    ∃ opened, fatOpenDir fuel name st = some opened ∧
      Entered name (clusterData st.boot st.disk st.cwdCluster s) slot st opened := by
  obtain ⟨more, rfl⟩ : ∃ more, fuel = more + 1 := ⟨fuel - 1, by omega⟩
  obtain ⟨found, single⟩ := @entered_single st st s slot st.cwdCluster name
    ⟨st.boot.clusterLba st.cwdCluster s, clusterData st.boot st.disk st.cwdCluster s, slot⟩ (.refl clean)
    inside below hits only
  have turn : openTurn name (st.cwdCluster, st) = .leave (entered name st
      (st.cwdCluster, ⟨st.boot.clusterLba st.cwdCluster s, clusterData st.boot st.disk st.cwdCluster s, slot⟩) st) := by
    rw [openTurn, if_neg (Nat.not_le.mpr start)]
    simp only [found, ↓reduceIte, entered]
  refine ⟨_, ?_, single⟩
  rw [fatOpenDir, loop_leave turn]
  rfl

theorem pathEnd_ends (zero : path last = 0) (start : index ≤ last) (enough : last - index < fuel) :
    ∃ terminator, loop (pathEndTurn path) fuel index = some terminator := by
  induction fuel generalizing index with
  | zero => exact absurd enough (Nat.not_lt_zero _)
  | succ fuel ih =>
    by_cases here : path index = 0
    · have leave : pathEndTurn path index = .leave index := if_neg (not_not.mpr here)
      exact ⟨index, loop_leave leave fuel⟩
    · have again : pathEndTurn path index = .again (index + 1) := if_pos here
      rw [loop_again again]
      have before : index ≠ last := fun same => here (same ▸ zero)
      exact ih (by omega) (by omega)

/-- The directory `cd ..` leads to. -/
def backTo (st : FatState) : Nat :=
  if st.cwdCluster = st.boot.rootCluster.toNat then st.cwdCluster else parentOf st

theorem fatCdBack_to (zero : st.cwdPath last = 0) (enough : last < fuel) :
    ∃ back, fatCdBack fuel st = some back ∧ back.cwdCluster = backTo st := by
  rw [fatCdBack, backTo]
  split
  · exact ⟨_, rfl, rfl⟩
  · obtain ⟨terminator, ends⟩ : ∃ terminator, loop (pathEndTurn st.cwdPath) fuel 0 = some terminator :=
      pathEnd_ends zero (Nat.zero_le _) (by omega)
    rw [ends]
    exact ⟨_, rfl, rfl⟩

/-- The appended path is terminated when the path was. -/
theorem strEnd_zero (name : CString) (zero : path last = 0) : ∃ last', strEnd name path last' = 0 := by
  cases found : (List.range 256).find? (fun index => path index = 0) with
  | some index =>
    have written : strEnd name path = putBytes path index (name.text ++ [0x2F, 0]) := by
      rw [strEnd, found]
    refine ⟨index + (name.text.length + 1), ?_⟩
    rw [written, putBytes_inside _ _ (by simp)]
    simp
  | none =>
    have kept : strEnd name path = path := by
      rw [strEnd, found]
    exact ⟨last, by rw [kept]; exact zero⟩

/-- `mkdir name`, `cd name`, `cd ..`. -/
def mkdirCdBack (fuel : Nat) (name : CString) (st : FatState) : Option FatState :=
  (fatCreateDir fuel name st).bind (fun made => (fatOpenDir fuel name made.2).bind (fatCdBack fuel))

/-- They return in the directory with this cluster. -/
def GoesTo (name : CString) (st : FatState) (goal : Nat) : Prop :=
  ∃ enough, ∀ fuel, enough ≤ fuel → ∃ back, mkdirCdBack fuel name st = some back ∧ back.cwdCluster = goal

theorem GoesTo.unique (first : GoesTo name st goal) (second : GoesTo name st goal') : goal = goal' := by
  obtain ⟨enough, returns⟩ := first
  obtain ⟨enough', returns'⟩ := second
  obtain ⟨back, finished, here⟩ := returns _ (Nat.le_max_left enough enough')
  obtain ⟨back', finished', there⟩ := returns' _ (Nat.le_max_right enough enough')
  cases finished.symm.trans finished'
  exact here.symm.trans there

theorem goesTo_of_opened (created : fatCreateDir base name st = some (exit, made)) (more : Nat)
    (opens : ∀ fuel, more ≤ fuel → ∃ opened, fatOpenDir fuel name made = some opened ∧
      opened.cwdPath = path ∧ backTo opened = goal) (zero : path last = 0) : GoesTo name st goal := by
  refine ⟨base + more + last + 1, fun fuel enough => ?_⟩
  obtain ⟨opened, entering, same, target⟩ := opens fuel (by omega)
  obtain ⟨back, leaving, here⟩ := fatCdBack_to (by rw [same]; exact zero : opened.cwdPath last = 0)
    (by omega : last < fuel)
  refine ⟨back, ?_, here.trans target⟩
  rw [mkdirCdBack, fatCreateDir_mono created (by omega), Option.bind_some, entering, Option.bind_some]
  exact leaving

/-- No entry of the directory has the name. -/
def NewName (boot : FAT32BootSector) (disk : Disk) (dirs : List Nat) (name : CString) : Prop :=
  ∀ entry ∈ dirSlots boot disk dirs, entry.1.slotMatches name entry.2 = false

instance : Decidable (NewName boot disk dirs name) := inferInstanceAs (Decidable (∀ _ ∈ _, _))

theorem NewName.unmatched (new : NewName boot disk dirs name) (member : cluster ∈ dirs) (inside : t < boot.spc)
    (below : slot < 16) : (clusterData boot disk cluster t).slotMatches name slot = false :=
  new _ (mem_dirSlots.mpr ⟨below, cluster, member, t, inside, rfl⟩)

theorem duplicateInSectors_match (duplicate : duplicateInSectors name disk sektor count s = .duplicate) :
    ∃ t, s ≤ t ∧ t < s + count ∧
      duplicateInSector name (ataReadSector disk (u32 (sektor + t))) = .duplicate := by
  induction count generalizing s with
  | zero => cases duplicate
  | succ count ih =>
    rw [duplicateInSectors] at duplicate
    split at duplicate
    · obtain ⟨t, low, high, found⟩ := ih duplicate
      exact ⟨t, by omega, by omega, found⟩
    · exact ⟨s, Nat.le_refl s, by omega, duplicate⟩

/-- The check of `fat_create_dir` lets a new name through. -/
theorem NewName.no_duplicate (new : NewName boot disk dirs name) :
    dirs.findSome? (dirDuplicateIn boot disk name) ≠ some true := by
  intro found
  obtain ⟨cluster, member, here⟩ := List.exists_of_findSome?_eq_some found
  have duplicate : duplicateInSectors name disk (boot.clusterSector cluster) boot.spc 0 = .duplicate := by
    rw [dirDuplicateIn] at here
    split at here
    · assumption
    · cases here
    · cases here
  obtain ⟨t, _, inside, sector⟩ := duplicateInSectors_match duplicate
  obtain ⟨slot, below, _, hits⟩ := duplicateInSector_match sector
  have missing := new.unmatched member (by omega : t < boot.spc) below
  rw [clusterData, FAT32BootSector.clusterLba, hits] at missing
  cases missing

theorem Sector.slotIsDirNamed_iff {sector : Sector} : sector.slotIsDirNamed name slot = true ↔
    sector.attributes slot = 0x10 ∧ sector.slotMatches name slot = true := by
  rw [Sector.slotIsDirNamed, Bool.and_eq_true, decide_eq_true_eq]

/-- The new directory is entered by its name when the name is stored in full. -/
theorem EntryStored.slotIsDirNamed_iff
    (entry : EntryStored boot disk disk' first dirs dirs' name [] 0x10 n owner s slot) :
    (clusterData boot disk' owner s).slotIsDirNamed name slot = true ↔ name.text.length ≤ 8 := by
  rw [Sector.slotIsDirNamed_iff, entry.sector, createdSlot_attributes _ _ _ _ _ entry.below,
    createdSlot_matches_iff _ _ _ _ _ entry.below]
  exact and_iff_right rfl

theorem EntryStored.only_dir (new : NewName boot disk dirs name)
    (entry : EntryStored boot disk disk' first dirs dirs' name [] 0x10 n owner s slot) (member : cluster ∈ dirs')
    (inside : t < boot.spc) (below : slot' < 16)
    (hits : (clusterData boot disk' cluster t).slotIsDirNamed name slot' = true) :
    cluster = owner ∧ t = s ∧ slot' = slot := by
  by_contra other
  obtain ⟨directory, named⟩ := Sector.slotIsDirNamed_iff.mp hits
  have same := entry.sameSlot member inside other
  rw [same.attributes] at directory
  rw [same.slotMatches] at named
  rw [sectorBefore] at directory named
  split at named
  · rename_i inDirs
    rw [new.unmatched inDirs inside below] at named
    cases named
  · rename_i outside
    rw [if_neg outside, Sector.attributes, Sector.bytes_zero] at directory
    cases directory

/-- `cd ..` from the directory itself leads back to it: it is the root, or its own
parent by the second slot of its first sector, which the new entry must not take. -/
def OwnParent (st : FatState) (dirs : List Nat) : Prop :=
  st.cwdCluster = st.boot.rootCluster.toNat ∨
    (parentOf st = st.cwdCluster ∧ ∀ hit,
      firstPlace st.boot st.disk Sector.slotFree dirs = some (st.cwdCluster, hit) →
        hit.lba = st.boot.clusterLba st.cwdCluster 0 → hit.slot ≠ 1)

/-- Either the new directory can be entered and its entry stands in the first cluster of
the current directory, or it cannot be entered and `cd ..` does not leave. -/
def ReturnsHome (st : FatState) (dirs : List Nat) (name : CString) : Prop :=
  (name.text.length ≤ 8 ∧ ∃ hit,
      firstPlace st.boot st.disk Sector.slotFree dirs = some (st.cwdCluster, hit)) ∨
    (((8 < name.text.length ∧ DirRoom st dirs) ∨
        (firstPlace st.boot st.disk Sector.slotFree dirs = none ∧ freeClusters st.boot st.disk = ∅)) ∧
      OwnParent st dirs)

theorem StoredAt.small (place : StoredAt st dirs n current s slot) (wf : st.boot.WellFormed) :
    n < 4294967296 := by
  have bound := wf.totalClusters_lt
  by_cases none : n = 0
  · omega
  · exact Nat.lt_trans (place.data none).2 (by omega)

section Home

variable {st : FatState} {dirs : List Nat} {name : CString} (wf : st.boot.WellFormed)
  (zero : st.cwdPath last = 0) (new : NewName st.boot st.disk dirs name)
include wf zero new

/-- The directory has no room: nothing is entered. -/
theorem goesTo_noRoom (lagging : Lagging st) (directory : FatChain st.boot st.disk st.cwdCluster dirs)
    (full : NoRoom st dirs (exit, made))
    (created : fatCreateDir base name st = some (exit, made)) : GoesTo name st (backTo st) := by
  have loaded := full.loaded
  have boot := loaded.kept.boot
  have disk := loaded.disk
  have cwd := loaded.kept.cwdCluster
  have path := loaded.kept.cwdPath
  simp only at boot disk cwd path
  refine goesTo_of_opened created (dirs.length + 1) (fun fuel enough => ?_) zero
  obtain ⟨opened, entering, after⟩ := @fatOpenDir_none made dirs fuel name (by rw [boot]; exact wf)
    (lagging.loaded loaded) (by rw [boot, disk, cwd]; exact directory) (by omega) (by
      rw [boot, disk]
      intro cluster member t inside slot below
      rw [Sector.slotIsDirNamed, new.unmatched member inside below, Bool.and_false])
  refine ⟨opened, entering, after.kept.cwdPath.trans path, ?_⟩
  rw [backTo, backTo, parentOf, parentOf, after.kept.cwdCluster, after.kept.boot, after.disk, boot, disk, cwd]

variable (created : CreatedIn st placed dirs dirs' name [] 0x10 n current s slot)
  (finished : fatCreateDir base name st = some (exit, fatInitDirCluster n current placed))
include created finished

/-- A name that is not stored in full: nothing is entered. -/
theorem goesTo_long (inits : InitsAt st.boot n) (long : 8 < name.text.length) :
    GoesTo name st (backTo (fatInitDirCluster n current placed)) := by
  obtain ⟨after, _⟩ := created.initDir wf inits
  have boot := after.kept.boot
  have cwd := after.kept.cwdCluster
  refine goesTo_of_opened finished (dirs'.length + 1) (fun fuel enough => ?_) zero
  obtain ⟨opened, entering, loaded⟩ := @fatOpenDir_none _ dirs' fuel name (by rw [boot]; exact wf) after.lagging
    (by rw [boot, cwd]; exact after.entry.chain) (by omega) (by
      rw [boot]
      intro cluster member t inside slot' below
      by_contra hits
      rw [Bool.not_eq_false] at hits
      obtain ⟨rfl, rfl, rfl⟩ := after.entry.only_dir new member inside below hits
      have short := after.entry.slotIsDirNamed_iff.mp hits
      omega)
  refine ⟨opened, entering, loaded.kept.cwdPath.trans after.kept.cwdPath, ?_⟩
  rw [backTo, backTo, parentOf, parentOf, loaded.kept.cwdCluster, loaded.kept.boot, loaded.disk]

variable (root : FatChain st.boot st.disk st.boot.rootCluster.toNat roots)

omit zero new finished in
include root in
/-- From the new directory `cd ..` leads to the cluster its entry stands in. -/
theorem backTo_entered (entered : Entered name (clusterData st.boot placed.disk current s) slot
    (fatInitDirCluster n current placed) opened) : backTo opened = current := by
  have boot := created.kept.boot
  have entry := created.entry
  have bound := wf.totalClusters_lt
  have here : opened.cwdCluster = n := by
    rw [entered.cwdCluster, entry.sector, createdSlot_cluster _ _ _ _ entry.below (created.place.small wf)]
  have away : n ≠ st.boot.rootCluster.toNat := by
    intro same
    have first := root.chain.first_mem
    have low := (root.data _ first).1
    exact root.entry_ne_zero first (same ▸ (entry.taken (by omega)).2.1)
  have data := entry.chain.data current entry.member
  have sector : ataReadSector opened.disk (opened.boot.clusterSector opened.cwdCluster) = dirSector n current := by
    rw [here, entered.disk, entered.boot, fatInitDirCluster]
    exact ataReadSector_same _ _ rfl
  have parent : (dirSector n current).slotCluster 1 = current := by
    rw [dirSector_eq]
    exact Sector.setLink_cluster _ _ (by decide) (Nat.lt_trans data.2 (by omega))
  have low := data.1
  rw [backTo, parentOf, sector, parent, here, entered.boot, fatInitDirCluster, boot, if_neg away, if_neg (by omega)]

omit zero new finished in
/-- The sectors of the directory do not depend on the first sector of the new one. -/
theorem initDir_sectors (member : cluster ∈ dirs') (inside : t < st.boot.spc) :
    clusterData st.boot (fatInitDirCluster n current placed).disk cluster t =
      clusterData st.boot placed.disk cluster t := by
  rw [fatInitDirCluster, created.kept.boot]
  exact clusterData_initDir_other wf _ _ created.place.data (created.entry.chain.data cluster member)
    (created.entry.apart cluster member) inside

/-- A name that is stored in full: the new directory is entered. -/
theorem goesTo_short (root : FatChain st.boot st.disk st.boot.rootCluster.toNat roots)
    (inits : InitsAt st.boot n) (short : name.text.length ≤ 8) : GoesTo name st current := by
  obtain ⟨after, _⟩ := created.initDir wf inits
  have boot := after.kept.boot
  have cwd := after.kept.cwdCluster
  obtain ⟨last', zero'⟩ := strEnd_zero name zero
  refine goesTo_of_opened finished (dirs'.length + 1) (fun fuel enough => ?_) zero'
  obtain ⟨opened, entering, entered⟩ := @fatOpenDir_single _ dirs' fuel current s slot name
    (by rw [boot]; exact wf) after.lagging (by rw [boot, cwd]; exact after.entry.chain) (by omega)
    after.entry.member (by rw [boot]; exact after.entry.inside) after.entry.below
    (by rw [boot]; exact after.entry.slotIsDirNamed_iff.mpr short) (by
      rw [boot]
      intro other member t inside slot' below hits
      exact after.entry.only_dir new member inside below hits)
  rw [boot, initDir_sectors wf created created.entry.member created.entry.inside] at entered
  exact ⟨opened, entering, entered.cwdPath.trans (by rw [after.kept.cwdPath]),
    backTo_entered wf created root entered⟩

/-- When the entry stands in the first cluster no link is followed. -/
theorem goesTo_short_first (root : FatChain st.boot st.disk st.boot.rootCluster.toNat roots)
    (first : current = st.cwdCluster) (short : name.text.length ≤ 8) : GoesTo name st current := by
  have boot : (fatInitDirCluster n current placed).boot = st.boot := created.kept.boot
  have cwd : (fatInitDirCluster n current placed).cwdCluster = current := created.kept.cwdCluster.trans first.symm
  have entry := created.entry
  have sectors : ∀ t < st.boot.spc, clusterData st.boot (fatInitDirCluster n current placed).disk current t =
      clusterData st.boot placed.disk current t :=
    fun t inside => initDir_sectors wf created entry.member inside
  obtain ⟨last', zero'⟩ := strEnd_zero name zero
  refine goesTo_of_opened finished 1 (fun fuel enough => ?_) zero'
  have start : (fatInitDirCluster n current placed).cwdCluster < endOfChain := by
    rw [cwd]
    exact data_lt_endOfChain wf (entry.chain.data current entry.member)
  have inside : s < (fatInitDirCluster n current placed).boot.spc := by
    rw [boot]
    exact entry.inside
  have clean : (fatInitDirCluster n current placed).fatCacheDirty = false := created.lagging.clean
  have hits : (clusterData (fatInitDirCluster n current placed).boot (fatInitDirCluster n current placed).disk
      (fatInitDirCluster n current placed).cwdCluster s).slotIsDirNamed name slot = true := by
    rw [boot, cwd, sectors s entry.inside]
    exact entry.slotIsDirNamed_iff.mpr short
  obtain ⟨opened, entering, entered⟩ := fatOpenDir_first clean start inside entry.below hits
    (by
      rw [boot, cwd]
      intro t inside slot' below hits
      rw [sectors t inside] at hits
      exact (entry.only_dir new entry.member inside below hits).2) enough
  rw [boot, cwd, sectors s entry.inside] at entered
  exact ⟨opened, entering, entered.cwdPath.trans (by rw [fatInitDirCluster, created.kept.cwdPath]),
    backTo_entered wf created root entered⟩

omit zero new finished in
/-- The second slot of the current directory after the new entry is stored. -/
theorem backTo_stored (inits : InitsAt st.boot n) (directory : FatChain st.boot st.disk st.cwdCluster dirs) :
    backTo (fatInitDirCluster n current placed) = st.cwdCluster ↔ OwnParent st dirs := by
  obtain ⟨after, _⟩ := created.initDir wf inits
  have boot := after.kept.boot
  have cwd := after.kept.cwdCluster
  have entry := after.entry
  have here := directory.chain.first_mem
  have present : st.cwdCluster ∈ dirs' := entry.chain.chain.first_mem
  rw [backTo, OwnParent, boot, cwd]
  by_cases atRoot : st.cwdCluster = st.boot.rootCluster.toNat
  · rw [if_pos atRoot]
    exact iff_of_true rfl (.inl atRoot)
  rw [if_neg atRoot]
  have reads : ∀ disk, ataReadSector disk (st.boot.clusterSector st.cwdCluster) =
      clusterData st.boot disk st.cwdCluster 0 := by
    intro disk
    rw [clusterData, st.boot.clusterLba_zero]
  by_cases taken : st.cwdCluster = current ∧ 0 = s ∧ 1 = slot
  · -- the new entry stands where the parent is read
    obtain ⟨own, rfl, rfl⟩ := taken
    have cluster : (clusterData st.boot (fatInitDirCluster n current placed).disk st.cwdCluster 0).slotCluster 1 =
        n := by
      rw [own, entry.sector]
      exact createdSlot_cluster _ _ _ _ (by decide) (after.place.small wf)
    refine iff_of_false (fun home => ?_) ?_
    · rw [parentOf, boot, cwd, reads, cluster] at home
      split at home
      · exact atRoot home.symm
      · rename_i some
        exact directory.entry_ne_zero here (home ▸ (entry.taken some).2.1)
    · rintro (away | ⟨_, kept⟩)
      · exact atRoot away
      · cases found : firstPlace st.boot st.disk Sector.slotFree dirs with
        | none => exact after.place.absent found (own ▸ here)
        | some place =>
          obtain ⟨owner, hit⟩ := place
          obtain ⟨same, _, lba, number⟩ := after.place.found owner hit found
          rw [← same, ← own] at found
          exact kept hit found (by rw [lba, own]) number
  · have same := entry.sameSlot present wf.spc_pos taken
    rw [sectorBefore, if_pos here] at same
    have parent : parentOf (fatInitDirCluster n current placed) = parentOf st := by
      rw [parentOf, parentOf, boot, cwd, reads, reads, same.slotCluster]
    rw [parent]
    constructor
    · intro home
      refine .inr ⟨home, fun hit found lba slot' => taken ?_⟩
      obtain ⟨owner, _, place, number⟩ := after.place.found _ hit found
      rw [lba, owner] at place
      have data := directory.data _ here
      exact ⟨owner.symm, (wf.clusterLba_inj data data wf.spc_pos entry.inside place).2, slot'.symm.trans number⟩
    · rintro (away | ⟨home, _⟩)
      · exact absurd away atRoot
      · exact home

end Home

/-- After `mkdir`, `cd` and `cd ..` with a new name the current directory is the one
before under the condition, and on a coherent cache with room for the directory only
then. -/
theorem mkdirCdBack_home {st : FatState} {dirs roots : List Nat} {name : CString} {last : Nat}
    (wf : st.boot.WellFormed) (lagging : Lagging st)
    (directory : FatChain st.boot st.disk st.cwdCluster dirs)
    (root : FatChain st.boot st.disk st.boot.rootCluster.toNat roots) (zero : st.cwdPath last = 0)
    (new : NewName st.boot st.disk dirs name) :
    (ReturnsHome st dirs name → GoesTo name st st.cwdCluster) ∧
      (Coherent st → DirRoom st dirs → GoesTo name st st.cwdCluster → ReturnsHome st dirs name) := by
  have here := directory.chain.first_mem
  obtain ⟨exit, st', finished, _, stored⟩ := fatCreateDir_stores wf lagging directory
    (Nat.lt_succ_self (dirs.length + 1)) name
  rcases stored new.no_duplicate with full | ⟨n, dirs', current, s, slot, placed, _, created, rfl⟩
  · -- there is no room
    have goes := goesTo_noRoom wf zero new lagging directory full finished
    have own : backTo st = st.cwdCluster ↔ OwnParent st dirs := by
      rw [backTo, OwnParent, full.absent]
      split
      · rename_i atRoot
        exact iff_of_true rfl (.inl atRoot)
      · rename_i away
        constructor
        · exact fun home => .inr ⟨home, nofun⟩
        · rintro (atRoot | ⟨home, _⟩)
          · exact absurd atRoot away
          · exact home
    constructor
    · rintro (⟨_, hit, found⟩ | ⟨_, home⟩)
      · rw [full.absent] at found
        cases found
      · rw [own.mpr home] at goes
        exact goes
    · intro coherent _ home
      exact .inr ⟨.inr ⟨full.absent, (coherent.visibleFree wf.layout).symm.trans full.none⟩, own.mp (goes.unique home)⟩
  · -- an entry is stored in the cluster `current`
    have place := created.place
    have grown : firstPlace st.boot st.disk Sector.slotFree dirs = none →
        freeClusters st.boot st.disk ≠ ∅ := by
      intro absent
      rcases created.entry.within current created.entry.member with inDirs | free
      · exact absurd inDirs (place.absent absent)
      · have data := created.entry.chain.data current created.entry.member
        exact Finset.ne_empty_of_mem (mem_freeClusters.mpr ⟨data, free⟩)
    constructor
    · rintro (⟨short, hit, found⟩ | ⟨⟨long, room⟩ | ⟨absent, none⟩, home⟩)
      · have first := (place.found _ hit found).1
        have goes := goesTo_short_first wf zero new created finished root first short
        rw [first] at goes
        exact goes
      · have goes := goesTo_long wf zero new created finished (place.initsAt room) long
        rw [(backTo_stored wf created (place.initsAt room) directory).mpr home] at goes
        exact goes
      · exact absurd none (grown absent)
    · intro _ room home
      have inits := place.initsAt room
      rcases Nat.lt_or_ge 8 name.text.length with long | short
      · have goes := goesTo_long wf zero new created finished inits long
        exact .inr ⟨.inl ⟨long, room⟩, (backTo_stored wf created inits directory).mp (goes.unique home)⟩
      · have goes := goesTo_short wf zero new created finished root inits short
        have same := goes.unique home
        left
        refine ⟨short, ?_⟩
        cases found : firstPlace st.boot st.disk Sector.slotFree dirs with
        | none => exact absurd (same ▸ here) (place.absent found)
        | some place' =>
          obtain ⟨owner, hit⟩ := place'
          have first := (place.found owner hit found).1
          exact ⟨hit, by rw [← first, same]⟩

theorem mkdirCdBack_home_oneFile :
    (ReturnsHome (mounted oneFileVolume) [2] [0x44] ↔
        GoesTo [0x44] (mounted oneFileVolume) (mounted oneFileVolume).cwdCluster) ∧
      GoesTo [0x44] (mounted oneFileVolume) (mounted oneFileVolume).cwdCluster := by
  obtain ⟨boot, directory, _⟩ := oneFileVolume_directory
  have cwd : (mounted oneFileVolume).cwdCluster = 2 := (mounted_image _ _ _).2.1
  have root : FatChain (mounted oneFileVolume).boot (mounted oneFileVolume).disk
      (mounted oneFileVolume).boot.rootCluster.toNat [2] := directory
  have wf : (mounted oneFileVolume).boot.WellFormed := by
    rw [boot]
    exact sampleBoot_wellFormed
  have coherent := mounted_coherent oneFileVolume
  have room : DirRoom (mounted oneFileVolume) [2] := .inr (by decide +kernel)
  have place : (firstPlace (mounted oneFileVolume).boot (mounted oneFileVolume).disk Sector.slotFree [2]).map
      Prod.fst = some 2 := by
    decide +kernel
  obtain ⟨⟨owner, hit⟩, found, same⟩ := Option.map_eq_some_iff.mp place
  cases same
  have home : ReturnsHome (mounted oneFileVolume) [2] [0x44] := .inl ⟨by decide, hit, by rw [cwd]; exact found⟩
  have zero : (mounted oneFileVolume).cwdPath 1 = 0 := rfl
  have law := mkdirCdBack_home wf (coherent.lagging wf.layout) directory root zero
    (by decide +kernel : NewName (mounted oneFileVolume).boot (mounted oneFileVolume).disk [2] [0x44])
  exact ⟨⟨law.1, law.2 coherent room⟩, law.1 home⟩

/-- A root directory of the clusters 2 and 3, the first of them full. -/
def fullClusterVolume : Disk :=
  image sampleBoot (assigned 0 [(0, 0x0FFFFFF8), (1, 0x0FFFFFFF), (2, 3), (3, 0x0FFFFFFF)])
    (fun cluster _ => if cluster = 2 then (fun _ => 0x41) else Sector.zero)

/-- `mkdir D`, `cd D`, `cd ..` from the root end in its second cluster. -/
theorem mkdirCdBack_fullCluster :
    (mounted fullClusterVolume).boot.WellFormed ∧ (mounted fullClusterVolume).cwdCluster = 2 ∧
      FatChain (mounted fullClusterVolume).boot (mounted fullClusterVolume).disk 2 [2, 3] ∧
      NewName (mounted fullClusterVolume).boot (mounted fullClusterVolume).disk [2, 3] [0x44] ∧
      ∃ back, mkdirCdBack 5 [0x44] (mounted fullClusterVolume) = some back ∧ back.cwdCluster = 3 := by
  have boot : (mounted fullClusterVolume).boot = sampleBoot := (mounted_image _ _ _).1
  refine ⟨by rw [boot]; exact sampleBoot_wellFormed, (mounted_image _ _ _).2.1, ⟨?_, ?_⟩, by decide +kernel, ?_⟩
  · exact .link (nextOf_link (by decide +kernel) (by decide)) (.last (nextOf_last (by decide +kernel)))
  · rw [boot]
    decide
  · exact Option.map_eq_some_iff.mp (by decide +kernel :
      (mkdirCdBack 5 [0x44] (mounted fullClusterVolume)).map FatState.cwdCluster = some 3)

end LivlyOS.Fs
