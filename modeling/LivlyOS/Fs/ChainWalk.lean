import LivlyOS.Fs.Walk
import Mathlib.Data.List.TakeWhile

namespace LivlyOS.Fs

open LivlyOS.Lib

/-- A cluster of a chain and the link the driver reads there. -/
theorem FatChain.follow (chain : FatChain st.boot st.disk first clusters) (lagging : Lagging st)
    (loaded : Loaded st mid) :
    (endOfChain ≤ (fatNextCluster first mid).1 ∧ clusters = [first]) ∨
      ∃ rest, clusters = first :: rest ∧ (fatNextCluster first mid).1 < endOfChain ∧
        FatChain st.boot st.disk (fatNextCluster first mid).1 rest := by
  have boot := loaded.kept.boot
  have disk := loaded.disk
  have follows := Walkable.follow (by rw [boot, disk]; exact chain.walkable) (lagging.loaded loaded)
  rw [boot, disk] at follows
  obtain ⟨walk, data⟩ := chain
  cases walk with
  | last stop =>
    rcases follows with ⟨ended, _⟩ | ⟨_, step⟩
    · exact .inl ⟨ended, rfl⟩
    · rw [stop] at step
      cases step
  | @link _ successor rest other tail =>
    rcases follows with ⟨_, stop⟩ | ⟨going, step⟩
    · rw [stop] at other
      cases other
    · have same := Option.some.inj (step.symm.trans other)
      rw [same] at going ⊢
      exact .inr ⟨rest, rfl, going, tail, fun cluster member => data cluster (List.mem_cons_of_mem _ member)⟩

/-- A loop that leaves at the first cluster with a finding, and behind the last
cluster without one. -/
theorem scanChain_linksRead (turn : Nat × FatState → Turn (Nat × FatState) ρ) (probe : Nat → Option β)
    (done : β → FatState → ρ) (miss : FatState → ρ) (lagging : Lagging st)
    (turns : ∀ cluster mid, Loaded st mid → turn (cluster, mid) =
      if endOfChain ≤ cluster then .leave (miss mid)
      else (probe cluster).elim (.again (fatNextCluster cluster mid)) (fun finding => .leave (done finding mid)))
    (wf : st.boot.WellFormed) (chain : FatChain st.boot st.disk first clusters)
    (start : Loaded st mid) (enough : clusters.length < fuel) :
    loop turn fuel (first, mid) =
      let last := linksRead (clusters.takeWhile fun cluster => (probe cluster).isNone) mid
      some ((clusters.findSome? probe).elim (miss last) (fun finding => done finding last)) := by
  induction clusters generalizing first mid fuel with
  | nil => exact absurd chain.chain.length_pos (Nat.lt_irrefl 0)
  | cons cluster rest ih =>
    obtain ⟨fuel, rfl⟩ : ∃ more, fuel = more + 1 := ⟨fuel - 1, by simp at enough; omega⟩
    obtain ⟨_, same⟩ := chain.chain.cons
    obtain ⟨rfl, -⟩ := List.cons.inj same
    have going := data_lt_endOfChain wf chain.first_data
    have turn := turns cluster mid start
    rw [if_neg (Nat.not_le.mpr going)] at turn
    rw [List.findSome?_cons, List.takeWhile_cons]
    cases here : probe cluster with
    | some finding =>
      rw [here] at turn
      exact loop_leave turn fuel
    | none =>
      rw [here] at turn
      rw [loop_again turn]
      rcases chain.follow lagging start with ⟨stop, alone⟩ | ⟨_, whole, _, tail⟩
      · cases alone
        obtain ⟨fuel, rfl⟩ : ∃ more, fuel = more + 1 := ⟨fuel - 1, by simp at enough; omega⟩
        have last := turns (fatNextCluster cluster mid).1 _ (start.next cluster)
        rw [if_pos stop] at last
        exact loop_leave last fuel
      · cases whole
        exact ih tail (start.next cluster) (by simpa using enough)

theorem scanChain (turn : Nat × FatState → Turn (Nat × FatState) ρ) (probe : Nat → Option β)
    (done : β → FatState → ρ) (miss : FatState → ρ) (lagging : Lagging st)
    (turns : ∀ cluster mid, Loaded st mid → turn (cluster, mid) =
      if endOfChain ≤ cluster then .leave (miss mid)
      else (probe cluster).elim (.again (fatNextCluster cluster mid)) (fun finding => .leave (done finding mid)))
    (wf : st.boot.WellFormed) (chain : FatChain st.boot st.disk first clusters)
    (start : Loaded st mid) (enough : clusters.length < fuel) :
    ∃ last, Loaded st last ∧ loop turn fuel (first, mid) =
      some ((clusters.findSome? probe).elim (miss last) (fun finding => done finding last)) :=
  ⟨_, start.linksRead _, scanChain_linksRead turn probe done miss lagging turns wf chain start enough⟩

theorem takeWhile_absent {probe : Nat → Option β} {clusters : List Nat} (absent : (clusters.findSome? probe).isSome = false) :
    (clusters.takeWhile fun cluster => (probe cluster).isNone) = clusters := by
  rw [Option.isSome_eq_false_iff, Option.isNone_iff_eq_none, List.findSome?_eq_none_iff] at absent
  rw [List.takeWhile_eq_self_iff]
  intro cluster member
  rw [absent cluster member]
  rfl

section Duplicates

variable (boot : FAT32BootSector) (disk : Disk) (name : CString)

/-- The check of `fat_write_file` finds the name in the first sector of a cluster. -/
def fileDuplicateIn (cluster : Nat) : Option Unit :=
  if duplicateInSector name (clusterData boot disk cluster 0) = .duplicate then some () else none

/-- What ends the check of `fat_create_dir` in a cluster: the name or an end mark. -/
def dirDuplicateIn (cluster : Nat) : Option Bool :=
  match duplicateInSectors name disk (boot.clusterSector cluster) boot.spc 0 with
  | .duplicate => some true
  | .endMark => some false
  | .absent => none

end Duplicates

theorem dirDuplicate_getD {dirs : List Nat} :
    (dirs.findSome? (dirDuplicateIn boot disk name)).getD false = true ↔
      dirs.findSome? (dirDuplicateIn boot disk name) = some true := by
  cases dirs.findSome? (dirDuplicateIn boot disk name) <;> simp

section Walk

variable (wf : st.boot.WellFormed) (lagging : Lagging st)
  (chain : FatChain st.boot st.disk first clusters)
include wf lagging chain

theorem fileDuplicateLoop (enough : clusters.length < fuel) (name : CString) :
    loop (fileDuplicateTurn name) fuel (first, st) =
      some ((clusters.findSome? (fileDuplicateIn st.boot st.disk name)).isSome,
        linksRead (clusters.takeWhile fun cluster => (fileDuplicateIn st.boot st.disk name cluster).isNone) st) := by
  have turns : ∀ cluster mid, Loaded st mid → fileDuplicateTurn name (cluster, mid) =
      if endOfChain ≤ cluster then .leave (false, mid)
      else (fileDuplicateIn st.boot st.disk name cluster).elim (.again (fatNextCluster cluster mid))
        (fun _ => .leave (true, mid)) := by
    intro cluster mid loaded
    rw [fileDuplicateTurn, fileDuplicateIn, clusterData, FAT32BootSector.clusterLba_zero,
      loaded.kept.boot, loaded.disk]
    split
    · rfl
    · split <;> rfl
  refine (scanChain_linksRead (fileDuplicateTurn name)
    (fileDuplicateIn st.boot st.disk name) (fun _ last => (true, last)) (fun last => (false, last))
    lagging turns wf chain (.refl lagging.clean) enough).trans ?_
  cases clusters.findSome? (fileDuplicateIn st.boot st.disk name) <;> rfl

theorem dirDuplicateLoop (enough : clusters.length < fuel) (name : CString) :
    ∃ last, Loaded st last ∧ loop (dirDuplicateTurn name) fuel (first, st) =
      some ((clusters.findSome? (dirDuplicateIn st.boot st.disk name)).getD false, last) := by
  have turns : ∀ cluster mid, Loaded st mid → dirDuplicateTurn name (cluster, mid) =
      if endOfChain ≤ cluster then .leave (false, mid)
      else (dirDuplicateIn st.boot st.disk name cluster).elim (.again (fatNextCluster cluster mid))
        (fun duplicate => .leave (duplicate, mid)) := by
    intro cluster mid loaded
    rw [dirDuplicateTurn, dirDuplicateIn, loaded.kept.boot, loaded.disk]
    split
    · rfl
    · cases duplicateInSectors name st.disk (st.boot.clusterSector cluster) st.boot.spc 0 <;> rfl
  obtain ⟨last, loaded, result⟩ := scanChain (dirDuplicateTurn name)
    (dirDuplicateIn st.boot st.disk name) (fun duplicate last => (duplicate, last))
    (fun last => (false, last)) lagging turns wf chain (.refl lagging.clean) enough
  refine ⟨last, loaded, result.trans ?_⟩
  cases clusters.findSome? (dirDuplicateIn st.boot st.disk name) <;> rfl

end Walk

section Search

variable (boot : FAT32BootSector) (disk : Disk) (wanted : Sector → Nat → Bool)

/-- The first wanted slot along a list of clusters, with its cluster. -/
def firstPlace (clusters : List Nat) : Option (Nat × Hit) :=
  clusters.findSome? (fun cluster =>
    (findInSectors wanted disk (boot.clusterSector cluster) boot.spc 0).map (fun hit => (cluster, hit)))

variable {boot disk wanted}

theorem FatChain.search_found (chain : FatChain boot disk first clusters)
    (found : firstPlace boot disk wanted clusters = some (cluster, hit)) :
    Search boot disk wanted first (.found cluster hit) := by
  obtain ⟨walk, -⟩ := chain
  induction walk with
  | @last current stop =>
    simp only [firstPlace, List.findSome?_cons, List.findSome?_nil] at found
    cases here : findInSectors wanted disk (boot.clusterSector current) boot.spc 0 with
    | none =>
      rw [here] at found
      cases found
    | some place =>
      rw [here] at found
      cases found
      exact .here here
  | @link current _ _ step rest ih =>
    simp only [firstPlace, List.findSome?_cons] at found
    cases here : findInSectors wanted disk (boot.clusterSector current) boot.spc 0 with
    | none =>
      rw [here] at found
      exact .next here step (ih found)
    | some place =>
      rw [here] at found
      cases found
      exact .here here

theorem FatChain.search_absent (chain : FatChain boot disk first clusters)
    (absent : firstPlace boot disk wanted clusters = none) :
    ∃ final, Search boot disk wanted first (.absent final) := by
  obtain ⟨walk, -⟩ := chain
  induction walk with
  | @last current stop =>
    have missing := List.findSome?_eq_none_iff.mp absent current (by simp)
    exact ⟨current, .last (Option.map_eq_none_iff.mp missing) stop⟩
  | @link current _ nodes step rest ih =>
    have missing := List.findSome?_eq_none_iff.mp absent current (by simp)
    obtain ⟨final, search⟩ := ih (List.findSome?_eq_none_iff.mpr
      (fun cluster member => List.findSome?_eq_none_iff.mp absent cluster (List.mem_cons_of_mem _ member)))
    exact ⟨final, .next (Option.map_eq_none_iff.mp missing) step search⟩

/-- The place a search reports. -/
def Outcome.place : Outcome → Option (Nat × Hit)
  | .found cluster hit => some (cluster, hit)
  | .absent _ => none

theorem FatChain.firstPlace_eq (chain : FatChain boot disk first clusters)
    (search : Search boot disk wanted first outcome) :
    firstPlace boot disk wanted clusters = outcome.place := by
  cases found : firstPlace boot disk wanted clusters with
  | some place =>
    rw [search.unique (chain.search_found found)]
    rfl
  | none =>
    obtain ⟨final, missing⟩ := chain.search_absent found
    rw [search.unique missing]
    rfl

end Search

/-- The slot search behind the last cluster: it goes on in a new cluster, or there is none. -/
def placeBehind (fill : Nat → Hit → FatState → CreateExit × FatState) (fullText : String) (final : Nat)
    (st : FatState) : CreateExit × FatState :=
  let extended := fatExtendChain final st
  if endOfChain ≤ extended.1 then (.full, extended.2.kprintf fullText)
  else fill extended.1 ⟨st.boot.clusterLba extended.1 0, Sector.zero, 0⟩ extended.2

section Place

variable (wf : st.boot.WellFormed) (lagging : Lagging st)
  (fill : Nat → Hit → FatState → CreateExit × FatState) (fullText : String)
include wf lagging

/-- With a new cluster one more turn finds its first slot. -/
theorem placeLoop_behind (inRange : final < st.boot.totalClusters + 2) (used : fatEntry st.boot st.disk final ≠ 0)
    (fuel : Nat) :
    (if endOfChain ≤ (fatExtendChain final st).1 then some (.full, (fatExtendChain final st).2.kprintf fullText)
      else loop (placeTurn fill fullText) (fuel + 1) (fatExtendChain final st)) =
      some (placeBehind fill fullText final st) := by
  have kept := fatExtendChain_kept final st
  unfold placeBehind
  dsimp only
  split
  · rfl
  · rename_i room
    rcases fatExtendChain_lagging lagging wf inRange used with ⟨failed, _⟩ | ⟨_, step⟩
    · rw [failed] at room
      exact absurd (by decide) room
    · have zeroed := findInCluster_zeroed (fatExtendChain final st).2 (fatExtendChain final st).1
        (by rw [kept.boot]; exact wf.spc_pos) (by rw [kept.boot]; exact step.zeroed)
      rw [← kept.boot]
      exact loop_leave (by simp only [placeTurn, zeroed]) _

/-- The slot search of the creating calls ends: in the first cluster with a free slot, or behind
the last one. -/
theorem placeLoop_eq (chain : FatChain st.boot st.disk first clusters) (start : Loaded st mid)
    (ends : clusters.getLast? = some final) (enough : clusters.length + 1 < fuel) :
    ∃ last, Loaded st last ∧
      (firstPlace st.boot st.disk Sector.slotFree clusters = none → last = linksRead clusters mid) ∧
      loop (placeTurn fill fullText) fuel (first, mid) =
      some ((firstPlace st.boot st.disk Sector.slotFree clusters).elim (placeBehind fill fullText final last)
        (fun place => fill place.1 place.2 last)) := by
  induction clusters generalizing first mid fuel with
  | nil => exact absurd chain.chain.length_pos (Nat.lt_irrefl 0)
  | cons cluster rest ih =>
    obtain ⟨fuel, rfl⟩ : ∃ more, fuel = more + 2 := ⟨fuel - 2, by omega⟩
    obtain ⟨_, same⟩ := chain.chain.cons
    obtain ⟨rfl, -⟩ := List.cons.inj same
    have searched : findInCluster Sector.slotFree mid cluster =
        findInSectors Sector.slotFree st.disk (st.boot.clusterSector cluster) st.boot.spc 0 := by
      rw [findInCluster, start.kept.boot, start.disk]
    rw [firstPlace, List.findSome?_cons, ← searched, ← firstPlace]
    cases here : findInCluster Sector.slotFree mid cluster with
    | some hit =>
      have leave : placeTurn fill fullText (cluster, mid) = .leave (fill cluster hit mid) := by
        simp only [placeTurn, here]
      exact ⟨mid, start, fun none => (by cases none), loop_leave leave _⟩
    | none =>
      rcases chain.follow lagging start with ⟨stop, alone⟩ | ⟨_, whole, going, tail⟩
      · obtain rfl : rest = [] := List.tail_eq_of_cons_eq alone
        obtain rfl : cluster = final := Option.some.inj ends
        have loaded := start.next cluster
        have boot := loaded.kept.boot
        have behind := placeLoop_behind (by rw [boot]; exact wf) (lagging.loaded loaded) fill fullText
          (by rw [boot]; exact chain.first_data.2)
          (by rw [boot, loaded.disk]; exact chain.entry_ne_zero chain.chain.first_mem) fuel
        refine ⟨_, loaded, fun _ => rfl, ?_⟩
        by_cases full : endOfChain ≤ (fatExtendChain cluster (fatNextCluster cluster mid).2).1
        · rw [if_pos full] at behind
          exact (loop_leave (by simp only [placeTurn, here, stop, full, ↓reduceIte]) _).trans behind
        · rw [if_neg full] at behind
          exact (loop_again (by simp only [placeTurn, here, stop, full, ↓reduceIte]) _).trans behind
      · cases whole
        have again : placeTurn fill fullText (cluster, mid) = .again (fatNextCluster cluster mid) := by
          simp only [placeTurn, here, Nat.not_le.mpr going, ↓reduceIte]
        rw [loop_again again]
        rw [List.getLast?_cons_of_ne_nil (List.ne_nil_of_length_pos tail.chain.length_pos)] at ends
        exact ih tail (start.next cluster) ends (by simpa using enough)

end Place

section Create

variable (wf : st.boot.WellFormed) (lagging : Lagging st)
  (directory : FatChain st.boot st.disk st.cwdCluster dirs)
include wf lagging directory

/-- `fat_write_file` after its check: a message when it finds the name, else the slot search. -/
theorem fatWriteFile_checked (enough : dirs.length < fuel) (name ext : CString) :
    ∃ mid, Loaded st mid ∧
      ((dirs.findSome? (fileDuplicateIn st.boot st.disk name)).isSome = false → mid = linksRead dirs st) ∧
      fatWriteFile fuel name ext st =
      if (dirs.findSome? (fileDuplicateIn st.boot st.disk name)).isSome = true then
        some (.duplicate, mid.kprintf "Datei existiert bereits\n")
      else loop (placeTurn (fillFile name ext) "Kein Platz im Root-Directory\n") fuel (mid.cwdCluster, mid) := by
  refine ⟨linksRead (dirs.takeWhile fun cluster => (fileDuplicateIn st.boot st.disk name cluster).isNone) st,
    (Loaded.refl lagging.clean).linksRead _, fun absent => ?_, ?_⟩
  · rw [takeWhile_absent absent]
  · rw [fatWriteFile, fileDuplicateLoop wf lagging directory enough name]
    cases (dirs.findSome? (fileDuplicateIn st.boot st.disk name)).isSome with
    | true => rfl
    | false => rfl

theorem fatCreateDir_checked (enough : dirs.length < fuel) (name : CString) :
    ∃ mid, Loaded st mid ∧ fatCreateDir fuel name st =
      if (dirs.findSome? (dirDuplicateIn st.boot st.disk name)).getD false = true then
        some (.duplicate, mid.kprintf "Datei existiert bereits\n")
      else loop (placeTurn (fillDir name) "Kein Platz mehr Übrig\n") fuel (mid.cwdCluster, mid) := by
  have printed := (Loaded.refl lagging.clean).printed (st.console ++
    (((name.take 8).takeWhile (· ≠ 0)).map
      (fun byte => String.singleton (Char.ofNat byte.toNat)) ++ ["\n"]))
  obtain ⟨mid, loaded, checked⟩ := dirDuplicateLoop (by exact wf) (lagging.loaded printed)
    (by exact directory) enough name
  refine ⟨mid, printed.trans loaded, ?_⟩
  rw [fatCreateDir]
  dsimp only at checked ⊢
  rw [checked]
  cases (dirs.findSome? (dirDuplicateIn st.boot st.disk name)).getD false with
  | true => rfl
  | false => rfl

variable (enough : dirs.length + 1 < fuel)
include enough

theorem place_total (fill : Nat → Hit → FatState → CreateExit × FatState) (fullText : String)
    (loaded : Loaded st mid) : ∃ result outcome,
      loop (placeTurn fill fullText) fuel (mid.cwdCluster, mid) = some result ∧
      Search st.boot st.disk Sector.slotFree st.cwdCluster outcome ∧ Placement fill st outcome result := by
  obtain ⟨boot, cwd, path⟩ := loaded.kept
  have disk := loaded.disk
  have ends := List.getLast?_eq_some_getLast (List.ne_nil_of_length_pos directory.chain.length_pos)
  obtain ⟨_, _, _, finished⟩ := placeLoop_eq wf lagging fill fullText directory loaded ends enough
  obtain ⟨outcome, search, placed⟩ := placeLoop_search (by rw [boot]; exact wf) (lagging.loaded loaded)
    (by rw [boot, disk]; exact directory.walkable) finished
  rw [boot, disk] at search
  exact ⟨_, outcome, by rw [cwd]; exact finished, search, placed.loaded loaded⟩

/-- `fat_write_file` returns: with a message when its check finds the name, else
as its slot search ends. -/
theorem fatWriteFile_total (name ext : CString) :
    ∃ result, fatWriteFile fuel name ext st = some result ∧
      ((dirs.findSome? (fileDuplicateIn st.boot st.disk name)).isSome = true →
        result.1 = .duplicate ∧ Loaded st result.2) ∧
      ((dirs.findSome? (fileDuplicateIn st.boot st.disk name)).isSome = false → ∃ outcome,
        Search st.boot st.disk Sector.slotFree st.cwdCluster outcome ∧
          Placement (fillFile name ext) st outcome result) := by
  obtain ⟨mid, loaded, _, checked⟩ := fatWriteFile_checked wf lagging directory (by omega : dirs.length < fuel) name ext
  rw [checked]
  cases (dirs.findSome? (fileDuplicateIn st.boot st.disk name)).isSome with
  | true => exact ⟨_, rfl, fun _ => ⟨rfl, loaded.kprintf _⟩, fun absent => Bool.noConfusion absent⟩
  | false =>
    obtain ⟨result, outcome, finished, search, placed⟩ := place_total wf lagging directory enough
      (fillFile name ext) "Kein Platz im Root-Directory\n" loaded
    exact ⟨result, finished, fun present => Bool.noConfusion present, fun _ => ⟨outcome, search, placed⟩⟩

theorem fatCreateDir_total (name : CString) :
    ∃ result, fatCreateDir fuel name st = some result ∧
      ((dirs.findSome? (dirDuplicateIn st.boot st.disk name)).getD false = true →
        result.1 = .duplicate ∧ Loaded st result.2) ∧
      ((dirs.findSome? (dirDuplicateIn st.boot st.disk name)).getD false = false → ∃ outcome,
        Search st.boot st.disk Sector.slotFree st.cwdCluster outcome ∧
          Placement (fillDir name) st outcome result) := by
  obtain ⟨mid, loaded, checked⟩ := fatCreateDir_checked wf lagging directory (by omega : dirs.length < fuel) name
  rw [checked]
  cases (dirs.findSome? (dirDuplicateIn st.boot st.disk name)).getD false with
  | true => exact ⟨_, rfl, fun _ => ⟨rfl, loaded.kprintf _⟩, fun absent => Bool.noConfusion absent⟩
  | false =>
    obtain ⟨result, outcome, finished, search, placed⟩ := place_total wf lagging directory enough
      (fillDir name) "Kein Platz mehr Übrig\n" loaded
    exact ⟨result, finished, fun present => Bool.noConfusion present, fun _ => ⟨outcome, search, placed⟩⟩

end Create

theorem fatWriteFile_mono (finished : fatWriteFile fuel name ext st = some result) (enough : fuel ≤ more) :
    fatWriteFile more name ext st = some result := by
  rw [fatWriteFile] at finished ⊢
  cases checked : loop (fileDuplicateTurn name) fuel (st.cwdCluster, st) with
  | none =>
    rw [checked] at finished
    cases finished
  | some answer =>
    rw [checked] at finished
    rw [loop_mono checked enough]
    obtain ⟨duplicate, mid⟩ := answer
    cases duplicate with
    | true => exact finished
    | false => exact loop_mono finished enough

theorem fatCreateDir_mono (finished : fatCreateDir fuel name st = some result) (enough : fuel ≤ more) :
    fatCreateDir more name st = some result := by
  simp only [fatCreateDir] at finished ⊢
  split at finished
  · cases finished
  · rename_i checked
    rw [loop_mono checked enough]
    exact finished
  · rename_i checked
    rw [loop_mono checked enough]
    exact loop_mono finished enough

theorem fatWriteFile_deterministic (first : fatWriteFile fuel name ext st = some result)
    (second : fatWriteFile fuel' name ext st = some result') : result = result' := by
  have longer := fatWriteFile_mono first (Nat.le_max_left fuel fuel')
  have other := fatWriteFile_mono second (Nat.le_max_right fuel fuel')
  exact Option.some.inj (longer.symm.trans other)

theorem fatCreateDir_deterministic (first : fatCreateDir fuel name st = some result)
    (second : fatCreateDir fuel' name st = some result') : result = result' := by
  have longer := fatCreateDir_mono first (Nat.le_max_left fuel fuel')
  have other := fatCreateDir_mono second (Nat.le_max_right fuel fuel')
  exact Option.some.inj (longer.symm.trans other)

end LivlyOS.Fs
