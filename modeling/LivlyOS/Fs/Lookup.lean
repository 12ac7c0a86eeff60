import LivlyOS.Fs.Lagging
import LivlyOS.Fs.Directory

namespace LivlyOS.Fs

open LivlyOS.Lib

namespace Sector

theorem zero_slotFree (slot : Nat) : zero.slotFree slot = true := by
  simp [slotFree, nameByte]

theorem nameByte_setSize (sector : Sector) {slot size other index : Nat} (inside : other < 16)
    (name : index < 8) : (sector.setSize slot size).nameByte other index = sector.nameByte other index := by
  rw [nameByte, setSize, bytes_ofBytes (by omega), putWord_outside _ _ (by omega), nameByte]

theorem slotCluster_setSize (sector : Sector) {slot size other : Nat} (inside : other < 16) :
    (sector.setSize slot size).slotCluster other = sector.slotCluster other := by
  rw [slotCluster, setSize, word_ofBytes (by omega), word_ofBytes (by omega),
    word_putWord_other _ _ (by omega), word_putWord_other _ _ (by omega), slotCluster]

theorem slotSize_setSize (sector : Sector) {slot size : Nat} (inside : slot < 16)
    (small : size < 4294967296) : (sector.setSize slot size).slotSize slot = size := by
  rw [slotSize, setSize, word_ofBytes (by omega), word_putWord_same]
  exact Nat.mod_eq_of_lt small

end Sector

theorem strEqualFatFrom_congr {left right : Bytes} {name : CString} {remaining index : Nat}
    (same : ∀ position, index ≤ position → position < index + remaining →
      left position = right position) :
    strEqualFatFrom left name remaining index = strEqualFatFrom right name remaining index := by
  induction remaining generalizing index with
  | zero => rfl
  | succ remaining ih =>
    rw [strEqualFatFrom, strEqualFatFrom, same index (Nat.le_refl _) (by omega),
      ih (fun position low high => same position (by omega) (by omega))]

theorem strEqualFat_congr {left right : Bytes} {name : CString}
    (same : ∀ position < 8, left position = right position) :
    strEqualFat left name = strEqualFat right name :=
  strEqualFatFrom_congr (fun position _ high => same position (by omega))

theorem slotMatches_congr {left right : Sector} {name : CString} {slot : Nat}
    (same : ∀ position < 8, left.nameByte slot position = right.nameByte slot position) :
    left.slotMatches name slot = right.slotMatches name slot :=
  strEqualFat_congr same

theorem findInSector_some (found : findInSector wanted sector = some slot) :
    slot < 16 ∧ wanted sector slot = true ∧ ∀ earlier < slot, wanted sector earlier = false := by
  obtain ⟨holds, inside, before⟩ := List.find?_range_eq_some.mp found
  exact ⟨List.mem_range.mp inside, holds, fun earlier below => by simpa using before earlier below⟩

theorem findInSector_none (absent : findInSector wanted sector = none) :
    ∀ slot < 16, wanted sector slot = false := by
  intro slot inside
  have missing := List.find?_eq_none.mp absent slot (List.mem_range.mpr inside)
  simpa using missing

theorem findInSector_congr (same : ∀ slot < 16, wanted left slot = wanted right slot) :
    findInSector wanted left = findInSector wanted right := by
  unfold findInSector
  have agree : ∀ slot ∈ List.range 16, wanted left slot = wanted right slot :=
    fun slot member => same slot (List.mem_range.mp member)
  generalize List.range 16 = slots at agree
  induction slots with
  | nil => rfl
  | cons slot rest ih =>
    rw [List.find?_cons, List.find?_cons, agree slot (by simp),
      ih (fun other member => agree other (by simp [member]))]

variable (boot : FAT32BootSector) (disk : Disk) (wanted : Sector → Nat → Bool)

/-- The first wanted slot along a list of clusters. -/
def firstHit : List Nat → Option Hit
  | [] => none
  | cluster :: rest =>
    match findInSectors wanted disk (boot.clusterSector cluster) boot.spc 0 with
    | some hit => some hit
    | none => firstHit rest

/-- A slot of one of the clusters, as found on disk. -/
structure HitIn (clusters : List Nat) (hit : Hit) (cluster s : Nat) : Prop where
  member : cluster ∈ clusters
  inside : s < boot.spc
  lba : hit.lba = boot.clusterLba cluster s
  buf : hit.buf = clusterData boot disk cluster s
  found : findInSector wanted hit.buf = some hit.slot

/-- The same place with the contents of another disk. -/
def Hit.reload (disk : Disk) (hit : Hit) : Hit := { hit with buf := ataReadSector disk hit.lba }

variable {boot disk wanted}

theorem findInSectors_some (found : findInSectors wanted disk sektor count s = some hit) :
    ∃ t, s ≤ t ∧ t < s + count ∧ hit.lba = u32 (sektor + t) ∧ hit.buf = ataReadSector disk hit.lba ∧
      findInSector wanted hit.buf = some hit.slot := by
  induction count generalizing s with
  | zero => simp [findInSectors] at found
  | succ count ih =>
    simp only [findInSectors] at found
    split at found
    · rename_i slot here
      cases found
      exact ⟨s, Nat.le_refl _, by omega, rfl, rfl, here⟩
    · obtain ⟨t, low, high, place⟩ := ih found
      exact ⟨t, by omega, by omega, place⟩

theorem findInSectors_none : findInSectors wanted disk sektor count s = none ↔
    ∀ t, s ≤ t → t < s + count → findInSector wanted (ataReadSector disk (u32 (sektor + t))) = none := by
  induction count generalizing s with
  | zero =>
    constructor
    · exact fun _ t low high => absurd (Nat.lt_of_le_of_lt low high) (Nat.lt_irrefl s)
    · exact fun _ => rfl
  | succ count ih =>
    unfold findInSectors
    dsimp only
    constructor
    · intro absent t low high
      split at absent
      · cases absent
      · rename_i here
        rcases Nat.eq_or_lt_of_le low with rfl | above
        · exact here
        · exact ih.mp absent t above (by omega)
    · intro absent
      rw [absent s (Nat.le_refl s) (by omega)]
      exact ih.mpr fun t low high => absent t (by omega) (by omega)

/-- A search without a finding has seen every slot. -/
theorem findInSectors_absent (absent : findInSectors wanted disk sektor count s = none) :
    ∀ t, s ≤ t → t < s + count → ∀ slot < 16, wanted (ataReadSector disk (u32 (sektor + t))) slot = false :=
  fun t low high => findInSector_none (findInSectors_none.mp absent t low high)

theorem firstHit_some (found : firstHit boot disk wanted clusters = some hit) :
    ∃ cluster s, HitIn boot disk wanted clusters hit cluster s := by
  induction clusters with
  | nil => simp [firstHit] at found
  | cons cluster rest ih =>
    rw [firstHit] at found
    split at found
    · rename_i here
      cases found
      obtain ⟨s, _, inside, lba, buf, slot⟩ := findInSectors_some here
      exact ⟨cluster, s, by simp, by omega, lba, by rw [buf, lba]; rfl, slot⟩
    · obtain ⟨owner, s, place⟩ := ih found
      exact ⟨owner, s, by simp [place.member], place.inside, place.lba, place.buf, place.found⟩

theorem firstHit_none (absent : firstHit boot disk wanted clusters = none) :
    ∀ cluster ∈ clusters, ∀ s < boot.spc, ∀ slot < 16, wanted (clusterData boot disk cluster s) slot = false := by
  induction clusters with
  | nil => exact fun cluster member => absurd member List.not_mem_nil
  | cons first rest ih =>
    unfold firstHit at absent
    split at absent
    · cases absent
    · rename_i here
      intro cluster member s inside
      rcases List.mem_cons.mp member with rfl | inRest
      · exact findInSectors_absent here s (Nat.zero_le s) (by omega)
      · exact ih absent cluster inRest s inside

/-- Sectors in which the same slot is wanted give the same first hit. -/
theorem findInSectors_congr {disk' : Disk}
    (same : ∀ t, s ≤ t → t < s + count →
      findInSector wanted (ataReadSector disk' (u32 (sektor + t))) =
        findInSector wanted (ataReadSector disk (u32 (sektor + t)))) :
    findInSectors wanted disk' sektor count s =
      (findInSectors wanted disk sektor count s).map (Hit.reload disk') := by
  induction count generalizing s with
  | zero => rfl
  | succ count ih =>
    have rest := @ih (s + 1) (fun t low high => same t (by omega) (by omega))
    simp only [findInSectors, same s (Nat.le_refl _) (by omega)]
    cases findInSector wanted (ataReadSector disk (u32 (sektor + s))) with
    | some slot => rfl
    | none => exact rest

theorem firstHit_congr {disk' : Disk}
    (same : ∀ cluster ∈ clusters, ∀ s < boot.spc,
      findInSector wanted (clusterData boot disk' cluster s) =
        findInSector wanted (clusterData boot disk cluster s)) :
    firstHit boot disk' wanted clusters =
      (firstHit boot disk wanted clusters).map (Hit.reload disk') := by
  induction clusters with
  | nil => rfl
  | cons cluster rest ih =>
    have here := @findInSectors_congr disk wanted 0 boot.spc (boot.clusterSector cluster) disk'
      (fun t _ high => same cluster (by simp) t (by omega))
    rw [firstHit, firstHit, here, ih (fun other member => same other (by simp [member]))]
    cases findInSectors wanted disk (boot.clusterSector cluster) boot.spc 0 <;> rfl

/-- The state when the links of the clusters have been followed. -/
def linksRead (clusters : List Nat) (st : FatState) : FatState :=
  clusters.foldl (fun st cluster => (fatNextCluster cluster st).2) st

theorem Loaded.linksRead (loaded : Loaded st mid) (clusters : List Nat) : Loaded st (linksRead clusters mid) := by
  induction clusters generalizing mid with
  | nil => exact loaded
  | cons cluster rest ih => exact ih (loaded.next cluster)

/-- The clusters in front of the one with the first wanted slot. -/
def inFront (boot : FAT32BootSector) (disk : Disk) (wanted : Sector → Nat → Bool) (clusters : List Nat) : List Nat :=
  clusters.takeWhile fun cluster => (findInSectors wanted disk (boot.clusterSector cluster) boot.spc 0).isNone

/-- The search loop visits the clusters of the chain in order. -/
theorem locateLoop (lagging : Lagging st)
    (chain : FatChain st.boot st.disk current clusters) (enough : clusters.length ≤ fuel) :
    loop (locateTurn name) fuel (current, st) = some (firstHit st.boot st.disk (Sector.slotMatches name) clusters,
      linksRead (inFront st.boot st.disk (Sector.slotMatches name) clusters) st) := by
  obtain ⟨walk, data⟩ := chain
  generalize disks : st.disk = disk at walk ⊢
  generalize boots : st.boot = boot at walk data ⊢
  induction walk generalizing st fuel with
  | @last current stop =>
    subst disks boots
    obtain ⟨fuel, rfl⟩ : ∃ more, fuel = more + 1 := ⟨fuel - 1, by simp at enough; omega⟩
    have chain : FatChain st.boot st.disk current [current] := ⟨.last stop, data⟩
    have ended := fatNextCluster_last lagging chain.first_data.2
      (chain.entry_ne_zero (List.mem_singleton.mpr rfl)) stop
    simp only [loop, locateTurn, findInCluster, firstHit, inFront, List.takeWhile_cons, ended, ↓reduceIte]
    cases findInSectors (Sector.slotMatches name) st.disk (st.boot.clusterSector current)
      st.boot.spc 0 <;> rfl
  | @link current successor clusters step rest ih =>
    subst disks boots
    obtain ⟨fuel, rfl⟩ : ∃ more, fuel = more + 1 := ⟨fuel - 1, by simp at enough; omega⟩
    have chain : FatChain st.boot st.disk current (current :: clusters) := ⟨.link step rest, data⟩
    have loaded := (Loaded.refl lagging.clean).next current
    obtain ⟨link, below⟩ := fatNextCluster_link lagging chain.first_data.2
      (chain.entry_ne_zero (List.mem_cons_self ..)) step
    have going : ¬ endOfChain ≤ (fatNextCluster current st).1 := by omega
    simp only [loop, locateTurn, findInCluster, firstHit, inFront, List.takeWhile_cons, going, ↓reduceIte]
    cases findInSectors (Sector.slotMatches name) st.disk (st.boot.clusterSector current)
      st.boot.spc 0 with
    | some hit => rfl
    | none =>
      have result := @ih (fatNextCluster current st).2 fuel
        (lagging.loaded loaded) (by simp at enough; omega) loaded.disk loaded.kept.boot
        (fun cluster member => data cluster (by simp [member]))
      have pair : fatNextCluster current st = (successor, (fatNextCluster current st).2) :=
        Prod.ext link rfl
      rw [pair]
      exact result

/-- The state in which the search for a name in a directory ends. -/
def searched (name : CString) (dirs : List Nat) (st : FatState) : FatState :=
  linksRead (inFront st.boot st.disk (Sector.slotMatches name) dirs) st

theorem searched_loaded (clean : st.fatCacheDirty = false) (name : CString) (dirs : List Nat) :
    Loaded st (searched name dirs st) :=
  (Loaded.refl clean).linksRead _

theorem locate_searched (lagging : Lagging st) (chain : FatChain st.boot st.disk st.cwdCluster clusters)
    (enough : clusters.length ≤ fuel) (name : CString) : locate fuel name st =
      some (firstHit st.boot st.disk (Sector.slotMatches name) clusters, searched name clusters st) :=
  locateLoop lagging chain enough

/-- `locate` on a well-formed directory returns its first matching slot. -/
theorem locate_eq (lagging : Lagging st) (chain : FatChain st.boot st.disk st.cwdCluster clusters)
    (enough : clusters.length ≤ fuel) (name : CString) :
    ∃ st', locate fuel name st =
        some (firstHit st.boot st.disk (Sector.slotMatches name) clusters, st') ∧ Loaded st st' :=
  ⟨_, locate_searched lagging chain enough name, searched_loaded lagging.clean name clusters⟩

/-- Every search that ends has found the first matching slot. -/
theorem locate_result (lagging : Lagging st)
    (chain : FatChain st.boot st.disk st.cwdCluster clusters)
    (located : locate fuel name st = some (found, mid)) :
    firstHit st.boot st.disk (Sector.slotMatches name) clusters = found ∧ Loaded st mid := by
  obtain ⟨last, searched, loaded⟩ := locate_eq lagging chain (Nat.le_refl _) name
  cases loop_deterministic searched located
  exact ⟨rfl, loaded⟩

end LivlyOS.Fs
