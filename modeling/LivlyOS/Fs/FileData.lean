import LivlyOS.Fs.Lookup
import LivlyOS.Fs.Operations

namespace LivlyOS.Fs

open LivlyOS.Lib

variable (boot : FAT32BootSector)

/-- The byte at a position of a chain. -/
def chainByte (disk : Disk) : (clusters : List Nat) → Nat → UInt8
  | [], _ => 0
  | cluster :: rest, position =>
    if position < boot.clusterSize then
      (clusterData boot disk cluster (position / 512)).bytes (position % 512)
    else chainByte disk rest (position - boot.clusterSize)

variable {boot}

theorem clusterSize_eq : boot.clusterSize = boot.spc * 512 := rfl

theorem copyOut_apply (sector : Sector) (out : Bytes) {offset count : Nat}
    (fits : offset + count ≤ 4294967296) (position : Nat) :
    copyOut sector offset out count position =
      if offset ≤ position ∧ position < offset + count then sector.bytes (position - offset)
      else out position := by
  induction count with
  | zero => rw [copyOut, if_neg (by omega)]
  | succ count ih =>
    rw [copyOut, u32_of_lt (by omega), Function.update_apply, ih (by omega)]
    by_cases last : position = offset + count
    · rw [if_pos last, if_pos (by omega), last, Nat.add_sub_cancel_left]
    · rw [if_neg last]
      by_cases earlier : offset ≤ position ∧ position < offset + count
      · rw [if_pos earlier, if_pos (by omega)]
      · rw [if_neg earlier, if_neg (by omega)]

theorem readSectors_apply (disk : Disk) (sektor : Nat) (out : Bytes) {count s offset : Nat}
    (fits : offset + count * 512 < 4294967296) :
    (readSectors disk sektor count s offset out).1 = offset + count * 512 ∧
      ∀ position, (readSectors disk sektor count s offset out).2 position =
        if offset ≤ position ∧ position < offset + count * 512 then
          (ataReadSector disk (u32 (sektor + (s + (position - offset) / 512)))).bytes
            ((position - offset) % 512)
        else out position := by
  induction count generalizing s offset out with
  | zero =>
    refine ⟨rfl, fun position => ?_⟩
    rw [readSectors, if_neg (by omega)]
  | succ count ih =>
    rw [readSectors, u32_of_lt (by omega : offset + 512 < 4294967296)]
    obtain ⟨ended, contents⟩ := @ih (copyOut (ataReadSector disk (u32 (sektor + s))) offset out 512)
      (s + 1) (offset + 512) (by omega)
    refine ⟨by omega, fun position => ?_⟩
    rw [contents, copyOut_apply _ _ (by omega)]
    by_cases later : offset + 512 ≤ position ∧ position < offset + 512 + count * 512
    · rw [if_pos later, if_pos (by omega)]
      have whole : position - offset = (position - (offset + 512)) + 512 := by omega
      have quotient : (position - offset) / 512 = (position - (offset + 512)) / 512 + 1 := by omega
      have rest : (position - offset) % 512 = (position - (offset + 512)) % 512 := by omega
      rw [quotient, rest, Nat.add_right_comm s 1, Nat.add_assoc s]
    · rw [if_neg later]
      by_cases here : offset ≤ position ∧ position < offset + 512
      · rw [if_pos here, if_pos (by omega), Nat.div_eq_of_lt (by omega), Nat.mod_eq_of_lt (by omega),
          Nat.add_zero]
      · rw [if_neg here, if_neg (by omega)]

theorem writeSectors_other (buf : Bytes) (disk : Disk) {size sektor count s offset lba : Nat}
    (apart : ∀ t, s ≤ t → t < s + count → ataLba lba ≠ ataLba (u32 (sektor + t))) :
    ataReadSector (writeSectors buf size sektor count s offset disk).2 lba = ataReadSector disk lba := by
  induction count generalizing s offset disk with
  | zero => rfl
  | succ count ih =>
    rw [writeSectors]
    split
    · rfl
    · rw [ih _ (fun t low high => apart t (by omega) (by omega)),
        ataReadSector_other _ _ (apart s (Nat.le_refl _) (by omega))]

/-- The offset stays below the size exactly when there is more to write. -/
theorem writeSectors_offset (buf : Bytes) (disk : Disk) {size sektor count s offset : Nat}
    (fits : offset + count * 512 < 4294967296) :
    ((writeSectors buf size sektor count s offset disk).1 < size ↔ offset + count * 512 < size) ∧
      (offset + count * 512 < size →
        (writeSectors buf size sektor count s offset disk).1 = offset + count * 512) := by
  induction count generalizing s offset disk with
  | zero => simp [writeSectors]
  | succ count ih =>
    rw [writeSectors]
    split
    · constructor
      · constructor <;> intro below <;> simp only at * <;> omega
      · omega
    · rw [u32_of_lt (by omega : offset + 512 < 4294967296)]
      have step := @ih (ataWriteSector disk (u32 (sektor + s)) (dataSector buf size offset))
        (s + 1) (offset + 512) (by omega)
      have total : offset + (count + 1) * 512 = offset + 512 + count * 512 := by omega
      rw [total]
      exact step

theorem offset_next (offset : Nat) (later : s + 1 ≤ t) :
    offset + 512 + (t - (s + 1)) * 512 = offset + (t - s) * 512 := by
  omega

/-- Each sector in front of the end of the data holds its part of it. -/
theorem writeSectors_contents (buf : Bytes) (disk : Disk)
    (distinct : ∀ t t', s ≤ t → t < t' → t' < s + count →
      ataLba (u32 (sektor + t)) ≠ ataLba (u32 (sektor + t')))
    (fits : offset + count * 512 < 4294967296)
    (low : s ≤ t) (high : t < s + count) (below : offset + (t - s) * 512 < size) :
    ataReadSector (writeSectors buf size sektor count s offset disk).2 (u32 (sektor + t)) =
      dataSector buf size (offset + (t - s) * 512) := by
  induction count generalizing s offset disk with
  | zero => omega
  | succ count ih =>
    rw [writeSectors, if_neg (by omega), u32_of_lt (by omega : offset + 512 < 4294967296)]
    by_cases here : t = s
    · subst here
      rw [writeSectors_other buf _ (fun t' low' high' => distinct t t' low (by omega) (by omega)),
        ataReadSector_same _ _ rfl, Nat.sub_self, Nat.zero_mul, Nat.add_zero]
    · have later : s + 1 ≤ t := by omega
      have rest := ih (ataWriteSector disk (u32 (sektor + s)) (dataSector buf size offset))
        (fun u u' low' less high' => distinct u u' (by omega) less (by omega))
        (by omega : offset + 512 + count * 512 < _) later (by omega)
        (by rw [offset_next offset later]; exact below)
      rw [rest, offset_next offset later]

/-- Sectors that hold the data already are written back as they are. -/
theorem writeSectors_unchanged (buf : Bytes) (disk : Disk) (fits : offset + count * 512 < 4294967296)
    (stored : ∀ t, s ≤ t → t < s + count → offset + (t - s) * 512 < size →
      ataReadSector disk (u32 (sektor + t)) = dataSector buf size (offset + (t - s) * 512)) :
    (writeSectors buf size sektor count s offset disk).2 = disk := by
  induction count generalizing s offset with
  | zero => rfl
  | succ count ih =>
    rw [writeSectors]
    split
    · rfl
    · rename_i more
      have here := stored s (Nat.le_refl _) (by omega)
      rw [Nat.sub_self, Nat.zero_mul, Nat.add_zero] at here
      have here := here (Nat.not_le.mp more)
      rw [u32_of_lt (by omega : offset + 512 < 4294967296), ataWriteSector_unchanged disk here]
      apply ih (by omega)
      intro t low high below
      rw [offset_next offset low] at below ⊢
      exact stored t (by omega) (by omega) below

section WellFormed

variable (wf : boot.WellFormed)
include wf

theorem writeSectors_offFat (buf : Bytes) (disk : Disk) (data : boot.DataCluster cluster)
    (inside : s + count ≤ boot.spc) (fat : boot.IsFatSector lba) :
    ataReadSector (writeSectors buf size (boot.clusterSector cluster) count s offset disk).2 lba =
      ataReadSector disk lba := by
  apply writeSectors_other
  intro t low high
  rw [ataLba_of_lt fat.2.2]
  exact Ne.symm (wf.layout.disjoint lba cluster t fat data (by omega))

theorem writeSectors_otherCluster (buf : Bytes) (disk : Disk) (data : boot.DataCluster cluster)
    (otherData : boot.DataCluster other) (different : other ≠ cluster)
    (inside : s + count ≤ boot.spc) (otherInside : t < boot.spc) :
    clusterData boot (writeSectors buf size (boot.clusterSector cluster) count s offset disk).2 other t =
      clusterData boot disk other t := by
  apply writeSectors_other
  intro t' low high
  have left := wf.ataLba_clusterLba data (by omega : t' < boot.spc)
  have right := wf.ataLba_clusterLba otherData otherInside
  rw [FAT32BootSector.clusterLba] at left
  rw [left, right]
  exact fun same => different (wf.clusterLba_inj otherData data otherInside (by omega) same).1

end WellFormed

theorem dataSector_byte (buf : Bytes) {size offset j : Nat} (inside : j < 512)
    (below : offset + j < size) (small : size ≤ 4294967296) :
    (dataSector buf size offset).bytes j = buf (offset + j) := by
  simp only [Sector.bytes, dataSector, inside, ↓reduceDIte, u32_of_lt (by omega : offset + j < 4294967296),
    below, ↓reduceIte]

theorem readTurn_again (current : Nat) (small : current < endOfChain) (offset : Nat) (out : Bytes)
    (st : FatState) (fits : offset + st.boot.clusterSize < 4294967296) :
    ∃ out', readTurn ⟨current, offset, out, st⟩ =
        .again ⟨(fatNextCluster current st).1, offset + st.boot.clusterSize, out',
          (fatNextCluster current st).2⟩ ∧
      (∀ position < offset, out' position = out position) ∧
      ∀ position < st.boot.clusterSize, out' (offset + position) =
        (clusterData st.boot st.disk current (position / 512)).bytes (position % 512) := by
  rw [clusterSize_eq] at fits ⊢
  obtain ⟨ended, contents⟩ := @readSectors_apply st.disk (st.boot.clusterSector current) out
    st.boot.spc 0 offset fits
  refine ⟨(readSectors st.disk (st.boot.clusterSector current) st.boot.spc 0 offset out).2, ?_, ?_, ?_⟩
  · simp only [readTurn, ended, Nat.not_le.mpr small, ↓reduceIte]
  · intro position before
    rw [contents, if_neg (by omega)]
  · intro position inside
    rw [contents, if_pos (by omega), Nat.add_sub_cancel_left, Nat.zero_add]
    rfl

theorem chainByte_first (disk : Disk) (cluster : Nat) (rest : List Nat)
    (inside : position < boot.clusterSize) : chainByte boot disk (cluster :: rest) position =
      (clusterData boot disk cluster (position / 512)).bytes (position % 512) := by
  rw [chainByte, if_pos inside]

theorem chainByte_rest (disk : Disk) (cluster : Nat) (rest : List Nat) (position : Nat) :
    chainByte boot disk (cluster :: rest) (boot.clusterSize + position) =
      chainByte boot disk rest position := by
  rw [chainByte, if_neg (by omega), Nat.add_sub_cancel_left]

theorem sector_inside (inside : position < boot.clusterSize) : position / 512 < boot.spc := by
  rw [clusterSize_eq] at inside
  omega

/-- The reading loop copies the bytes of the chain. -/
theorem readLoop (wf : st.boot.WellFormed) (lagging : Lagging st)
    (chain : FatChain st.boot st.disk current clusters)
    (fits : offset + clusters.length * st.boot.clusterSize < 4294967296)
    (enough : clusters.length < fuel) :
    ∃ out' st', loop readTurn fuel ⟨current, offset, out, st⟩ = some (out', st') ∧
      (∀ position < offset, out' position = out position) ∧
      ∀ position < clusters.length * st.boot.clusterSize,
        out' (offset + position) = chainByte st.boot st.disk clusters position := by
  obtain ⟨walk, data⟩ := chain
  generalize disks : st.disk = disk at walk
  generalize boots : st.boot = boot at walk data
  induction walk generalizing st fuel offset out with
  | @last current stop =>
    subst disks boots
    obtain ⟨fuel, rfl⟩ : ∃ more, fuel = more + 2 := ⟨fuel - 2, by simp at enough; omega⟩
    have chain : FatChain st.boot st.disk current [current] := ⟨.last stop, data⟩
    have member := chain.first_data
    have ended := fatNextCluster_last lagging member.2
      (chain.entry_ne_zero (List.mem_singleton.mpr rfl)) stop
    obtain ⟨out', turn, before, inside⟩ := readTurn_again current (data_lt_endOfChain wf member)
      offset out st (by simpa using fits)
    have leave : readTurn ⟨(fatNextCluster current st).1, offset + st.boot.clusterSize, out',
        (fatNextCluster current st).2⟩ = .leave (out', (fatNextCluster current st).2) := by
      simp only [readTurn, ended, ↓reduceIte]
    refine ⟨out', _, (loop_again turn _).trans (loop_leave leave _), before, ?_⟩
    intro position below
    rw [inside position (by simpa using below), chainByte_first _ _ _ (by simpa using below)]
  | @link current successor clusters step rest ih =>
    subst disks boots
    obtain ⟨fuel, rfl⟩ : ∃ more, fuel = more + 1 := ⟨fuel - 1, by omega⟩
    rw [List.length_cons, Nat.add_mul, Nat.one_mul] at fits
    have chain : FatChain st.boot st.disk current (current :: clusters) := ⟨.link step rest, data⟩
    have member := chain.first_data
    have loaded := (Loaded.refl lagging.clean).next current
    have kept := loaded.kept.boot
    obtain ⟨link, _⟩ := fatNextCluster_link lagging member.2
      (chain.entry_ne_zero (List.mem_cons_self ..)) step
    obtain ⟨out', turn, before, inside⟩ := readTurn_again current (data_lt_endOfChain wf member)
      offset out st (by omega)
    obtain ⟨out'', st', result, earlier, later⟩ := @ih (fatNextCluster current st).2
      (offset + st.boot.clusterSize) fuel out' (by rw [kept]; exact wf) (lagging.loaded loaded)
      (by rw [kept]; omega) (by simp at enough; omega) loaded.disk kept
      (fun cluster present => data cluster (by simp [present]))
    rw [link] at turn
    refine ⟨out'', st', (loop_again turn fuel).trans result, ?_, ?_⟩
    · intro position below
      rw [earlier position (by omega), before position below]
    · intro position below
      rw [List.length_cons, Nat.add_mul, Nat.one_mul] at below
      by_cases here : position < st.boot.clusterSize
      · rw [earlier _ (by omega), inside position here, chainByte_first _ _ _ here]
      · obtain ⟨beyond, rfl⟩ : ∃ beyond, position = st.boot.clusterSize + beyond :=
          ⟨position - st.boot.clusterSize, by omega⟩
        rw [← Nat.add_assoc, later beyond (by omega), chainByte_rest]

/-- The sectors one writing turn stores into a cluster. -/
def writtenDisk (boot : FAT32BootSector) (buf : Bytes) (size offset current : Nat) (disk : Disk) : Disk :=
  (writeSectors buf size (boot.clusterSector current) boot.spc 0 offset disk).2

section WellFormed

variable (wf : boot.WellFormed)
include wf

theorem writtenDisk_offFat (buf : Bytes) (disk : Disk) (data : boot.DataCluster current) (lba : Nat)
    (fat : boot.IsFatSector lba) :
    ataReadSector (writtenDisk boot buf size offset current disk) lba = ataReadSector disk lba :=
  writeSectors_offFat wf buf disk data (by omega) fat

theorem fatEntry_writtenDisk (buf : Bytes) (disk : Disk) (data : boot.DataCluster current)
    (inRange : cluster < boot.totalClusters + 2) :
    fatEntry boot (writtenDisk boot buf size offset current disk) cluster =
      fatEntry boot disk cluster :=
  fatEntry_congr wf.layout (writtenDisk_offFat wf buf disk data) inRange

theorem freeClusters_writtenDisk (buf : Bytes) (disk : Disk) (data : boot.DataCluster current) :
    freeClusters boot (writtenDisk boot buf size offset current disk) = freeClusters boot disk :=
  freeClusters_congr (fun _ inRange => fatEntry_writtenDisk wf buf disk data inRange)

theorem writtenDisk_other (buf : Bytes) (disk : Disk) (data : boot.DataCluster current)
    (otherData : boot.DataCluster other) (different : other ≠ current) (inside : s < boot.spc) :
    clusterData boot (writtenDisk boot buf size offset current disk) other s =
      clusterData boot disk other s :=
  writeSectors_otherCluster wf buf disk data otherData different (by omega) inside

/-- The written cluster holds the bytes of the buffer in front of its end. -/
theorem writtenDisk_byte (buf : Bytes) (disk : Disk) (data : boot.DataCluster current)
    (fits : offset + boot.clusterSize < 4294967296) (small : size ≤ 4294967296)
    (inside : position < boot.clusterSize) (below : offset + position < size) :
    (clusterData boot (writtenDisk boot buf size offset current disk) current
      (position / 512)).bytes (position % 512) = buf (offset + position) := by
  have sector := sector_inside inside
  have place : offset + position / 512 * 512 + position % 512 = offset + position := by omega
  have start : offset + (position / 512 - 0) * 512 < size := by rw [Nat.sub_zero]; omega
  rw [clusterSize_eq] at fits
  have distinct : ∀ t t', 0 ≤ t → t < t' → t' < 0 + boot.spc →
      ataLba (u32 (boot.clusterSector current + t)) ≠ ataLba (u32 (boot.clusterSector current + t')) := by
    intro t t' _ less high same
    have left := wf.ataLba_clusterLba data (by omega : t < boot.spc)
    have right := wf.ataLba_clusterLba data (by omega : t' < boot.spc)
    rw [FAT32BootSector.clusterLba] at left right
    rw [left, right] at same
    have place := (wf.clusterLba_inj data data (by omega) (by omega) same).2
    omega
  rw [writtenDisk, clusterData, FAT32BootSector.clusterLba, writeSectors_contents buf disk distinct fits
    (Nat.zero_le _) (by rw [Nat.zero_add]; exact sector) start, Nat.sub_zero,
    dataSector_byte buf (Nat.mod_lt _ (by decide)) (by rw [place]; exact below) small, place]

end WellFormed

theorem writeTurn_end (buf : Bytes) (size offset : Nat) (ended : endOfChain ≤ current) (st : FatState) :
    writeTurn buf size ⟨current, offset, st⟩ = .leave st := if_pos ended

/-- A writing turn that is not the last extends the chain behind its cluster. -/
theorem writeTurn_again (buf : Bytes) (current : Nat) (small : current < endOfChain) (st : FatState)
    (fits : offset + st.boot.clusterSize < 4294967296) (more : offset + st.boot.clusterSize < size) :
    writeTurn buf size ⟨current, offset, st⟩ =
      .again ⟨(fatExtendChain current
          { st with disk := writtenDisk st.boot buf size offset current st.disk }).1,
        offset + st.boot.clusterSize,
        (fatExtendChain current
          { st with disk := writtenDisk st.boot buf size offset current st.disk }).2⟩ := by
  rw [clusterSize_eq] at fits more
  obtain ⟨_, ended⟩ := @writeSectors_offset buf st.disk size (st.boot.clusterSector current)
    st.boot.spc 0 offset fits
  simp only [writeTurn, Nat.not_le.mpr small, ended more, more, writtenDisk, clusterSize_eq, ↓reduceIte]

theorem writeTurn_leave (buf : Bytes) (current : Nat) (small : current < endOfChain) (st : FatState)
    (fits : offset + st.boot.clusterSize < 4294967296) (last : size ≤ offset + st.boot.clusterSize) :
    writeTurn buf size ⟨current, offset, st⟩ =
      .leave { st with disk := writtenDisk st.boot buf size offset current st.disk } := by
  rw [clusterSize_eq] at fits last
  obtain ⟨ended, _⟩ := @writeSectors_offset buf st.disk size (st.boot.clusterSector current)
    st.boot.spc 0 offset fits
  have stop := mt ended.mp (by omega)
  simp only [writeTurn, Nat.not_le.mpr small, stop, writtenDisk, ↓reduceIte]

/-- What the writing loop does to the volume when it starts at `current`, the
first of the old `clusters`. -/
structure Rewrites (boot : FAT32BootSector) (disk disk' : Disk) (current : Nat)
    (clusters clusters' : List Nat) : Prop where
  chain : FatChain boot disk' current clusters'
  within : ∀ cluster ∈ clusters', cluster ∈ clusters ∨ fatEntry boot disk cluster = 0
  entries : ∀ cluster, cluster < boot.totalClusters + 2 → cluster ∉ clusters →
    fatEntry boot disk cluster ≠ 0 → fatEntry boot disk' cluster = fatEntry boot disk cluster
  frame : ∀ cluster, boot.DataCluster cluster → cluster ∉ clusters →
    fatEntry boot disk cluster ≠ 0 → ∀ s < boot.spc,
      clusterData boot disk' cluster s = clusterData boot disk cluster s

/-- The last turn leaves the chain as it is, behind the data too. -/
theorem Rewrites.last (wf : boot.WellFormed) (chain : FatChain boot disk current clusters)
    (buf : Bytes) (size offset : Nat) :
    Rewrites boot disk (writtenDisk boot buf size offset current disk) current clusters clusters := by
  have data := chain.first_data
  refine ⟨?_, fun _ member => .inl member, ?_, ?_⟩
  · exact chain.congr (fun cluster member =>
      fatEntry_writtenDisk wf buf disk data (chain.data cluster member).2)
  · exact fun cluster inRange _ _ => fatEntry_writtenDisk wf buf disk data inRange
  · intro cluster member outside _ s inside
    refine writtenDisk_other wf buf disk data member ?_ inside
    intro same
    exact outside (same ▸ chain.chain.first_mem)

/-- A turn that extends the chain behind its cluster. -/
structure Extended (boot : FAT32BootSector) (buf : Bytes) (size offset current : Nat)
    (disk mid : Disk) (newCluster : Nat) : Prop where
  step : Extends boot (writtenDisk boot buf size offset current disk) mid current newCluster
  data : boot.DataCluster current
  used : fatEntry boot disk current ≠ 0

namespace Extended

theorem linked (turn : Extended boot buf size offset current disk mid newCluster) :
    fatEntry boot mid current ≠ 0 := by
  have low := turn.step.data.1
  rw [turn.step.link]
  omega

variable (turn : Extended boot buf size offset current disk mid newCluster) (wf : boot.WellFormed)
include turn wf

theorem free : fatEntry boot disk newCluster = 0 :=
  (fatEntry_writtenDisk wf buf disk turn.data turn.step.data.2).symm.trans turn.step.free

theorem notNew (taken : fatEntry boot disk cluster ≠ 0) : cluster ≠ newCluster := by
  intro same
  exact taken (same ▸ turn.free wf)

theorem entry (inRange : cluster < boot.totalClusters + 2) (notCurrent : cluster ≠ current)
    (taken : fatEntry boot disk cluster ≠ 0) : fatEntry boot mid cluster = fatEntry boot disk cluster := by
  have same : fatEntry boot (writtenDisk boot buf size offset current disk) cluster =
      fatEntry boot disk cluster := fatEntry_writtenDisk wf buf disk turn.data inRange
  exact (turn.step.others cluster inRange notCurrent (by rw [same]; exact taken)).trans same

theorem byte (fits : offset + boot.clusterSize < 4294967296) (small : size ≤ 4294967296)
    (inside : position < boot.clusterSize) (below : offset + position < size) :
    (clusterData boot mid current (position / 512)).bytes (position % 512) =
      buf (offset + position) := by
  rw [turn.step.contents current turn.data (turn.notNew wf turn.used) _ (sector_inside inside),
    writtenDisk_byte wf buf disk turn.data fits small inside below]

end Extended

/-- A turn that extends the chain, and the turns after it. -/
theorem Rewrites.link (wf : boot.WellFormed) (chain : FatChain boot disk current clusters)
    (turn : Extended boot buf size offset current disk mid newCluster)
    (rest : Rewrites boot mid disk' newCluster [newCluster] tail) :
    Rewrites boot disk disk' current clusters (current :: tail) := by
  have first := chain.chain.first_mem
  have outside : ∀ {cluster}, fatEntry boot disk cluster ≠ 0 → cluster ∉ [newCluster] :=
    fun taken => by simpa using turn.notNew wf taken
  have kept : ∀ {cluster}, cluster < boot.totalClusters + 2 → cluster ∉ clusters →
      fatEntry boot disk cluster ≠ 0 → cluster ≠ current ∧
        fatEntry boot mid cluster = fatEntry boot disk cluster := by
    intro cluster inRange notMember taken
    have notCurrent : cluster ≠ current := fun same => notMember (same ▸ first)
    exact ⟨notCurrent, turn.entry wf inRange notCurrent taken⟩
  refine ⟨⟨.link ?_ rest.chain.chain, ?_⟩, ?_, ?_, ?_⟩
  · refine nextOf_link ?_ (data_lt_endOfChain wf turn.step.data)
    rw [rest.entries current turn.data.2 (outside turn.used) (turn.linked), turn.step.link]
  · intro cluster member
    rcases List.mem_cons.mp member with same | later
    · exact same ▸ turn.data
    · exact rest.chain.data cluster later
  · intro cluster member
    rcases List.mem_cons.mp member with same | later
    · exact .inl (same ▸ first)
    · right
      rcases rest.within cluster later with new | zero
      · rw [List.mem_singleton.mp new]
        exact turn.free wf
      · by_contra taken
        have inRange := (rest.chain.data cluster later).2
        by_cases notCurrent : cluster = current
        · exact turn.linked (notCurrent ▸ zero)
        · exact taken ((turn.entry wf inRange notCurrent taken).symm.trans zero)
  · intro cluster inRange notMember taken
    obtain ⟨_, same⟩ := kept inRange notMember taken
    rw [rest.entries cluster inRange (outside taken) (by rw [same]; exact taken), same]
  · intro cluster data notMember taken s inside
    obtain ⟨notCurrent, same⟩ := kept data.2 notMember taken
    rw [rest.frame cluster data (outside taken) (by rw [same]; exact taken) s inside,
      turn.step.contents cluster data (turn.notNew wf taken) s inside,
      writtenDisk_other wf buf disk turn.data data notCurrent inside]

/-- The loop has stored `size - offset` bytes along the new chain. -/
structure Written (boot : FAT32BootSector) (buf : Bytes) (size offset : Nat) (disk disk' : Disk)
    (current : Nat) (clusters clusters' : List Nat) : Prop
    extends Rewrites boot disk disk' current clusters clusters' where
  long : size ≤ offset + clusters'.length * boot.clusterSize
  fits : offset + clusters'.length * boot.clusterSize < 4294967296
  contents : ∀ position, offset + position < size →
    chainByte boot disk' clusters' position = buf (offset + position)

theorem Written.last (wf : boot.WellFormed) (buf : Bytes) (chain : FatChain boot disk current clusters)
    (small : size ≤ 4294967296)
    (fits : offset + clusters.length * boot.clusterSize < 4294967296)
    (last : size ≤ offset + boot.clusterSize) :
    Written boot buf size offset disk (writtenDisk boot buf size offset current disk)
      current clusters clusters := by
  obtain ⟨rest, whole⟩ := chain.chain.cons
  have single : 1 * boot.clusterSize ≤ clusters.length * boot.clusterSize :=
    Nat.mul_le_mul_right _ (by simp [whole])
  refine ⟨.last wf chain buf size offset, by omega, fits, ?_⟩
  intro position below
  rw [whole, chainByte_first _ _ _ (by omega),
    writtenDisk_byte wf buf disk chain.first_data (by omega) small (by omega) below]

theorem Written.link (wf : boot.WellFormed) (chain : FatChain boot disk current clusters)
    (small : size ≤ 4294967296) (fits : offset + boot.clusterSize < 4294967296)
    (turn : Extended boot buf size offset current disk mid newCluster)
    (rest : Written boot buf size (offset + boot.clusterSize) mid disk' newCluster [newCluster] tail) :
    Written boot buf size offset disk disk' current clusters (current :: tail) := by
  have length : (current :: tail).length * boot.clusterSize =
      boot.clusterSize + tail.length * boot.clusterSize := by
    rw [List.length_cons, Nat.add_mul, Nat.one_mul, Nat.add_comm]
  have long := rest.long
  have short := rest.fits
  refine ⟨.link wf chain turn rest.toRewrites, by omega, by omega, ?_⟩
  intro position below
  by_cases here : position < boot.clusterSize
  · have outside : current ∉ [newCluster] := by simpa using turn.notNew wf turn.used
    rw [chainByte_first _ _ _ here, rest.frame current turn.data outside (turn.linked) _
      (sector_inside here), turn.byte wf fits small here below]
  · obtain ⟨beyond, rfl⟩ : ∃ beyond, position = boot.clusterSize + beyond :=
      ⟨position - boot.clusterSize, by omega⟩
    rw [chainByte_rest, rest.contents beyond (by omega), Nat.add_assoc]

/-- The writing loop of `fat_write_data` stores the buffer along a chain that
starts at the same cluster, given enough free clusters. -/
theorem writeLoop (wf : st.boot.WellFormed) (coherent : Coherent st) (buf : Bytes)
    (chain : FatChain st.boot st.disk current clusters)
    (small : size + st.boot.clusterSize ≤ 4294967296) (before : offset < size)
    (fits : offset + clusters.length * st.boot.clusterSize < 4294967296)
    (turns : Nat) (needed : size ≤ offset + (turns + 1) * st.boot.clusterSize)
    (room : turns ≤ (freeClusters st.boot st.disk).card) (enough : turns < fuel) :
    ∃ st' clusters', loop (writeTurn buf size) fuel ⟨current, offset, st⟩ = some st' ∧
      Coherent st' ∧ Kept st st' ∧
      Written st.boot buf size offset st.disk st'.disk current clusters clusters' := by
  induction turns generalizing st current offset clusters fuel with
  | zero =>
    obtain ⟨fuel, rfl⟩ : ∃ more, fuel = more + 1 := ⟨fuel - 1, by omega⟩
    have data := chain.first_data
    have last : size ≤ offset + st.boot.clusterSize := by omega
    have leave := writeTurn_leave buf current (data_lt_endOfChain wf data) st (by omega) last
    refine ⟨_, clusters, loop_leave leave fuel, ?_, ⟨rfl, rfl, rfl⟩, ?_⟩
    · exact coherent.rewrite _ (writtenDisk_offFat wf buf st.disk data)
    · exact .last wf buf chain (by omega) fits last
  | succ turns ih =>
    obtain ⟨fuel, rfl⟩ : ∃ more, fuel = more + 1 := ⟨fuel - 1, by omega⟩
    have data := chain.first_data
    have low := data_lt_endOfChain wf data
    have rewritten := coherent.rewrite (writtenDisk st.boot buf size offset current st.disk)
      (writtenDisk_offFat wf buf st.disk data)
    by_cases last : size ≤ offset + st.boot.clusterSize
    · have leave := writeTurn_leave buf current low st (by omega) last
      exact ⟨_, clusters, loop_leave leave fuel, rewritten, ⟨rfl, rfl, rfl⟩,
        .last wf buf chain (by omega) fits last⟩
    · have again := writeTurn_again buf current low st (by omega) (Nat.not_le.mp last)
      have used : fatEntry st.boot (writtenDisk st.boot buf size offset current st.disk) current ≠ 0 := by
        rw [fatEntry_writtenDisk wf buf st.disk data data.2]
        exact chain.entry_ne_zero chain.chain.first_mem
      obtain ⟨after, outcome⟩ := @fatExtendChain_coherent
        { st with disk := writtenDisk st.boot buf size offset current st.disk } current
        wf rewritten data.2 used
      have kept := fatExtendChain_kept current
        { st with disk := writtenDisk st.boot buf size offset current st.disk }
      have free : freeClusters st.boot (writtenDisk st.boot buf size offset current st.disk) =
          freeClusters st.boot st.disk := freeClusters_writtenDisk wf buf st.disk data
      generalize fatExtendChain current
        { st with disk := writtenDisk st.boot buf size offset current st.disk } = extended
        at again after outcome kept
      obtain ⟨newCluster, mid⟩ := extended
      obtain ⟨boot, cwd, path⟩ := kept
      simp only [free] at again after outcome boot cwd path
      rcases outcome with ⟨empty, _, _⟩ | ⟨step, taken⟩
      · rw [empty, Finset.card_empty] at room
        omega
      · have member : newCluster ∈ freeClusters st.boot st.disk := by
          rw [← free]
          exact mem_freeClusters.mpr ⟨step.data, step.free⟩
        have fewer := Finset.card_erase_of_mem member
        have single : FatChain st.boot mid.disk newCluster [newCluster] := .single step.data step.last
        have turn : Extended st.boot buf size offset current st.disk mid.disk newCluster :=
          ⟨step, data, chain.entry_ne_zero chain.chain.first_mem⟩
        have total : offset + (turns + 1 + 1) * st.boot.clusterSize =
            offset + st.boot.clusterSize + (turns + 1) * st.boot.clusterSize := by ring
        have next := @ih mid newCluster [newCluster] (offset + st.boot.clusterSize) fuel
        rw [boot, taken, List.length_singleton, Nat.one_mul] at next
        obtain ⟨st', tail, result, coherent', kept', rest⟩ := next wf after single small
          (Nat.not_le.mp last) (by omega) (by omega) (by omega) (by omega)
        exact ⟨st', current :: tail, (loop_again again fuel).trans result, coherent',
          ⟨kept'.boot.trans boot, kept'.cwdCluster.trans cwd, kept'.cwdPath.trans path⟩,
          .link wf chain (by omega) (by omega) turn rest⟩

end LivlyOS.Fs
