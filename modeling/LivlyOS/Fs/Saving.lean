import LivlyOS.Fs.FreeSearch
import LivlyOS.Fs.RoundTrip
import LivlyOS.Fs.Slots
import LivlyOS.Fs.Walk
import LivlyOS.Fs.WriteLoop

namespace LivlyOS.Fs

open LivlyOS.Lib

theorem readFat_sizedDisk {boot : FAT32BootSector} (wf : boot.WellFormed)
    (place : HitIn boot disk wanted clusters hit cluster s) (data : boot.DataCluster cluster)
    (size : Nat) (fat : boot.IsFatSector lba) :
    ataReadSector (sizedDisk disk hit size) lba = ataReadSector disk lba := by
  rw [sizedDisk, place.lba]
  exact readFat_writeData wf disk _ data place.inside fat

section Save

variable {st : FatState} {name : CString} {dirs files : List Nat} {hit : Hit}
  (wf : st.boot.WellFormed) (lagging : Lagging st)
  (directory : FatChain st.boot st.disk st.cwdCluster dirs)
  (found : firstHit st.boot st.disk (Sector.slotMatches name) dirs = some hit)
  (file : FatChain st.boot st.disk (hit.buf.slotCluster hit.slot) files)
include wf directory found

theorem fatEntry_sizedDisk (size : Nat) (inRange : cluster < st.boot.totalClusters + 2) :
    fatEntry st.boot (sizedDisk st.disk hit size) cluster = fatEntry st.boot st.disk cluster := by
  obtain ⟨owner, s, place⟩ := firstHit_some found
  exact place.fatEntry wf (directory.data owner place.member) _ inRange

theorem freeClusters_sizedDisk (size : Nat) :
    freeClusters st.boot (sizedDisk st.disk hit size) = freeClusters st.boot st.disk :=
  freeClusters_congr (fun _ inRange => fatEntry_sizedDisk wf directory found size inRange)

theorem chain_sizedDisk (size : Nat) (chain : FatChain st.boot st.disk first clusters) :
    FatChain st.boot (sizedDisk st.disk hit size) first clusters :=
  chain.congr (fun cluster member =>
    fatEntry_sizedDisk wf directory found size (chain.data cluster member).2)

theorem clusterData_sizedDisk (size : Nat) (data : st.boot.DataCluster cluster)
    (inside : s < st.boot.spc) (position : Nat)
    (outside : st.boot.clusterLba cluster s = hit.lba →
      position < 32 * hit.slot + 28 ∨ 32 * hit.slot + 32 ≤ position) :
    (clusterData st.boot (sizedDisk st.disk hit size) cluster s).bytes position =
      (clusterData st.boot st.disk cluster s).bytes position := by
  obtain ⟨owner, t, place⟩ := firstHit_some found
  rw [sizedDisk, place.lba, clusterData_write wf st.disk _ (directory.data owner place.member) data
    place.inside inside]
  split
  · rename_i here
    rw [here.1, here.2, ← place.buf]
    exact Sector.setSize_other _ (outside (by rw [here.1, here.2, place.lba]))
  · rfl

/-- The state in which the writing loop starts. -/
def saveStart (name : CString) (dirs : List Nat) (hit : Hit) (size : Nat) (st : FatState) : FatState :=
  { searched name dirs st with disk := sizedDisk st.disk hit size }

omit wf directory found in
theorem saveStart_kept (clean : st.fatCacheDirty = false) (name : CString) (dirs : List Nat) (hit : Hit)
    (size : Nat) : Kept st (saveStart name dirs hit size st) := by
  have kept := (searched_loaded clean name dirs).kept
  exact ⟨kept.boot, kept.cwdCluster, kept.cwdPath⟩

theorem saveStart_sameFat (clean : st.fatCacheDirty = false) (size : Nat) (lba : Nat)
    (fat : (searched name dirs st).boot.IsFatSector lba) :
    ataReadSector (sizedDisk st.disk hit size) lba = ataReadSector (searched name dirs st).disk lba := by
  obtain ⟨owner, s, place⟩ := firstHit_some found
  have loaded := searched_loaded clean name dirs
  rw [loaded.kept.boot] at fat
  rw [loaded.disk]
  exact readFat_sizedDisk wf place (directory.data owner place.member) size fat

theorem saveStart_coherent (coherent : Coherent st) (size : Nat) : Coherent (saveStart name dirs hit size st) :=
  (coherent.loaded (searched_loaded coherent.clean name dirs)).rewrite _
    (saveStart_sameFat wf directory found coherent.clean size)

include lagging

theorem saveStart_lagging (size : Nat) : Lagging (saveStart name dirs hit size st) := by
  have loaded := searched_loaded lagging.clean name dirs
  exact (lagging.loaded loaded).rewrite (by rw [loaded.kept.boot]; exact wf.layout) _
    (saveStart_sameFat wf directory found lagging.clean size)

/-- Storing the size hides and shows no free cluster. -/
theorem saveStart_free (size : Nat) :
    seenFree (saveStart name dirs hit size st) = seenFree (searched name dirs st) ∧
      lostFree (saveStart name dirs hit size st) = lostFree (searched name dirs st) := by
  have loaded := searched_loaded lagging.clean name dirs
  have lagging' := lagging.loaded loaded
  have wf' : (searched name dirs st).boot.WellFormed := by
    rw [loaded.kept.boot]
    exact wf
  exact ⟨seenFree_rewrite lagging' wf' (saveStart_sameFat wf directory found lagging.clean size),
    lostFree_rewrite lagging' wf' (saveStart_sameFat wf directory found lagging.clean size)⟩

omit wf in
/-- A save starts with the new size in the slot and goes on with the writing loop. -/
theorem fatWriteData_start (enough : dirs.length ≤ fuel) (buf : Bytes) (size : Nat) :
    fatWriteData fuel name buf size st =
      loop (writeTurn buf size) fuel ⟨hit.buf.slotCluster hit.slot, 0, saveStart name dirs hit size st⟩ := by
  have walk : locate fuel name st = some (some hit, searched name dirs st) := by
    rw [← found]
    exact locate_searched lagging directory enough name
  have disk := (searched_loaded lagging.clean name dirs).disk
  rw [fatWriteData, walk, saveStart, sizedDisk, ← disk]

include file

/-- A save ends for every size. The file keeps its first cluster, its new chain
consists of old clusters and free ones, and nothing else in use changes. -/
theorem fatWriteData_rewrites (buf : Bytes) (size : Nat) :
    ∃ enough, ∀ fuel, enough ≤ fuel → ∃ st' clusters, fatWriteData fuel name buf size st = some st' ∧
      Lagging st' ∧ (Coherent st → Coherent st') ∧ Kept st st' ∧
      Rewrites st.boot (sizedDisk st.disk hit size) st'.disk (hit.buf.slotCluster hit.slot)
        files clusters := by
  refine ⟨dirs.length + (freeClusters st.boot st.disk).card + 2, fun fuel enough => ?_⟩
  have kept := saveStart_kept lagging.clean name dirs hit size
  have total := @writeLoop_total (saveStart name dirs hit size st)
  rw [kept.boot] at total
  obtain ⟨st', clusters, result, lagging', coherent', rest, rewrites⟩ := total wf
    (saveStart_lagging wf lagging directory found size) buf (chain_sizedDisk wf directory found size file) size 0
    (freeClusters st.boot st.disk).card (by exact (congrArg Finset.card (freeClusters_sizedDisk wf directory found size)).le)
    (by omega : _ < fuel)
  exact ⟨st', clusters, (fatWriteData_start lagging directory found (by omega) buf size).trans result, lagging',
    fun coherent => coherent' (saveStart_coherent wf directory found coherent size), kept.trans rest, rewrites⟩

end Save

/-- A save changes no FAT entry and no byte of any other chain, except for the
size in the entry of the file. -/
theorem fatWriteData_isolated {st : FatState} {name : CString} {dirs files : List Nat} {hit : Hit}
    (wf : st.boot.WellFormed) (coherent : Coherent st)
    (directory : FatChain st.boot st.disk st.cwdCluster dirs)
    (found : firstHit st.boot st.disk (Sector.slotMatches name) dirs = some hit)
    (file : FatChain st.boot st.disk (hit.buf.slotCluster hit.slot) files)
    (buf : Bytes) (size : Nat) :
    ∃ enough, ∀ fuel, enough ≤ fuel → ∃ st', fatWriteData fuel name buf size st = some st' ∧
      ∀ first others, FatChain st.boot st.disk first others → List.Disjoint others files →
        ∀ cluster ∈ others, fatEntry st.boot st'.disk cluster = fatEntry st.boot st.disk cluster ∧
          ∀ s < st.boot.spc, ∀ position < 512,
            (st.boot.clusterLba cluster s = hit.lba →
              position < 32 * hit.slot + 28 ∨ 32 * hit.slot + 32 ≤ position) →
            (clusterData st.boot st'.disk cluster s).bytes position =
              (clusterData st.boot st.disk cluster s).bytes position := by
  obtain ⟨enough, runs⟩ := fatWriteData_rewrites wf (coherent.lagging wf.layout) directory found file buf size
  refine ⟨enough, fun fuel more => ?_⟩
  obtain ⟨st', clusters, result, _, _, _, rewrites⟩ := runs fuel more
  refine ⟨st', result, fun first others chain apart cluster member => ?_⟩
  have data := chain.data cluster member
  have outside : cluster ∉ files := fun inFile => apart member inFile
  have sized := fatEntry_sizedDisk wf directory found size data.2
  have taken : fatEntry st.boot (sizedDisk st.disk hit size) cluster ≠ 0 := by
    rw [sized]
    exact chain.entry_ne_zero member
  constructor
  · exact (rewrites.entries cluster data.2 outside taken).trans sized
  · intro s inside position _ field
    rw [rewrites.frame cluster data outside taken s inside]
    exact clusterData_sizedDisk wf directory found size data inside position field

theorem oneFileVolume_directory : (mounted oneFileVolume).boot = sampleBoot ∧
    FatChain (mounted oneFileVolume).boot (mounted oneFileVolume).disk
      (mounted oneFileVolume).cwdCluster [2] ∧
    FatChain (mounted oneFileVolume).boot (mounted oneFileVolume).disk 3 [3] ∧
    ∃ hit, firstHit (mounted oneFileVolume).boot (mounted oneFileVolume).disk
        (Sector.slotMatches [0x41]) [2] = some hit ∧ hit.buf.slotCluster hit.slot = 3 := by
  have boot : (mounted oneFileVolume).boot = sampleBoot := (mounted_image _ _ _).1
  refine ⟨boot, ⟨.last (nextOf_last (by decide +kernel)), by rw [boot]; decide⟩,
    ⟨.last (nextOf_last (by decide +kernel)), by rw [boot]; decide⟩, ?_⟩
  exact Option.map_eq_some_iff.mp (by decide +kernel)

theorem fatWriteData_isolated_oneFile :
    ∃ hit : Hit, ∃ enough, ∀ fuel, enough ≤ fuel → ∃ st',
      fatWriteData fuel [0x41] UInt8.ofNat 1000 (mounted oneFileVolume) = some st' ∧
      ∀ first others, FatChain (mounted oneFileVolume).boot (mounted oneFileVolume).disk first others →
        List.Disjoint others [3] → ∀ cluster ∈ others,
          fatEntry (mounted oneFileVolume).boot st'.disk cluster =
            fatEntry (mounted oneFileVolume).boot (mounted oneFileVolume).disk cluster ∧
          ∀ s < (mounted oneFileVolume).boot.spc, ∀ position < 512,
            ((mounted oneFileVolume).boot.clusterLba cluster s = hit.lba →
              position < 32 * hit.slot + 28 ∨ 32 * hit.slot + 32 ≤ position) →
            (clusterData (mounted oneFileVolume).boot st'.disk cluster s).bytes position =
              (clusterData (mounted oneFileVolume).boot (mounted oneFileVolume).disk cluster s).bytes
                position := by
  obtain ⟨boot, directory, file, hit, found, first⟩ := oneFileVolume_directory
  exact ⟨hit, fatWriteData_isolated (by rw [boot]; exact sampleBoot_wellFormed) (mounted_coherent _)
    directory found (by rw [first]; exact file) UInt8.ofNat 1000⟩

/-- The offset behind `count` sectors of the writing loop: a `uint32_t` that
stays where it is once it has reached the size. -/
def nextOffset (size : Nat) : (count offset : Nat) → Nat
  | 0, offset => offset
  | count + 1, offset =>
    if size ≤ offset then offset else nextOffset size count (u32 (offset + 512))

theorem writeSectors_nextOffset (buf : Bytes) (size sektor count s offset : Nat) (disk : Disk) :
    (writeSectors buf size sektor count s offset disk).1 = nextOffset size count offset := by
  induction count generalizing s offset disk with
  | zero => rfl
  | succ count ih =>
    rw [writeSectors, nextOffset]
    split
    · rfl
    · exact ih _ _ _

/-- Without a wrap the offset tells whether there is more to write. -/
theorem nextOffset_fits (short : size + 512 ≤ 4294967296) (count offset : Nat) :
    (nextOffset size count offset < size ↔ offset + count * 512 < size) ∧
      (offset + count * 512 < size → nextOffset size count offset = offset + count * 512) := by
  induction count generalizing offset with
  | zero => simp [nextOffset]
  | succ count ih =>
    rw [nextOffset]
    split
    · constructor <;> omega
    · have next : u32 (offset + 512) = offset + 512 := u32_of_lt (by omega)
      obtain ⟨more, value⟩ := ih (offset + 512)
      rw [next, Nat.add_mul, Nat.one_mul, Nat.add_comm (count * 512), ← Nat.add_assoc]
      exact ⟨more, value⟩

/-- A size behind the last whole sector below 2^32 is never reached. -/
theorem nextOffset_wraps (long : 4294967296 < size + 512) (small : size ≤ 4294967296)
    (count : Nat) (aligned : 512 ∣ offset) (below : offset < size) :
    512 ∣ nextOffset size count offset ∧ nextOffset size count offset < size := by
  induction count generalizing offset with
  | zero => exact ⟨aligned, below⟩
  | succ count ih =>
    rw [nextOffset, if_neg (by omega)]
    have whole : 512 ∣ u32 (offset + 512) := by
      unfold u32
      omega
    refine ih whole ?_
    have range := u32_lt (offset + 512)
    omega

/-- The first `turns` turns of the writing loop leave data to write. -/
def Continues (size spc : Nat) : (turns offset : Nat) → Prop
  | 0, _ => True
  | turns + 1, offset =>
    nextOffset size spc offset < size ∧ Continues size spc turns (nextOffset size spc offset)

theorem Continues.mono {offset : Nat} (all : Continues size spc turns offset) (some : 0 < turns) :
    Continues size spc 1 offset := by
  cases turns with
  | zero => cases some
  | succ turns => exact ⟨all.1, trivial⟩

theorem continues_fits (short : size + 512 ≤ 4294967296) (spc turns offset : Nat) :
    Continues size spc turns offset ↔ turns = 0 ∨ offset + turns * (spc * 512) < size := by
  induction turns generalizing offset with
  | zero => simp [Continues]
  | succ turns ih =>
    obtain ⟨more, value⟩ := nextOffset_fits short spc offset
    rw [Continues, ih, more, Nat.add_mul, Nat.one_mul]
    constructor
    · rintro ⟨here, zero | later⟩
      · right
        rw [zero]
        omega
      · rw [value here] at later
        omega
    · rintro (zero | all)
      · cases zero
      · have here : offset + spc * 512 < size := by omega
        rw [value here]
        omega

theorem continues_wraps (long : 4294967296 < size + 512) (small : size ≤ 4294967296)
    (spc turns : Nat) (aligned : 512 ∣ offset) (below : offset < size) :
    Continues size spc turns offset := by
  induction turns generalizing offset with
  | zero => trivial
  | succ turns ih =>
    obtain ⟨aligned', below'⟩ := nextOffset_wraps long small spc aligned below
    exact ⟨below', ih aligned' below'⟩

/-- The clusters the writing loop appends behind `current`, in their order. -/
structure Grown (boot : FAT32BootSector) (disk disk' : Disk) (current : Nat) (added : List Nat) : Prop where
  fresh : ∀ cluster ∈ added, fatEntry boot disk cluster = 0
  entries : ∀ cluster, cluster < boot.totalClusters + 2 → cluster ≠ current →
    fatEntry boot disk cluster ≠ 0 → fatEntry boot disk' cluster = fatEntry boot disk cluster
  same : added = [] → ∀ cluster, cluster < boot.totalClusters + 2 →
    fatEntry boot disk' cluster = fatEntry boot disk cluster
  chain : added ≠ [] → FatChain boot disk' current (current :: added)

namespace Grown

theorem refl (same : ∀ cluster, cluster < boot.totalClusters + 2 →
    fatEntry boot disk' cluster = fatEntry boot disk cluster) (current : Nat) :
    Grown boot disk disk' current [] where
  fresh := by simp
  entries := fun cluster inRange _ _ => same cluster inRange
  same := fun _ => same
  chain := fun absurdity => absurd rfl absurdity

/-- One appended cluster and those the later turns append behind it. -/
theorem link (turn : Extended boot buf size offset current disk mid newCluster)
    (wf : boot.WellFormed) (rest : Grown boot mid disk' newCluster added) :
    Grown boot disk disk' current (newCluster :: added) := by
  have newData := turn.step.data
  have newUsed : fatEntry boot mid newCluster ≠ 0 := by
    rw [turn.step.last]
    decide
  have different : current ≠ newCluster := turn.notNew wf turn.used
  have linked : fatEntry boot disk' current = newCluster :=
    (rest.entries current turn.data.2 different turn.linked).trans turn.step.link
  have tail : FatChain boot disk' newCluster (newCluster :: added) := by
    cases added with
    | nil => exact ⟨.last (nextOf_last ((rest.same rfl newCluster newData.2).trans turn.step.last)),
        fun cluster member => List.mem_singleton.mp member ▸ newData⟩
    | cons next more => exact rest.chain (List.cons_ne_nil _ _)
  refine ⟨?_, ?_, fun absurdity => absurd absurdity (List.cons_ne_nil _ _), fun _ => ?_⟩
  · intro cluster member
    rcases List.mem_cons.mp member with rfl | later
    · exact turn.free wf
    · by_contra used
      have data := tail.data cluster member
      have notCurrent : cluster ≠ current := by
        rintro rfl
        exact turn.linked (rest.fresh cluster later)
      exact used ((turn.entry wf data.2 notCurrent used).symm.trans (rest.fresh cluster later))
  · intro cluster inRange notCurrent used
    have kept := turn.entry wf inRange notCurrent used
    refine (rest.entries cluster inRange (turn.notNew wf used) ?_).trans kept
    rwa [kept]
  · refine ⟨.link (nextOf_link linked (data_lt_endOfChain wf newData)) tail.chain, ?_⟩
    intro cluster member
    rcases List.mem_cons.mp member with rfl | later
    · exact turn.data
    · exact tail.data cluster later

end Grown

/-- How many they are: none when the driver sees no free cluster or all data is written, else as many as there
is data for, or all that are left when the hidden ones are lost. -/
structure Appended (st : FatState) (disk' : Disk) (size offset : Nat) (added : List Nat) : Prop where
  wanted : Continues size st.boot.spc added.length offset
  none : added = [] → seenFree st = ∅ ∨ ¬ Continues size st.boot.spc 1 offset
  some : added ≠ [] → (seenFree st).Nonempty
  count : added ≠ [] → (freeClusters st.boot disk').card + added.length + (lostFree st).card =
    (freeClusters st.boot st.disk).card
  stop : added ≠ [] → freeClusters st.boot disk' = ∅ ∨ ¬ Continues size st.boot.spc (added.length + 1) offset

theorem Appended.nothing (why : seenFree st = ∅ ∨ ¬ Continues size st.boot.spc 1 offset) :
    Appended st disk' size offset [] where
  wanted := trivial
  none := fun _ => why
  some := fun absurdity => absurd rfl absurdity
  count := fun absurdity => absurd rfl absurdity
  stop := fun absurdity => absurd rfl absurdity

/-- The first turn over a lagging cache; behind it the cache agrees with the disk. -/
theorem Appended.link {st mid : FatState} (lagging : Lagging st) (wf : st.boot.WellFormed)
    (member : n ∈ seenFree st) (coherent : Coherent mid) (boot : mid.boot = st.boot)
    (taken : freeClusters st.boot mid.disk = (freeClusters st.boot st.disk \ lostFree st).erase n)
    (more : nextOffset size st.boot.spc offset < size)
    (grown : Grown st.boot mid.disk disk' n added)
    (rest : Appended mid disk' size (nextOffset size st.boot.spc offset) added) :
    Appended st disk' size offset (n :: added) := by
  have layout : mid.boot.FatLayout := by
    rw [boot]
    exact wf.layout
  obtain ⟨wanted, none, -, count, stop⟩ := rest
  rw [coherent.seenFree layout (.refl coherent.clean), boot] at none
  rw [coherent.lostFree layout (.refl coherent.clean), Finset.card_empty, boot] at count
  rw [boot] at wanted stop
  have card := card_taken lagging member
  rw [← taken] at card
  refine ⟨⟨more, wanted⟩, fun absurdity => absurd absurdity (List.cons_ne_nil _ _), fun _ => ⟨n, member⟩,
    fun _ => ?_, fun _ => ?_⟩
  all_goals cases added with
    | nil => ?_
    | cons next later => ?_
  · rw [freeClusters_congr (grown.same rfl), List.length_singleton]
    exact card
  · have left := count (List.cons_ne_nil _ _)
    rw [List.length_cons]
    omega
  · refine (none rfl).imp (fun full => ?_) fun ended further => ended further.2
    rwa [freeClusters_congr (grown.same rfl)]
  · exact (stop (List.cons_ne_nil _ _)).imp id fun ended further => ended further.2

/-- The writing loop appends clusters until the offset reaches the size or no free cluster is found. -/
theorem writeLoop_grows (wf : st.boot.WellFormed) (lagging : Lagging st) (buf : Bytes)
    (chain : FatChain st.boot st.disk current clusters) (size offset : Nat)
    (enough : (freeClusters st.boot st.disk).card + 1 < fuel) :
    ∃ st' added, loop (writeTurn buf size) fuel ⟨current, offset, st⟩ = some st' ∧
      Grown st.boot st.disk st'.disk current added ∧ Appended st st'.disk size offset added := by
  generalize room : (freeClusters st.boot st.disk).card = turns at enough
  induction turns using Nat.strong_induction_on generalizing st current offset clusters fuel with
  | _ turns ih =>
    obtain ⟨fuel, rfl⟩ : ∃ more, fuel = more + 2 := ⟨fuel - 2, by omega⟩
    have data := chain.first_data
    have small := data_lt_endOfChain wf data
    have used := chain.entry_ne_zero chain.chain.first_mem
    have sameFat : ∀ lba, st.boot.IsFatSector lba →
        ataReadSector (writtenDisk st.boot buf size offset current st.disk) lba = ataReadSector st.disk lba :=
      writtenDisk_offFat wf buf st.disk data
    have lagging₁ := lagging.rewrite wf.layout _ sameFat
    have entries : ∀ cluster, cluster < st.boot.totalClusters + 2 →
        fatEntry st.boot (writtenDisk st.boot buf size offset current st.disk) cluster =
          fatEntry st.boot st.disk cluster :=
      fun _ inRange => fatEntry_writtenDisk wf buf st.disk data inRange
    by_cases more : nextOffset size st.boot.spc offset < size
    · have again : writeTurn buf size ⟨current, offset, st⟩ =
          .again ⟨(fatExtendChain current { st with
              disk := writtenDisk st.boot buf size offset current st.disk }).1,
            nextOffset size st.boot.spc offset, (fatExtendChain current { st with
              disk := writtenDisk st.boot buf size offset current st.disk }).2⟩ := by
        simp only [writeTurn, Nat.not_le.mpr small, ↓reduceIte, writeSectors_nextOffset, more, writtenDisk]
      have outcome := fatExtendChain_seen lagging₁ wf data.2 (by rw [entries current data.2]; exact used)
      rw [seenFree_rewrite lagging wf sameFat, lostFree_rewrite lagging wf sameFat,
        freeClusters_writtenDisk wf buf st.disk data] at outcome
      have kept := fatExtendChain_kept current
        { st with disk := writtenDisk st.boot buf size offset current st.disk }
      generalize fatExtendChain current
        { st with disk := writtenDisk st.boot buf size offset current st.disk } = extended
        at again outcome kept
      obtain ⟨n, mid⟩ := extended
      obtain ⟨boot, cwd, path⟩ := kept
      simp only at again outcome boot cwd path
      rcases outcome with ⟨none, full, loaded⟩ | ⟨-, coherent, step, member, taken⟩
      · -- no free cluster is found: the end mark leaves the loop
        have ended : endOfChain ≤ n := by
          rw [full]
          decide
        have leave := writeTurn_end buf size (nextOffset size st.boot.spc offset) ended mid
        exact ⟨mid, [], (loop_again again _).trans (loop_leave leave _),
          .refl (by rw [loaded.disk]; exact entries) current, .nothing (.inl none)⟩
      · have turn : Extended st.boot buf size offset current st.disk mid.disk n := ⟨step, data, used⟩
        have card := card_taken lagging member
        rw [← taken] at card
        have single : FatChain st.boot mid.disk n [n] := .single step.data step.last
        have next := @ih (freeClusters st.boot mid.disk).card (by omega) mid n [n] (fuel + 1)
        rw [boot] at next
        obtain ⟨st', added, result, grown, rest⟩ := next wf (coherent.lagging (by rw [boot]; exact wf.layout))
          single (nextOffset size st.boot.spc offset) rfl (by omega)
        exact ⟨st', n :: added, (loop_again again _).trans result, .link turn wf grown,
          .link lagging wf member coherent boot taken more grown rest⟩
    · have leave : writeTurn buf size ⟨current, offset, st⟩ =
          .leave { st with disk := writtenDisk st.boot buf size offset current st.disk } := by
        simp only [writeTurn, Nat.not_le.mpr small, ↓reduceIte, writeSectors_nextOffset, more, writtenDisk]
      refine ⟨_, [], loop_leave leave _, .refl entries current, .nothing (.inr ?_)⟩
      rintro ⟨further, _⟩
      exact more further

/-- A walk along a chain gets to all of its clusters. -/
theorem FatChain.mem_reach (chain : FatChain boot disk first clusters) (member : cluster ∈ clusters) :
    Reach boot disk first cluster := by
  obtain ⟨walk, -⟩ := chain
  induction walk with
  | last _ =>
    rw [List.mem_singleton.mp member]
    exact .refl
  | link step _ ih =>
    rcases List.mem_cons.mp member with rfl | later
    · exact .refl
    · exact .head step (ih later)

section Save

variable {st : FatState} {name : CString} {dirs files : List Nat} {hit : Hit}
  (wf : st.boot.WellFormed) (lagging : Lagging st)
  (directory : FatChain st.boot st.disk st.cwdCluster dirs)
  (found : firstHit st.boot st.disk (Sector.slotMatches name) dirs = some hit)
  (file : FatChain st.boot st.disk (hit.buf.slotCluster hit.slot) files)
  (apart : List.Disjoint dirs files)
include wf directory found

theorem reload_saved (apart : List.Disjoint dirs files)
    (rewrites : Rewrites st.boot (sizedDisk st.disk hit size) disk' current files clusters) :
    (hit.reload disk').buf = hit.buf.setSize hit.slot size := by
  obtain ⟨owner, s, place⟩ := firstHit_some found
  have data := directory.data owner place.member
  have taken : fatEntry st.boot (sizedDisk st.disk hit size) owner ≠ 0 := by
    rw [fatEntry_sizedDisk wf directory found size data.2]
    exact directory.entry_ne_zero place.member
  have sector := rewrites.frame owner data (fun inFile => apart place.member inFile) taken s place.inside
  rw [Hit.reload, place.lba]
  refine sector.trans ?_
  rw [sizedDisk, place.lba, clusterData_write wf _ _ data data place.inside place.inside,
    if_pos ⟨rfl, rfl⟩]

theorem directory_saved (apart : List.Disjoint dirs files)
    (rewrites : Rewrites st.boot (sizedDisk st.disk hit size) disk' current files clusters) :
    FatChain st.boot disk' st.cwdCluster dirs ∧
      firstHit st.boot disk' (Sector.slotMatches name) dirs = some (hit.reload disk') := by
  obtain ⟨owner, s, place⟩ := firstHit_some found
  have entries : ∀ cluster ∈ dirs, fatEntry st.boot (sizedDisk st.disk hit size) cluster =
      fatEntry st.boot st.disk cluster :=
    fun cluster member => fatEntry_sizedDisk wf directory found size (directory.data cluster member).2
  have used : ∀ cluster ∈ dirs, fatEntry st.boot (sizedDisk st.disk hit size) cluster ≠ 0 :=
    fun cluster member => (entries cluster member).symm ▸ directory.entry_ne_zero member
  constructor
  · refine directory.congr (fun cluster member => ?_)
    exact (rewrites.entries cluster (directory.data cluster member).2 (apart member)
      (used cluster member)).trans (entries cluster member)
  · rw [firstHit_setSize wf directory.data place (fun cluster member =>
      rewrites.frame cluster (directory.data cluster member) (apart member) (used cluster member)), found]
    rfl

theorem reload_cluster (apart : List.Disjoint dirs files)
    (rewrites : Rewrites st.boot (sizedDisk st.disk hit size) disk' current files clusters) :
    (hit.reload disk').buf.slotCluster hit.slot = hit.buf.slotCluster hit.slot := by
  obtain ⟨_, _, place⟩ := firstHit_some found
  rw [reload_saved wf directory found apart rewrites]
  exact Sector.slotCluster_setSize hit.buf (findInSector_some place.found).1

include lagging file

/-- The FAT after a save: so many clusters were appended behind the first one. -/
theorem fatWriteData_grows (buf : Bytes) (size : Nat) :
    ∃ enough, ∀ fuel, enough ≤ fuel → ∃ st' added clusters, fatWriteData fuel name buf size st = some st' ∧
      Grown st.boot (sizedDisk st.disk hit size) st'.disk (hit.buf.slotCluster hit.slot) added ∧
      Appended (saveStart name dirs hit size st) st'.disk size 0 added ∧
      Rewrites st.boot (sizedDisk st.disk hit size) st'.disk (hit.buf.slotCluster hit.slot)
        files clusters := by
  obtain ⟨enough, runs⟩ := fatWriteData_rewrites wf lagging directory found file buf size
  refine ⟨enough + dirs.length + (freeClusters st.boot st.disk).card + 2, fun fuel more => ?_⟩
  obtain ⟨st', clusters, result, _, _, _, rewrites⟩ := runs fuel (by omega)
  have free := congrArg Finset.card (freeClusters_sizedDisk wf directory found size)
  have grows := @writeLoop_grows (saveStart name dirs hit size st)
  rw [(saveStart_kept lagging.clean name dirs hit size).boot] at grows
  obtain ⟨last, added, looped, grown, appended⟩ := grows wf (saveStart_lagging wf lagging directory found size) buf
    (chain_sizedDisk wf directory found size file) size 0
    (by change (freeClusters st.boot (sizedDisk st.disk hit size)).card + 1 < fuel; omega)
  rw [← fatWriteData_start lagging directory found (by omega) buf size] at looped
  cases result.symm.trans looped
  exact ⟨st', added, clusters, result, grown, appended, rewrites⟩

end Save

/-- The old clusters stay reachable exactly when nothing was appended behind
the first of several. -/
theorem Grown.kept_iff (grown : Grown boot disk disk' first added) (chain : FatChain boot disk first clusters) :
    (∀ cluster ∈ clusters, Reach boot disk' first cluster ∨ fatEntry boot disk' cluster = 0) ↔
      added = [] ∨ clusters.length = 1 := by
  constructor
  · intro kept
    by_contra both
    obtain ⟨appended, several⟩ := not_or.mp both
    obtain ⟨rest, rfl⟩ := chain.chain.cons
    cases rest with
    | nil => exact several rfl
    | cons second rest =>
      have member : second ∈ first :: second :: rest := by simp
      have different : second ≠ first := by
        rintro rfl
        simpa using chain.chain.nodup
      have used := chain.entry_ne_zero member
      rcases kept second member with reach | freed
      · rcases List.mem_cons.mp ((grown.chain appended).reach_mem reach) with same | later
        · exact different same
        · exact used (grown.fresh second later)
      · rw [grown.entries second (chain.data second member).2 different used] at freed
        exact used freed
  · rintro (nothing | single) cluster member
    · exact .inl ((chain.congr (fun other present =>
        grown.same nothing other (chain.data other present).2)).mem_reach member)
    · obtain ⟨rest, rfl⟩ := chain.chain.cons
      obtain rfl : rest = [] := List.length_eq_zero_iff.mp (Nat.succ.inj single)
      rw [List.mem_singleton.mp member]
      exact .inl .refl

/-- How many clusters a save appends: as many as the contents need behind the
first cluster, or all that are free. -/
theorem appended_fits (clusterPos : 0 < spc * 512) (positive : 1 ≤ size) (short : size + 512 ≤ 4294967296)
    (count : left + turns = free) (wanted : Continues size spc turns 0)
    (stop : left = 0 ∨ ¬ Continues size spc (turns + 1) 0) :
    turns = min ((size + spc * 512 - 1) / (spc * 512) - 1) free := by
  rw [continues_fits short, Nat.zero_add] at wanted
  rw [continues_fits short, Nat.zero_add] at stop
  have shift : size + spc * 512 - 1 = size - 1 + spc * 512 := by omega
  rw [shift, Nat.add_div_right _ clusterPos, Nat.succ_sub_one]
  have upper : turns ≤ (size - 1) / (spc * 512) := by
    rw [Nat.le_div_iff_mul_le clusterPos]
    rcases wanted with rfl | below
    · omega
    · omega
  rcases stop with full | ended
  · omega
  · have lower : (size - 1) / (spc * 512) < turns + 1 := by
      rw [Nat.div_lt_iff_lt_mul clusterPos]
      omega
    omega

theorem appended_wraps (long : 4294967296 < size + 512) (small : size < 4294967296)
    (count : left + turns = free) (stop : left = 0 ∨ ¬ Continues size spc (turns + 1) 0) :
    turns = free := by
  rcases stop with full | ended
  · omega
  · exact absurd (continues_wraps long (Nat.le_of_lt small) spc _ (Nat.dvd_zero 512) (by omega)) ended

/-- A save takes exactly the clusters it needs and loses none exactly when nothing is written behind the first
cluster, or the search sees no free cluster and none is needed, or the file has one cluster, no free cluster is
lost with the first one taken, and the offset does not wrap around before the volume is full. -/
theorem fatWriteData_leakFree {st : FatState} {name : CString} {dirs files : List Nat} {hit : Hit}
    {size : Nat} (wf : st.boot.WellFormed) (lagging : Lagging st)
    (directory : FatChain st.boot st.disk st.cwdCluster dirs)
    (found : firstHit st.boot st.disk (Sector.slotMatches name) dirs = some hit)
    (file : FatChain st.boot st.disk (hit.buf.slotCluster hit.slot) files)
    (apart : List.Disjoint dirs files) (buf : Bytes) (positive : 1 ≤ size) (small : size < 4294967296)
    (room : (size + st.boot.clusterSize - 1) / st.boot.clusterSize - files.length ≤
      (freeClusters st.boot st.disk).card) :
    ∃ enough, ∀ fuel, enough ≤ fuel → ∃ st', fatWriteData fuel name buf size st = some st' ∧
      (((freeClusters st.boot st'.disk).card +
            ((size + st.boot.clusterSize - 1) / st.boot.clusterSize - files.length) =
          (freeClusters st.boot st.disk).card ∧
        ∀ cluster ∈ files,
          Reach st.boot st'.disk ((hit.reload st'.disk).buf.slotCluster hit.slot) cluster ∨
            fatEntry st.boot st'.disk cluster = 0) ↔
      size ≤ st.boot.clusterSize ∨
        (seenFree (searched name dirs st) = ∅ ∧
          (size + st.boot.clusterSize - 1) / st.boot.clusterSize ≤ files.length) ∨
        ((seenFree (searched name dirs st)).Nonempty ∧ files.length = 1 ∧
          ((lostFree (searched name dirs st) = ∅ ∧ size + 512 ≤ 4294967296) ∨
            (freeClusters st.boot st.disk).card =
              (size + st.boot.clusterSize - 1) / st.boot.clusterSize - files.length))) := by
  obtain ⟨enough, runs⟩ := fatWriteData_grows wf lagging directory found file buf size
  refine ⟨enough, fun fuel more => ?_⟩
  obtain ⟨st', added, clusters, result, grown, ⟨wanted, none, some, count, stop⟩, rewrites⟩ := runs fuel more
  refine ⟨st', result, ?_⟩
  have boot := (saveStart_kept lagging.clean name dirs hit size).boot
  obtain ⟨seen, lost⟩ := saveStart_free wf lagging directory found size
  have free := freeClusters_sizedDisk wf directory found size
  rw [boot] at wanted none count stop
  rw [seen] at none some
  rw [lost] at count
  change added ≠ [] → _ = (freeClusters st.boot (sizedDisk st.disk hit size)).card at count
  rw [free] at count
  rw [reload_cluster wf directory found apart rewrites,
    grown.kept_iff (chain_sizedDisk wf directory found size file)]
  have clusterPos : 0 < st.boot.spc * 512 := Nat.mul_pos wf.spc_pos (by decide)
  have clusterSmall : st.boot.spc < 256 := UInt8.toNat_lt _
  have filesPos := file.chain.length_pos
  have needed : (size ≤ st.boot.spc * 512 ↔ (size + st.boot.spc * 512 - 1) / (st.boot.spc * 512) ≤ 1) := by
    have bound : (size + st.boot.spc * 512 - 1) / (st.boot.spc * 512) < 2 ↔
        size + st.boot.spc * 512 - 1 < 2 * (st.boot.spc * 512) := Nat.div_lt_iff_lt_mul clusterPos
    omega
  have first : Continues size st.boot.spc 1 0 ↔ st.boot.spc * 512 < size := by
    by_cases short : size + 512 ≤ 4294967296
    · rw [continues_fits short]
      omega
    · exact iff_of_true (continues_wraps (by omega) small.le _ _ (Nat.dvd_zero 512) (by omega)) (by omega)
  rw [clusterSize_eq] at room ⊢
  rw [first, not_lt, needed] at none
  rw [needed]
  by_cases nothing : added = []
  · have same : freeClusters st.boot st'.disk = freeClusters st.boot st.disk := by
      rw [freeClusters_congr (grown.same nothing), free]
    rw [same, and_iff_left (Or.inl nothing)]
    rcases none nothing with unseen | fits
    · simp only [unseen, Finset.not_nonempty_empty, true_and, false_and, or_false]
      omega
    · exact iff_of_true (by omega) (.inl fits)
  · have shown := some nothing
    have appended := List.length_pos_iff.mpr nothing
    have further : st.boot.spc * 512 < size :=
      first.mp (wanted.mono appended)
    have counted := count nothing
    have stopped := stop nothing
    rw [← Finset.card_eq_zero] at stopped
    simp only [shown, shown.ne_empty, nothing, true_and, false_and, false_or, ← Finset.card_eq_zero (s := lostFree _)]
    by_cases short : size + 512 ≤ 4294967296
    · have turns := appended_fits clusterPos positive short (Nat.eq_sub_of_add_eq counted) wanted stopped
      omega
    · have turns := appended_wraps (by omega) small (Nat.eq_sub_of_add_eq counted) stopped
      omega

theorem fatWriteData_leakFree_oneFile :
    ∃ hit : Hit, ∃ enough, ∀ fuel, enough ≤ fuel → ∃ st',
      fatWriteData fuel [0x41] UInt8.ofNat 1000 (mounted oneFileVolume) = some st' ∧
      (((freeClusters (mounted oneFileVolume).boot st'.disk).card +
            ((1000 + (mounted oneFileVolume).boot.clusterSize - 1) /
              (mounted oneFileVolume).boot.clusterSize - [3].length) =
          (freeClusters (mounted oneFileVolume).boot (mounted oneFileVolume).disk).card ∧
        ∀ cluster ∈ [3], Reach (mounted oneFileVolume).boot st'.disk
            ((hit.reload st'.disk).buf.slotCluster hit.slot) cluster ∨
          fatEntry (mounted oneFileVolume).boot st'.disk cluster = 0) ↔
      1000 ≤ (mounted oneFileVolume).boot.clusterSize ∨
        (seenFree (searched [0x41] [2] (mounted oneFileVolume)) = ∅ ∧
          (1000 + (mounted oneFileVolume).boot.clusterSize - 1) /
            (mounted oneFileVolume).boot.clusterSize ≤ [3].length) ∨
        ((seenFree (searched [0x41] [2] (mounted oneFileVolume))).Nonempty ∧ [3].length = 1 ∧
          ((lostFree (searched [0x41] [2] (mounted oneFileVolume)) = ∅ ∧ 1000 + 512 ≤ 4294967296) ∨
            (freeClusters (mounted oneFileVolume).boot (mounted oneFileVolume).disk).card =
              (1000 + (mounted oneFileVolume).boot.clusterSize - 1) /
                (mounted oneFileVolume).boot.clusterSize - [3].length))) := by
  obtain ⟨boot, directory, file, hit, found, first⟩ := oneFileVolume_directory
  have wf : (mounted oneFileVolume).boot.WellFormed := by
    rw [boot]
    exact sampleBoot_wellFormed
  exact ⟨hit, fatWriteData_leakFree wf ((mounted_coherent _).lagging wf.layout) directory found
    (by rw [first]; exact file) (by simp) UInt8.ofNat (by decide) (by decide) (by decide +kernel)⟩

/-- The file `A` of 600 bytes in the clusters 3 and 4. -/
def twoClusterVolume : Disk :=
  image sampleBoot (assigned 0 [(0, 0x0FFFFFF8), (1, 0x0FFFFFFF), (2, 0x0FFFFFFF), (3, 4), (4, 0x0FFFFFFF)])
    (fun cluster _ =>
      if cluster = 2 then ((newSlot [0x41] [] 0x20 Sector.zero 0).setCluster 0 3).setSize 0 600
      else Sector.zero)

/-- Saving 600 bytes again takes cluster 5 and loses cluster 4. -/
theorem fatWriteData_leaks :
    sampleBoot.WellFormed ∧ (mounted twoClusterVolume).boot = sampleBoot ∧
      FatChain sampleBoot (mounted twoClusterVolume).disk (mounted twoClusterVolume).cwdCluster [2] ∧
      (∃ hit, firstHit sampleBoot (mounted twoClusterVolume).disk (Sector.slotMatches [0x41]) [2] =
        some hit ∧ hit.buf.slotCluster hit.slot = 3) ∧
      FatChain sampleBoot (mounted twoClusterVolume).disk 3 [3, 4] ∧
      (600 + sampleBoot.clusterSize - 1) / sampleBoot.clusterSize = [3, 4].length ∧
      ∃ st', fatWriteData 3 [0x41] (fun _ => 0x58) 600 (mounted twoClusterVolume) = some st' ∧
        (freeClusters sampleBoot (mounted twoClusterVolume).disk).card =
          (freeClusters sampleBoot st'.disk).card + 1 ∧
        FatChain sampleBoot st'.disk 3 [3, 5] ∧ fatEntry sampleBoot st'.disk 4 ≠ 0 := by
  obtain ⟨boot, cwd, disk⟩ := mounted_image sampleBoot _ _
  refine ⟨sampleBoot_wellFormed, boot, ?_, ?_, ?_, by decide, ?_⟩
  · exact ⟨.last (nextOf_last (by decide +kernel)), by decide⟩
  · exact Option.map_eq_some_iff.mp (by decide +kernel)
  · exact ⟨.link (nextOf_link (by decide +kernel) (by decide)) (.last (nextOf_last (by decide +kernel))),
      by decide⟩
  · have trace : (fatWriteData 3 [0x41] (fun _ => 0x58) 600 (mounted twoClusterVolume)).map (fun st' =>
        decide ((freeClusters sampleBoot (mounted twoClusterVolume).disk).card =
            (freeClusters sampleBoot st'.disk).card + 1 ∧ fatEntry sampleBoot st'.disk 3 = 5 ∧
          fatEntry sampleBoot st'.disk 5 = 0x0FFFFFFF ∧ fatEntry sampleBoot st'.disk 4 ≠ 0)) =
        some true := by decide +kernel
    obtain ⟨st', saved, facts⟩ := Option.map_eq_some_iff.mp trace
    obtain ⟨count, link, last, lost⟩ := of_decide_eq_true facts
    exact ⟨st', saved, count, ⟨.link (nextOf_link link (by decide)) (.last (nextOf_last last)), by decide⟩,
      lost⟩

/-- The contents an entry announces fit in its chain. -/
def Hit.Fits (boot : FAT32BootSector) (disk : Disk) (hit : Hit) : Prop :=
  ∃ clusters, FatChain boot disk (hit.buf.slotCluster hit.slot) clusters ∧
    hit.buf.slotSize hit.slot ≤ clusters.length * boot.clusterSize

/-- What `fat_read_file` returns in `st` it also returns in `st'`. -/
def SameFile (name : CString) (st st' : FatState) : Prop :=
  ∀ fuel out size bytes after, fatReadFile fuel name out st = some (size, bytes, after) →
    ∃ fuel' bytes' after', fatReadFile fuel' name out st' = some (size, bytes', after') ∧
      ∀ index < size, bytes' index = bytes index

/-- Every terminating `fat_read_file` reports the size of the entry. -/
theorem fatReadFile_size (lagging : Lagging st)
    (directory : FatChain st.boot st.disk st.cwdCluster dirs)
    (found : firstHit st.boot st.disk (Sector.slotMatches name) dirs = some hit)
    (read : fatReadFile fuel name out st = some (size, bytes, after)) :
    size = hit.buf.slotSize hit.slot := by
  rw [fatReadFile] at read
  split at read
  · cases read
  · rename_i located
    cases found.symm.trans (locate_result lagging directory located).1
  · rename_i located
    cases found.symm.trans (locate_result lagging directory located).1
    dsimp only at read
    split at read
    · rename_i empty
      cases read
      exact empty.symm
    · split at read
      · cases read
      · cases read
        rfl

/-- A file whose chain has less than 4 GiB can be read. -/
theorem fatReadFile_readable {st : FatState} (wf : st.boot.WellFormed) (lagging : Lagging st)
    (directory : FatChain st.boot st.disk st.cwdCluster dirs)
    (found : firstHit st.boot st.disk (Sector.slotMatches name) dirs = some hit)
    (chain : FatChain st.boot st.disk (hit.buf.slotCluster hit.slot) clusters)
    (bound : clusters.length * st.boot.clusterSize < 4294967296) :
    ∃ fuel bytes after, fatReadFile fuel name (fun _ => 0) st = some (hit.buf.slotSize hit.slot, bytes, after) := by
  by_cases empty : hit.buf.slotSize hit.slot = 0
  · obtain ⟨mid, searched, _⟩ := locate_eq lagging directory (Nat.le_refl _) name
    refine ⟨dirs.length, fun _ => 0, mid, ?_⟩
    simp only [fatReadFile, searched, found, empty, ↓reduceIte]
  · obtain ⟨bytes, after, read, _⟩ := fatReadFile_found wf lagging directory found chain bound empty
      (Nat.le_add_right dirs.length (clusters.length + 1)) (by omega) (fun _ => 0)
    exact ⟨_, bytes, after, read⟩

/-- A rewritten chain has at most the old clusters and the free ones. -/
theorem Rewrites.length_le (rewrites : Rewrites boot disk disk' current clusters clusters') :
    clusters'.length ≤ clusters.length + (freeClusters boot disk).card := by
  classical
  have within : clusters'.toFinset ⊆ clusters.toFinset ∪ freeClusters boot disk := by
    intro cluster member
    have inChain := List.mem_toFinset.mp member
    rcases rewrites.within cluster inChain with old | new
    · exact Finset.mem_union_left _ (List.mem_toFinset.mpr old)
    · exact Finset.mem_union_right _ (mem_freeClusters.mpr ⟨rewrites.chain.data cluster inChain, new⟩)
  have counted := Finset.card_le_card within
  have joined := Finset.card_union_le clusters.toFinset (freeClusters boot disk)
  have old := List.toFinset_card_le clusters
  rw [List.toFinset_card_of_nodup rewrites.chain.chain.nodup] at counted
  omega

/-- A save that does not fit is never undone: the entry announces more bytes
than its chain holds, and reading the file no longer returns what it held. -/
theorem fatWriteData_overfull {st : FatState} {name : CString} {dirs files : List Nat} {hit : Hit}
    {size : Nat} (wf : st.boot.WellFormed) (lagging : Lagging st)
    (directory : FatChain st.boot st.disk st.cwdCluster dirs)
    (found : firstHit st.boot st.disk (Sector.slotMatches name) dirs = some hit)
    (file : FatChain st.boot st.disk (hit.buf.slotCluster hit.slot) files)
    (apart : List.Disjoint dirs files) (fits : hit.Fits st.boot st.disk) (buf : Bytes)
    (small : size < 4294967296)
    (overfull : (files.length + (freeClusters st.boot st.disk).card) * st.boot.clusterSize < size) :
    ∃ enough, ∀ fuel, enough ≤ fuel → ∃ st', fatWriteData fuel name buf size st = some st' ∧
      ¬ (hit.reload st'.disk).Fits st'.boot st'.disk ∧ ¬ SameFile name st st' := by
  obtain ⟨enough, runs⟩ := fatWriteData_rewrites wf lagging directory found file buf size
  refine ⟨enough, fun fuel more => ?_⟩
  obtain ⟨⟨disk, _, _, _, nr, cached, dirty, console⟩, clusters, result, lagging', _, ⟨rfl, rfl, rfl⟩, rewrites⟩ :=
    runs fuel more
  obtain ⟨owner, s, place⟩ := firstHit_some found
  have slotInside := (findInSector_some place.found).1
  have saved := reload_saved wf directory found apart rewrites
  have size' : (hit.reload disk).buf.slotSize hit.slot = size := by
    rw [saved]
    exact Sector.slotSize_setSize hit.buf slotInside small
  refine ⟨_, result, ?_, ?_⟩
  · rintro ⟨clusters', chain, long⟩
    have first := reload_cluster wf directory found apart rewrites
    change FatChain _ disk ((hit.reload disk).buf.slotCluster hit.slot) clusters' at chain
    change (hit.reload disk).buf.slotSize hit.slot ≤ _ at long
    rw [first] at chain
    have same := chain.chain.unique rewrites.chain.chain
    subst same
    rw [size'] at long
    have room := rewrites.length_le
    rw [freeClusters_sizedDisk wf directory found size] at room
    have capacity := Nat.mul_le_mul_right st.boot.clusterSize room
    exact absurd (Nat.lt_of_le_of_lt capacity overfull) (Nat.not_lt.mpr long)
  · intro same
    obtain ⟨chain, chained, holds⟩ := fits
    have whole := chained.chain.unique file.chain
    subst whole
    have expanded := Nat.add_mul chain.length (freeClusters st.boot st.disk).card st.boot.clusterSize
    obtain ⟨fuel', bytes, after, read⟩ := fatReadFile_readable wf lagging directory found
      chained (by omega)
    obtain ⟨_, _, _, read', _⟩ := same _ _ _ _ _ read
    obtain ⟨directory', found'⟩ := directory_saved wf directory found apart rewrites
    have reported := fatReadFile_size lagging' directory' found' read'
    change _ = (hit.reload disk).buf.slotSize hit.slot at reported
    omega

/-- The file `A` of 5 bytes in cluster 3 of a volume without a free cluster. -/
def fullVolume : Disk :=
  image sampleBoot (fun _ => 0x0FFFFFFF) (fun cluster _ =>
    if cluster = 2 then ((newSlot [0x41] [] 0x20 Sector.zero 0).setCluster 0 3).setSize 0 5
    else Sector.zero)

theorem fullVolume_directory : (mounted fullVolume).boot = sampleBoot ∧
    FatChain (mounted fullVolume).boot (mounted fullVolume).disk (mounted fullVolume).cwdCluster [2] ∧
    FatChain (mounted fullVolume).boot (mounted fullVolume).disk 3 [3] ∧
    freeClusters (mounted fullVolume).boot (mounted fullVolume).disk = ∅ ∧
    ∃ hit, firstHit (mounted fullVolume).boot (mounted fullVolume).disk
        (Sector.slotMatches [0x41]) [2] = some hit ∧ hit.buf.slotCluster hit.slot = 3 ∧
      hit.buf.slotSize hit.slot = 5 := by
  have boot : (mounted fullVolume).boot = sampleBoot := (mounted_image _ _ _).1
  refine ⟨boot, ⟨.last (nextOf_last (by decide +kernel)), by rw [boot]; decide⟩,
    ⟨.last (nextOf_last (by decide +kernel)), by rw [boot]; decide⟩, by decide +kernel, ?_⟩
  have fields : (firstHit (mounted fullVolume).boot (mounted fullVolume).disk
      (Sector.slotMatches [0x41]) [2]).map
        (fun hit => (hit.buf.slotCluster hit.slot, hit.buf.slotSize hit.slot)) = some (3, 5) := by
    decide +kernel
  obtain ⟨hit, found, values⟩ := Option.map_eq_some_iff.mp fields
  exact ⟨hit, found, congrArg Prod.fst values, congrArg Prod.snd values⟩

theorem fatWriteData_overfull_fullVolume :
    ∃ hit : Hit, ∃ enough, ∀ fuel, enough ≤ fuel → ∃ st',
      fatWriteData fuel [0x41] UInt8.ofNat 513 (mounted fullVolume) = some st' ∧
        ¬ (hit.reload st'.disk).Fits st'.boot st'.disk ∧ ¬ SameFile [0x41] (mounted fullVolume) st' := by
  obtain ⟨boot, directory, file, full, hit, found, first, size⟩ := fullVolume_directory
  have wf : (mounted fullVolume).boot.WellFormed := by
    rw [boot]
    exact sampleBoot_wellFormed
  refine ⟨hit, fatWriteData_overfull wf ((mounted_coherent _).lagging wf.layout) directory found
    (by rw [first]; exact file) (by simp) ⟨[3], by rw [first]; exact file, ?_⟩ UInt8.ofNat (by decide) ?_⟩
  · rw [size, boot]
    decide
  · rw [full, boot]
    decide

/-- Saving 513 bytes over the 5 bytes of `A` leaves an entry of 513 bytes with
one cluster of 512. -/
theorem fatWriteData_keepsSize :
    FatChain (mounted fullVolume).boot (mounted fullVolume).disk (mounted fullVolume).cwdCluster [2] ∧
      FatChain (mounted fullVolume).boot (mounted fullVolume).disk 3 [3] ∧
      freeClusters (mounted fullVolume).boot (mounted fullVolume).disk = ∅ ∧
      (mounted fullVolume).boot.clusterSize < 513 ∧
      ∃ st' hit, fatWriteData 2 [0x41] (fun _ => 0x58) 513 (mounted fullVolume) = some st' ∧
        firstHit st'.boot st'.disk (Sector.slotMatches [0x41]) [2] = some hit ∧
        hit.buf.slotCluster hit.slot = 3 ∧ FatChain st'.boot st'.disk 3 [3] ∧
        [3].length * st'.boot.clusterSize < hit.buf.slotSize hit.slot := by
  obtain ⟨boot, directory, file, full, _⟩ := fullVolume_directory
  refine ⟨directory, file, full, by rw [boot]; decide, ?_⟩
  have trace : (fatWriteData 2 [0x41] (fun _ => 0x58) 513 (mounted fullVolume)).bind (fun st' =>
      (firstHit st'.boot st'.disk (Sector.slotMatches [0x41]) [2]).map (fun hit =>
        decide (hit.buf.slotCluster hit.slot = 3 ∧ st'.boot = sampleBoot ∧
          fatEntry st'.boot st'.disk 3 = 0x0FFFFFFF ∧
          [3].length * st'.boot.clusterSize < hit.buf.slotSize hit.slot))) = some true := by
    decide +kernel
  obtain ⟨st', saved, trace⟩ := Option.bind_eq_some_iff.mp trace
  obtain ⟨hit, found, facts⟩ := Option.map_eq_some_iff.mp trace
  obtain ⟨first, boot', last, long⟩ := of_decide_eq_true facts
  exact ⟨st', hit, saved, found, first, ⟨.last (nextOf_last last), by rw [boot']; decide⟩, long⟩

end LivlyOS.Fs
