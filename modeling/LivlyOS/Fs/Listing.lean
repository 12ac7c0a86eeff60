import LivlyOS.Fs.ChainWalk
import LivlyOS.Fs.Names
import LivlyOS.Fs.Saving
import LivlyOS.Fs.Tree

namespace LivlyOS.Fs

open LivlyOS.Lib

/-- A slot with the sector it stands in. -/
abbrev DirSlot := Sector × Nat

def sectorSlots (buf : Sector) (slots : List Nat) : List DirSlot := slots.map (fun slot => (buf, slot))

def sectorsSlots (disk : Disk) (sektor : Nat) : (count s : Nat) → List DirSlot
  | 0, _ => []
  | count + 1, s =>
    sectorSlots (ataReadSector disk (u32 (sektor + s))) (List.range 16) ++
      sectorsSlots disk sektor count (s + 1)

/-- The slots of a chain of directory clusters. -/
def dirSlots (boot : FAT32BootSector) (disk : Disk) (clusters : List Nat) : List DirSlot :=
  clusters.flatMap (fun cluster => sectorsSlots disk (boot.clusterSector cluster) boot.spc 0)

namespace DirSlot

/-- The slot is not the end mark. -/
def used (entry : DirSlot) : Bool := entry.1.nameByte entry.2 0 ≠ 0x00

/-- The slot is not passed over: deleted, a control character or a dot. -/
def shown (entry : DirSlot) : Bool :=
  ¬ (entry.1.nameByte entry.2 0 = 0xE5 ∨ entry.1.nameByte entry.2 0 < 0x20 ∨
    entry.1.nameByte entry.2 0 = 0x2E)

end DirSlot

/-- The entries `fat_list_dir` prints: those in front of the end mark that are
not passed over. -/
def listed (entries : List DirSlot) : List DirSlot :=
  (entries.takeWhile DirSlot.used).filter DirSlot.shown

/-- The output for a list of entries. -/
def listText (entries : List DirSlot) : List String :=
  entries.flatMap (fun entry => listSlot entry.1 entry.2)

theorem listed_end (entry : DirSlot) (rest : List DirSlot) (ended : entry.used = false) :
    listed (entry :: rest) = [] := by
  simp [listed, ended]

theorem listed_used (entry : DirSlot) (rest : List DirSlot) (present : entry.used = true) :
    listed (entry :: rest) = if entry.shown then entry :: listed rest else listed rest := by
  rw [listed, List.takeWhile_cons, if_pos present, List.filter_cons, listed]

theorem listed_append (first second : List DirSlot) :
    listed (first ++ second) =
      listed first ++ if first.all DirSlot.used then listed second else [] := by
  induction first with
  | nil => rfl
  | cons entry rest ih =>
    rw [List.cons_append, List.all_cons]
    cases present : entry.used with
    | false => rw [listed_end _ _ present, listed_end _ _ present]; rfl
    | true =>
      rw [listed_used _ _ present, listed_used _ _ present, ih, Bool.true_and]
      split
      · rw [List.cons_append]
      · rfl

theorem listText_append (first second : List DirSlot) :
    listText (first ++ second) = listText first ++ listText second :=
  List.flatMap_append

theorem listSlots_eq (buf : Sector) (slots : List Nat) :
    listSlots buf slots =
      (listText (listed (sectorSlots buf slots)), !(sectorSlots buf slots).all DirSlot.used) := by
  induction slots with
  | nil => rfl
  | cons slot rest ih =>
    rw [listSlots, sectorSlots, List.map_cons, ← sectorSlots, List.all_cons]
    by_cases ended : buf.nameByte slot 0 = 0x00
    · have unused : DirSlot.used (buf, slot) = false := by simpa [DirSlot.used] using ended
      rw [if_pos ended, listed_end _ _ unused, unused]
      rfl
    · have present : DirSlot.used (buf, slot) = true := by simpa [DirSlot.used] using ended
      rw [if_neg ended, ih, listed_used _ _ present, present, Bool.true_and]
      by_cases passed : buf.nameByte slot 0 = 0xE5 ∨ buf.nameByte slot 0 < 0x20 ∨ buf.nameByte slot 0 = 0x2E
      · have hidden : DirSlot.shown (buf, slot) = false := by simp only [DirSlot.shown, passed]; rfl
        rw [if_pos passed, hidden]
        rfl
      · have printed : DirSlot.shown (buf, slot) = true := by simp only [DirSlot.shown, passed]; rfl
        rw [if_neg passed, printed]
        rfl

theorem listSectors_eq (disk : Disk) (sektor count s : Nat) :
    listSectors disk sektor count s =
      (listText (listed (sectorsSlots disk sektor count s)),
        !(sectorsSlots disk sektor count s).all DirSlot.used) := by
  induction count generalizing s with
  | zero => rfl
  | succ count ih =>
    rw [listSectors, sectorsSlots, listed_append, listSlots_eq, ih, List.all_append]
    cases (sectorSlots (ataReadSector disk (u32 (sektor + s))) (List.range 16)).all DirSlot.used with
    | false => simp
    | true => simp [listText_append]

theorem fatNextCluster_console (cluster : Nat) (st : FatState) :
    (fatNextCluster cluster st).2.console = st.console := by
  simp only [fatNextCluster, fatCacheEntry, fatCacheLoad, fatCacheFlush]
  split
  · split <;> rfl
  · rfl

/-- The loop of `fat_list_dir` prints the listed entries of the clusters. -/
theorem listLoop (wf : st.boot.WellFormed) (lagging : Lagging st)
    (chain : FatChain st.boot st.disk first clusters) (start : Loaded st mid)
    (enough : clusters.length < fuel) :
    ∃ last, loop listTurn fuel (first, mid) = some last ∧ Loaded st last ∧
      last.console = mid.console ++ listText (listed (dirSlots st.boot st.disk clusters)) := by
  induction clusters generalizing first mid fuel with
  | nil => exact absurd chain.chain.length_pos (Nat.lt_irrefl 0)
  | cons cluster rest ih =>
    obtain ⟨fuel, rfl⟩ : ∃ more, fuel = more + 1 := ⟨fuel - 1, by simp at enough; omega⟩
    obtain ⟨_, same⟩ := chain.chain.cons
    obtain ⟨rfl, -⟩ := List.cons.inj same
    have going := Nat.not_le.mpr (data_lt_endOfChain wf chain.first_data)
    rw [dirSlots, List.flatMap_cons, ← dirSlots, listed_append, listText_append]
    have turn : listTurn (cluster, mid) =
        if (sectorsSlots st.disk (st.boot.clusterSector cluster) st.boot.spc 0).all DirSlot.used then
          .again (fatNextCluster cluster { mid with
            console := mid.console ++ listText (listed
              (sectorsSlots st.disk (st.boot.clusterSector cluster) st.boot.spc 0)) })
        else .leave { mid with
            console := mid.console ++ listText (listed
              (sectorsSlots st.disk (st.boot.clusterSector cluster) st.boot.spc 0)) } := by
      rw [listTurn, if_neg going, listSectors_eq, start.kept.boot, start.disk]
      cases (sectorsSlots st.disk (st.boot.clusterSector cluster) st.boot.spc 0).all DirSlot.used <;> rfl
    generalize sectorsSlots st.disk (st.boot.clusterSector cluster) st.boot.spc 0 = here at turn
    have printed := start.printed (mid.console ++ listText (listed here))
    cases whole : here.all DirSlot.used with
    | false =>
      rw [whole] at turn
      refine ⟨_, loop_leave turn fuel, printed, ?_⟩
      simp [listText]
    | true =>
      rw [whole, if_pos rfl] at turn
      rw [loop_again turn, if_pos rfl, ← List.append_assoc]
      have console := fatNextCluster_console cluster { mid with
        console := mid.console ++ listText (listed here) }
      have next := printed.next cluster
      rcases chain.follow lagging printed with ⟨stop, alone⟩ | ⟨_, tailed, _, tail⟩
      · cases alone
        obtain ⟨fuel, rfl⟩ : ∃ more, fuel = more + 1 := ⟨fuel - 1, by simp at enough; omega⟩
        have last : listTurn (fatNextCluster cluster { mid with
            console := mid.console ++ listText (listed here) }) =
          .leave (fatNextCluster cluster { mid with
            console := mid.console ++ listText (listed here) }).2 := if_pos stop
        refine ⟨_, loop_leave last fuel, next, ?_⟩
        rw [console]
        simp [dirSlots, listed, listText]
      · cases tailed
        obtain ⟨last, result, loaded, text⟩ := ih tail next (by simpa using enough : rest.length < fuel)
        exact ⟨last, result, loaded, by rw [text, console]⟩

theorem findInSectors_isSome (wanted : Sector → Nat → Bool) (disk : Disk) (sektor count s : Nat) :
    (findInSectors wanted disk sektor count s).isSome =
      (sectorsSlots disk sektor count s).any (fun entry => wanted entry.1 entry.2) := by
  induction count generalizing s with
  | zero => rfl
  | succ count ih =>
    have sector : (findInSector wanted (ataReadSector disk (u32 (sektor + s)))).isSome =
        (sectorSlots (ataReadSector disk (u32 (sektor + s))) (List.range 16)).any
          (fun entry => wanted entry.1 entry.2) := by
      rw [Bool.eq_iff_iff, findInSector, sectorSlots, List.find?_isSome, List.any_map, List.any_eq_true]
      rfl
    rw [sectorsSlots, List.any_append, ← ih, ← sector, findInSectors]
    cases findInSector wanted (ataReadSector disk (u32 (sektor + s))) <;> rfl

/-- The lookup loop finds a slot exactly when the directory has one. -/
theorem firstHit_isSome (boot : FAT32BootSector) (disk : Disk) (wanted : Sector → Nat → Bool)
    (clusters : List Nat) : (firstHit boot disk wanted clusters).isSome =
      (dirSlots boot disk clusters).any (fun entry => wanted entry.1 entry.2) := by
  induction clusters with
  | nil => rfl
  | cons cluster rest ih =>
    rw [dirSlots, List.flatMap_cons, ← dirSlots, List.any_append, ← ih, ← findInSectors_isSome, firstHit]
    cases findInSectors wanted disk (boot.clusterSector cluster) boot.spc 0 <;> rfl

/-- What `kprintf("%c", ..)` prints for one byte. -/
def byteText (byte : UInt8) : String := String.singleton (Char.ofNat byte.toNat)

/-- An entry a lookup finds is one that `fat_list_dir` does not pass over. -/
theorem shown_of_matches {entry : DirSlot} {name : CString} (visible : name.Visible)
    (nonempty : name ≠ []) (noDot : name.at 0 ≠ 0x2E)
    (hits : entry.1.slotMatches name entry.2 = true) :
    entry.1.nameByte entry.2 0 ≠ 0 ∧ entry.shown = true := by
  obtain ⟨first, rest, rfl⟩ := List.exists_cons_of_ne_nil nonempty
  obtain ⟨low, high⟩ := visible first (by simp)
  have character := Sector.slotMatches_first hits (visible.ne (by simp)).1
  refine ⟨by rw [character]; exact (visible.ne (by simp)).1, ?_⟩
  rw [DirSlot.shown, character, decide_eq_true_eq]
  rintro (deleted | control | dot)
  · rw [deleted] at high
    exact absurd high (by decide)
  · exact absurd (UInt8.lt_trans low control) (UInt8.lt_irrefl _)
  · exact noDot dot

end LivlyOS.Fs
