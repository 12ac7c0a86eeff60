import LivlyOS.Lib.Bytes

/-! The memory check of stage 2 on the E820 map: it asks for RAM at the place of the kernel,
1 MiB, with the low halves of the 64-bit bases and lengths. Messages are left out. -/

namespace LivlyOS.Boot

open LivlyOS.Lib

abbrev e820Buffer : Nat := 0x9000

abbrev e820Count : Nat := 0x8FFE

abbrev bootInfo : Nat := 0x8F00

/-- How `analyseE820Map` ends; the code is the one of `fatal_halt`. -/
inductive E820Outcome where
  | returns
  | halts (code : UInt8)

/-- The memory and the registers of the loop. -/
structure ScanState where
  mem : Bytes
  edx : Nat
  esi : Nat
  di : Nat

/-- The loop of `analyseE820Map` up to `.naechster`. -/
def checkEntry (st : ScanState) : ScanState :=
  if word st.mem (st.esi + 16) 4 ≠ 1 then st
  else
    let st := { st with di := (st.di + 1) % 65536, edx := u32 (st.edx + word st.mem (st.esi + 8) 4 / 1024) }
    let eax := word st.mem st.esi 4
    if eax > 0x100000 then st
    else
      let ebx := u32 (word st.mem (st.esi + 8) 4 + eax)
      if ebx ≤ 0x100001 then st else { st with mem := putWord st.mem (bootInfo + 15) 1 1 }

/-- `loop .schleife` with `cx` turns left. -/
def scanEntries : (cx : Nat) → ScanState → ScanState
  | 0, st => st
  | cx + 1, st =>
    let st := checkEntry st
    scanEntries cx { st with esi := st.esi + 24 }

/-- The tests behind the loop. -/
def judgeMap (mem : Bytes) (edx di : Nat) : E820Outcome :=
  if di = 0 then .halts 0x11
  else if word mem (bootInfo + 15) 1 ≠ 1 then .halts 0x12
  else if edx < 1024 then .halts 0x13
  else .returns

def analyseE820Map (mem : Bytes) : Bytes × E820Outcome :=
  let mem := putWord mem (bootInfo + 15) 1 0
  let cx := word mem e820Count 2
  if cx = 0 then (mem, .halts 0x14)
  else
    let st := scanEntries cx ⟨mem, 0, e820Buffer, 0⟩
    let mem := putWord st.mem (bootInfo + 6) 4 st.edx
    (mem, judgeMap mem st.edx st.di)

/-- An entry of the map; its range does not wrap. -/
structure E820Entry where
  base : Nat
  length : Nat
  type : Nat
  noWrap : base + length < 2 ^ 64

/-- The entry is in memory. -/
def StoresEntry (mem : Bytes) (address : Nat) (entry : E820Entry) : Prop :=
  word mem address 8 = entry.base ∧ word mem (address + 8) 8 = entry.length ∧ word mem (address + 16) 4 = entry.type

def StoresEntries (mem : Bytes) : (address : Nat) → List E820Entry → Prop
  | _, [] => True
  | address, entry :: rest => StoresEntry mem address entry ∧ StoresEntries mem (address + 24) rest

/-- The map is in its buffer, with the number of its entries. -/
def StoresMap (mem : Bytes) (entries : List E820Entry) : Prop :=
  word mem e820Count 2 = entries.length ∧ StoresEntries mem e820Buffer entries

/-- The entry is RAM that holds the start of the kernel. -/
def HoldsKernel (entry : E820Entry) : Prop :=
  entry.type = 1 ∧ entry.base ≤ 0x100000 ∧ entry.base + entry.length ≥ 0x100002

/-- What the loop asks for: the same of the low halves. -/
def PassesCheck (entry : E820Entry) : Prop :=
  entry.type = 1 ∧ entry.base % 2 ^ 32 ≤ 0x100000 ∧ (entry.base + entry.length) % 2 ^ 32 ≥ 0x100002

instance (entry : E820Entry) : Decidable (PassesCheck entry) := inferInstanceAs (Decidable (_ ∧ _))

/-- The flag at BOOT_INFO + 15. -/
def memOkFlag (mem : Bytes) : Nat := word mem (bootInfo + 15) 1

section

variable {mem mem' : Bytes} {entry : E820Entry} {address : Nat}

theorem lowHalf (mem : Bytes) (address : Nat) : word mem address 4 = word mem address 8 % 2 ^ 32 := by
  have small := word_lt mem address 4
  rw [show word mem address 8 = word mem address 4 + 256 ^ 4 * word mem (address + 4) 4 from word_append mem address 4 4]
  omega

theorem StoresEntry.congr (stores : StoresEntry mem address entry)
    (same : ∀ position, address ≤ position → mem' position = mem position) : StoresEntry mem' address entry := by
  obtain ⟨base, length, type⟩ := stores
  refine ⟨?_, ?_, ?_⟩
  · rw [← base]
    exact word_congr fun position above _ => same position above
  · rw [← length]
    exact word_congr fun position above _ => same position (by omega)
  · rw [← type]
    exact word_congr fun position above _ => same position (by omega)

theorem StoresEntries.congr {entries : List E820Entry} (stores : StoresEntries mem address entries)
    (same : ∀ position, address ≤ position → mem' position = mem position) : StoresEntries mem' address entries := by
  induction entries generalizing address with
  | nil => trivial
  | cons entry rest ih => exact ⟨stores.1.congr same, ih stores.2 fun position above => same position (by omega)⟩

/-- One turn sets the flag for an entry that passes, and changes nothing else in memory. -/
theorem checkEntry_mem (st : ScanState) (stores : StoresEntry st.mem st.esi entry) :
    (checkEntry st).mem = (if PassesCheck entry then putWord st.mem (bootInfo + 15) 1 1 else st.mem) ∧
      (checkEntry st).esi = st.esi := by
  obtain ⟨base, length, type⟩ := stores
  have low := lowHalf st.mem st.esi
  have size := lowHalf st.mem (st.esi + 8)
  rw [base] at low
  rw [length] at size
  have sum : u32 (entry.length % 2 ^ 32 + entry.base % 2 ^ 32) = (entry.base + entry.length) % 2 ^ 32 := by
    unfold u32
    omega
  unfold checkEntry
  rw [type]
  by_cases ram : entry.type = 1
  · rw [if_neg (not_not_intro ram)]
    dsimp only
    rw [low, size, sum]
    by_cases early : entry.base % 2 ^ 32 ≤ 0x100000
    · rw [if_neg (by omega)]
      by_cases long : (entry.base + entry.length) % 2 ^ 32 ≥ 0x100002
      · have passes : PassesCheck entry := ⟨ram, early, long⟩
        rw [if_neg (by omega), if_pos passes]
        exact ⟨rfl, rfl⟩
      · rw [if_pos (by omega), if_neg fun passes : PassesCheck entry => long passes.2.2]
        exact ⟨rfl, rfl⟩
    · rw [if_pos (by omega), if_neg fun passes : PassesCheck entry => early passes.2.1]
      exact ⟨rfl, rfl⟩
  · rw [if_pos ram, if_neg fun passes : PassesCheck entry => ram passes.1]
    exact ⟨rfl, rfl⟩

/-- The loop leaves the flag set when it was set or an entry passes. -/
theorem scanEntries_flag (entries : List E820Entry) (st : ScanState) (stores : StoresEntries st.mem st.esi entries)
    (behind : bootInfo + 16 ≤ st.esi) :
    memOkFlag (scanEntries entries.length st).mem = 1 ↔ memOkFlag st.mem = 1 ∨ ∃ entry ∈ entries, PassesCheck entry := by
  induction entries generalizing st with
  | nil => simp [scanEntries]
  | cons entry rest ih =>
    obtain ⟨first, later⟩ := stores
    obtain ⟨written, same⟩ := checkEntry_mem st first
    have kept : ∀ position, st.esi ≤ position → (checkEntry st).mem position = st.mem position := by
      intro position above
      rw [written]
      split
      · exact putWord_outside st.mem 1 (by omega)
      · rfl
    have turn := ih { checkEntry st with esi := (checkEntry st).esi + 24 }
      (by rw [same]; exact later.congr fun position above => kept position (by omega))
      (by rw [same]; exact Nat.le_trans behind (Nat.le_add_right _ _))
    have head : (∃ other ∈ entry :: rest, PassesCheck other) ↔ PassesCheck entry ∨ ∃ other ∈ rest, PassesCheck other := by
      simp only [List.mem_cons, exists_eq_or_imp]
    rw [List.length_cons, scanEntries, turn, written, head]
    split
    · have set : memOkFlag (putWord st.mem (bootInfo + 15) 1 1) = 1 := word_putWord_same ..
      simp [set, ‹PassesCheck entry›]
    · simp [‹¬ PassesCheck entry›]

theorem analyseE820Map_flag {entries : List E820Entry} (stored : StoresMap mem entries) (more : entries ≠ []) :
    memOkFlag (analyseE820Map mem).1 = 1 ↔ ∃ entry ∈ entries, PassesCheck entry := by
  obtain ⟨count, stores⟩ := stored
  have cleared : ∀ position, position < bootInfo + 15 ∨ bootInfo + 16 ≤ position →
      putWord mem (bootInfo + 15) 1 0 position = mem position := fun position outside => putWord_outside mem 0 outside
  have same : word (putWord mem (bootInfo + 15) 1 0) e820Count 2 = entries.length :=
    (word_putWord_other mem 0 (by decide)).trans count
  have behind : bootInfo + 16 ≤ e820Buffer := by decide
  have scanned := scanEntries_flag entries ⟨putWord mem (bootInfo + 15) 1 0, 0, e820Buffer, 0⟩
    (stores.congr fun position above => cleared position (.inr (Nat.le_trans behind above))) behind
  have zero : memOkFlag (putWord mem (bootInfo + 15) 1 0) = 0 := word_putWord_same ..
  have total (st : ScanState) : memOkFlag (putWord st.mem (bootInfo + 6) 4 st.edx) = memOkFlag st.mem :=
    word_putWord_other st.mem st.edx (by decide)
  unfold analyseE820Map
  dsimp only
  rw [same, if_neg (fun empty => more (List.length_eq_zero_iff.mp empty))]
  dsimp only
  rw [total, scanned, zero]
  simp

end

/-- A range above 4 GiB that the loop takes for one at the kernel. -/
def FalselyPasses (entry : E820Entry) : Prop :=
  entry.type = 1 ∧ 2 ^ 32 ≤ entry.base ∧ entry.base % 2 ^ 32 ≤ 0x100000 ∧
    (entry.base + entry.length) % 2 ^ 32 ≥ 0x100002

/-- A range around the kernel that the loop misses, since it goes beyond 4 GiB. -/
def Missed (entry : E820Entry) : Prop :=
  entry.type = 1 ∧ entry.base ≤ 0x100000 ∧ 2 ^ 32 ≤ entry.base + entry.length ∧
    (entry.base + entry.length) % 2 ^ 32 ≤ 0x100001

/-- The low halves give the right answer for the map: some entry holds the kernel and is not missed,
or there are both false and missed entries, or neither. -/
def LowHalvesSuffice (entries : List E820Entry) : Prop :=
  (∃ entry ∈ entries, HoldsKernel entry ∧ ¬ Missed entry) ∨
    ((∃ entry ∈ entries, FalselyPasses entry) ↔ ∃ entry ∈ entries, Missed entry)

theorem passesCheck_iff (entry : E820Entry) :
    PassesCheck entry ↔ (HoldsKernel entry ∧ ¬ Missed entry) ∨ FalselyPasses entry := by
  have noWrap := entry.noWrap
  unfold PassesCheck HoldsKernel Missed FalselyPasses
  omega

theorem holdsKernel_iff (entry : E820Entry) : HoldsKernel entry ↔ (HoldsKernel entry ∧ ¬ Missed entry) ∨ Missed entry := by
  unfold HoldsKernel Missed
  omega

/-- The flag is right exactly when the low halves suffice. -/
theorem memory_check_iff {mem : Bytes} {entries : List E820Entry} (stored : StoresMap mem entries) (more : entries ≠ []) :
    (memOkFlag (analyseE820Map mem).1 = 1 ↔ ∃ entry ∈ entries, HoldsKernel entry) ↔ LowHalvesSuffice entries := by
  rw [analyseE820Map_flag stored more]
  have passes : (∃ entry ∈ entries, PassesCheck entry) ↔
      (∃ entry ∈ entries, HoldsKernel entry ∧ ¬ Missed entry) ∨ ∃ entry ∈ entries, FalselyPasses entry := by
    simp only [passesCheck_iff, and_or_left, exists_or]
  have holds : (∃ entry ∈ entries, HoldsKernel entry) ↔
      (∃ entry ∈ entries, HoldsKernel entry ∧ ¬ Missed entry) ∨ ∃ entry ∈ entries, Missed entry := by
    rw [← exists_or]
    refine exists_congr fun entry => ?_
    rw [← and_or_left, ← holdsKernel_iff]
  rw [passes, holds, LowHalvesSuffice]
  by_cases right : ∃ entry ∈ entries, HoldsKernel entry ∧ ¬ Missed entry
  · simp only [right, true_or]
  · simp only [right, false_or]

/-- The memory of a machine whose map has one entry. -/
def oneEntryMap (base length : Nat) : Bytes :=
  putWord (putWord (putWord (putWord (fun _ => 0) e820Count 2 1) e820Buffer 8 base) (e820Buffer + 8) 8 length)
    (e820Buffer + 16) 4 1

theorem memory_check_conventional :
    (memOkFlag (analyseE820Map (oneEntryMap 0x100000 0x40000000)).1 = 1 ↔
      ∃ entry ∈ [(⟨0x100000, 0x40000000, 1, by decide⟩ : E820Entry)], HoldsKernel entry) ↔
    LowHalvesSuffice [⟨0x100000, 0x40000000, 1, by decide⟩] :=
  memory_check_iff ⟨by decide, ⟨by decide, by decide, by decide⟩, trivial⟩ (List.cons_ne_nil _ _)

/-- RAM at 4 GiB alone passes for RAM at 1 MiB. -/
theorem memory_check_high_ram :
    StoresMap (oneEntryMap 0x100000000 0x40000000) [⟨0x100000000, 0x40000000, 1, by decide⟩] ∧
      ¬ (memOkFlag (analyseE820Map (oneEntryMap 0x100000000 0x40000000)).1 = 1 ↔
        ∃ entry ∈ [(⟨0x100000000, 0x40000000, 1, by decide⟩ : E820Entry)], HoldsKernel entry) := by
  have stored : StoresMap (oneEntryMap 0x100000000 0x40000000) [⟨0x100000000, 0x40000000, 1, by decide⟩] :=
    ⟨by decide, ⟨by decide, by decide, by decide⟩, trivial⟩
  refine ⟨stored, fun right => ?_⟩
  obtain ⟨entry, member, _, low, _⟩ := right.mp
    ((analyseE820Map_flag stored (List.cons_ne_nil _ _)).mpr ⟨_, List.mem_cons_self, by decide⟩)
  cases List.mem_singleton.mp member
  exact absurd low (by decide)

end LivlyOS.Boot
