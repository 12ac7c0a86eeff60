import Mathlib.Algebra.GroupWithZero.Nat
import LivlyOS.Boot.MemoryCheck
import LivlyOS.Fs.Volume

namespace LivlyOS.Boot

open LivlyOS.Lib LivlyOS.Fs

abbrev sectorBuffer : Nat := 0x7E00

abbrev kernelDst : Nat := 0x100000

/-- KERNEL_START_SECTOR - 1 -/
abbrev kernelLba : Nat := 128

/-- The drive behind `int 13h`: which calls fail, and what BIOS_TICK_COUNTER shows in front of and behind each. -/
structure BiosDrive where
  disk : Disk
  carry : Nat → Bool
  ticks : Nat → Nat × Nat

/-- A call of `int 13h` for one sector; nothing when the carry flag is set. -/
def int13 (drive : BiosDrive) (call lba : Nat) (mem : Bytes) : Option Bytes :=
  if drive.carry call then none
  else some fun position =>
    if sectorBuffer ≤ position ∧ position < sectorBuffer + 512 then (drive.disk lba).bytes (position - sectorBuffer)
    else mem position

/-- `.copy_inner`, with the new `edi`. -/
def copyInner : (ecx : Nat) → (mem : Bytes) → (esi edi : Nat) → Bytes × Nat
  | 0, mem, _, edi => (mem, edi)
  | ecx + 1, mem, esi, edi => copyInner ecx (putWord mem edi 4 (word mem esi 4)) (u32 (esi + 4)) (u32 (edi + 4))

/-- How often a loop that ends in `dec` and `jnz` runs, from a register with so many values on. -/
def turns (values count : Nat) : Nat := if count = 0 then values else count

/-- The memory, `edi_temp`, the number of the sector in `loop_dap` and the calls of `int 13h` so far. -/
structure LoadState where
  mem : Bytes
  edi : Nat
  lba : Nat
  calls : Nat

/-- A turn of `.lade_loop`, or the code for `fatal_halt`. -/
def ladeTurn (drive : BiosDrive) (st : LoadState) : Except UInt8 LoadState :=
  match int13 drive st.calls st.lba st.mem with
  | none => .error 0x20
  | some mem =>
    if sub32 (drive.ticks st.calls).2 (drive.ticks st.calls).1 > 182 then .error 0x20
    else
      let copied := copyInner 128 mem sectorBuffer st.edi
      .ok ⟨copied.1, copied.2, u32 (st.lba + 1), st.calls + 1⟩

def ladeLoop (drive : BiosDrive) : (turns : Nat) → LoadState → Except UInt8 LoadState
  | 0, st => .ok st
  | turns + 1, st => (ladeTurn drive st).bind (ladeLoop drive turns)

def checksumLoop (mem : Bytes) : (ecx : Nat) → (edi eax : Nat) → Nat
  | 0, _, eax => eax
  | ecx + 1, edi, eax => checksumLoop mem ecx (u32 (edi + 4)) (u32 (eax + word mem edi 4))

/-- The memory and `kernelEntry` behind `loadKernel`, or the code for `fatal_halt`. -/
def loadKernel (drive : BiosDrive) (mem : Bytes) : Except UInt8 (Bytes × Nat) :=
  match int13 drive 0 kernelLba mem with
  | none => .error 0x20
  | some mem =>
    if word mem sectorBuffer 4 ≠ 0xC0DEC0DE then .error 0x21
    else
      let kernelSize := word mem (sectorBuffer + 4) 4
      let kernelSectors := u32 (kernelSize + 511) / 512 % 65536
      let kernelEntry := word mem (sectorBuffer + 8) 4
      let copied := copyInner 128 mem sectorBuffer kernelDst
      let loopCounter := (kernelSectors + 65535) % 65536
      (ladeLoop drive (turns 65536 loopCounter) ⟨copied.1, copied.2, kernelLba + 1, 1⟩).bind fun st =>
        let mem := putWord st.mem (bootInfo + 17) 4 kernelSize
        let ecx := u32 (kernelSize + 3) / 4
        if checksumLoop mem (turns 4294967296 ecx) kernelDst 0 ≠ 0 then .error 0x22 else .ok (mem, kernelEntry)

/-- The bytes on the disk from the first sector of the kernel on. -/
def kernelImage (disk : Disk) : Bytes := fun index => (disk (kernelLba + index / 512)).bytes (index % 512)

/-- The sectors that are read for a kernel of this size. A kernel of one sector takes the loop 65536 times. -/
def sectorsRead (size : Nat) : Nat := if size ≤ 512 then 65537 else (size + 511) / 512

/-- The call of `int 13h` stops the loader; the first one may take its time. -/
def BiosDrive.Stops (drive : BiosDrive) (call : Nat) : Prop :=
  drive.carry call = true ∨ call ≠ 0 ∧ sub32 (drive.ticks call).2 (drive.ticks call).1 > 182

/-- The sum of the first words of the image, in 32 bits. -/
def imageSum (image : Bytes) (words : Nat) : Nat := u32 ((List.range words).map fun index => word image (4 * index) 4).sum

def kernelSize (image : Bytes) : Nat := word image 4 4

def HasMagic (image : Bytes) : Prop := word image 0 4 = 0xC0DEC0DE

/-- The words of the kernel, the last one filled up from the disk, add up to 0. -/
def SumsUp (image : Bytes) : Prop := imageSum image ((kernelSize image + 3) / 4) = 0

/-- No call of `int 13h` for the kernel stops the loader. -/
def BiosDrive.Serves (drive : BiosDrive) : Prop :=
  ∀ call, call < sectorsRead (kernelSize (kernelImage drive.disk)) → ¬drive.Stops call

instance (image : Bytes) : Decidable (HasMagic image) := inferInstanceAs (Decidable (_ = _))

instance (image : Bytes) : Decidable (SumsUp image) := inferInstanceAs (Decidable (_ = _))

instance (drive : BiosDrive) (call : Nat) : Decidable (drive.Stops call) := inferInstanceAs (Decidable (_ ∨ _ ∧ _))

instance (drive : BiosDrive) : Decidable drive.Serves := inferInstanceAs (Decidable (∀ call, call < _ → ¬drive.Stops call))

/-- `.copy_inner` copies its words up, when they lie below. -/
theorem copyInner_spec (ecx : Nat) (mem : Bytes) (esi edi : Nat) (below : esi + 4 * ecx ≤ edi) (small : edi + 4 * ecx < 4294967296) :
    ∃ mem', copyInner ecx mem esi edi = (mem', edi + 4 * ecx) ∧ ∀ position, mem' position =
      if edi ≤ position ∧ position < edi + 4 * ecx then mem (esi + (position - edi)) else mem position := by
  induction ecx generalizing mem esi edi with
  | zero =>
    refine ⟨mem, rfl, fun position => ?_⟩
    rw [if_neg (by omega)]
  | succ ecx ih =>
    obtain ⟨mem', copied, bytes⟩ := ih (putWord mem edi 4 (word mem esi 4)) (esi + 4) (edi + 4) (by omega) (by omega)
    refine ⟨mem', ?_, fun position => ?_⟩
    · rw [copyInner, u32_of_lt (by omega), u32_of_lt (by omega), copied, Nat.add_assoc, Nat.mul_succ, Nat.add_comm 4]
    · rw [bytes]
      by_cases later : edi + 4 ≤ position ∧ position < edi + 4 + 4 * ecx
      · rw [if_pos later, if_pos (by omega), putWord_outside _ _ (by omega)]
        congr 1
        omega
      · rw [if_neg later]
        by_cases first : edi ≤ position ∧ position < edi + 4
        · rw [putWord_word _ _ _ _ _ first, if_pos (by omega)]
        · rw [putWord_outside _ _ (by omega), if_neg (by omega)]

/-- The first sectors of the kernel are in place, and but for the buffer nothing else has changed. -/
structure Placed (drive : BiosDrive) (before : Bytes) (sectors : Nat) (mem : Bytes) : Prop where
  image : ∀ index, index < 512 * sectors → mem (kernelDst + index) = kernelImage drive.disk index
  frame : ∀ position, (position < sectorBuffer ∨ sectorBuffer + 512 ≤ position) →
    (position < kernelDst ∨ kernelDst + 512 * sectors ≤ position) → mem position = before position

/-- The state in front of the turn for a sector. -/
structure SectorsIn (drive : BiosDrive) (before : Bytes) (sectors : Nat) (st : LoadState) : Prop where
  placed : Placed drive before sectors st.mem
  edi : st.edi = kernelDst + 512 * sectors
  lba : st.lba = kernelLba + sectors
  calls : st.calls = sectors

/-- A sector that came into the buffer is copied behind the others. -/
theorem Placed.next {drive : BiosDrive} {before mem : Bytes} {sectors : Nat} (placed : Placed drive before sectors mem)
    (few : sectors < 65537) (served : int13 drive call (kernelLba + sectors) mem = some filled) :
    ∃ mem', copyInner 128 filled sectorBuffer (kernelDst + 512 * sectors) = (mem', kernelDst + 512 * (sectors + 1)) ∧
      Placed drive before (sectors + 1) mem' := by
  obtain ⟨image, frame⟩ := placed
  have low : sectorBuffer = 0x7E00 := rfl
  have high : kernelDst = 0x100000 := rfl
  rw [int13] at served
  split at served
  · cases served
  · cases served
    obtain ⟨mem', copied, bytes⟩ := copyInner_spec 128 (fun position =>
        if sectorBuffer ≤ position ∧ position < sectorBuffer + 512 then
          (drive.disk (kernelLba + sectors)).bytes (position - sectorBuffer)
        else mem position) sectorBuffer (kernelDst + 512 * sectors) (by omega) (by omega)
    have behind : kernelDst + 512 * sectors + 4 * 128 = kernelDst + 512 * (sectors + 1) := by omega
    rw [behind] at copied
    refine ⟨mem', copied, ⟨fun index inside => ?_, fun position buffer kernel => ?_⟩⟩
    · rw [bytes]
      by_cases fresh : 512 * sectors ≤ index
      · have number : index / 512 = sectors := by omega
        have offset : sectorBuffer + (kernelDst + index - (kernelDst + 512 * sectors)) - sectorBuffer = index % 512 := by omega
        rw [if_pos (by omega), if_pos (by omega), offset, kernelImage, number]
      · rw [if_neg (by omega), if_neg (by omega), image index (by omega)]
    · rw [bytes, if_neg (by omega), if_neg (by omega), frame position buffer (by omega)]

/-- The loop puts every sector in place or stops at the first call that fails or takes too long. -/
theorem ladeLoop_spec {drive : BiosDrive} {before : Bytes} (turns : Nat) {st : LoadState} {sectors : Nat}
    (loading : SectorsIn drive before sectors st) (first : 0 < sectors) (few : sectors + turns ≤ 65537) :
    (∃ call, sectors ≤ call ∧ call < sectors + turns ∧ drive.Stops call) ∧ ladeLoop drive turns st = .error 0x20 ∨
    (∀ call, sectors ≤ call → call < sectors + turns → ¬drive.Stops call) ∧
      ∃ st', ladeLoop drive turns st = .ok st' ∧ SectorsIn drive before (sectors + turns) st' := by
  induction turns generalizing st sectors with
  | zero => exact .inr ⟨fun call above below => absurd below (by omega), st, rfl, loading⟩
  | succ turns ih =>
    obtain ⟨placed, edi, lba, calls⟩ := loading
    rw [ladeLoop, ladeTurn, lba, calls, edi]
    cases served : int13 drive sectors (kernelLba + sectors) st.mem with
    | none =>
      have stops : drive.Stops sectors := by
        rw [int13] at served
        split at served
        · rename_i carry
          exact .inl carry
        · cases served
      exact .inl ⟨⟨sectors, by omega, by omega, stops⟩, rfl⟩
    | some filled =>
      dsimp only
      split
      · rename_i late
        exact .inl ⟨⟨sectors, by omega, by omega, .inr ⟨by omega, late⟩⟩, rfl⟩
      · rename_i inTime
        have passes : ¬drive.Stops sectors := by
          rintro (carry | ⟨_, late⟩)
          · rw [int13, if_pos carry] at served
            cases served
          · exact inTime late
        obtain ⟨mem', copied, placed'⟩ := placed.next (by omega) served
        rw [copied]
        have loading : SectorsIn drive before (sectors + 1)
            ⟨mem', kernelDst + 512 * (sectors + 1), u32 (kernelLba + sectors + 1), sectors + 1⟩ :=
          ⟨placed', rfl, u32_of_lt (by change 128 + sectors + 1 < 4294967296; omega), rfl⟩
        rcases ih loading (by omega) (by omega) with ⟨⟨call, above, below, stops⟩, stopped⟩ | ⟨all, st', ran, loaded⟩
        · exact .inl ⟨⟨call, by omega, by omega, stops⟩, stopped⟩
        · refine .inr ⟨fun call above below => ?_, st', ran, ?_⟩
          · rcases Nat.eq_or_lt_of_le above with rfl | later
            · exact passes
            · exact all call later (by omega)
          · rwa [Nat.add_right_comm] at loaded

theorem word_image {mem image : Bytes} (start offset : Nat) (same : ∀ index, index < offset + width → mem (start + index) = image index) :
    word mem (start + offset) width = word image offset width := by
  induction width generalizing offset with
  | zero => rfl
  | succ width ih =>
    rw [word, word, same offset (by omega), Nat.add_assoc, ih (offset + 1) fun index inside => same index (by omega)]

theorem checksumLoop_eq (mem : Bytes) (ecx edi eax : Nat) (small : eax < 4294967296) (fits : edi + 4 * ecx < 4294967296) :
    checksumLoop mem ecx edi eax = u32 (eax + ((List.range ecx).map fun index => word mem (edi + 4 * index) 4).sum) := by
  induction ecx generalizing edi eax with
  | zero => exact (u32_of_lt small).symm
  | succ ecx ih =>
    rw [checksumLoop, u32_of_lt (by omega), ih _ _ (u32_lt _) (by omega), List.range_succ_eq_map, List.map_cons, List.sum_cons,
      List.map_map]
    have shift : ((fun index => word mem (edi + 4 * index) 4) ∘ Nat.succ) = fun index => word mem (edi + 4 + 4 * index) 4 := by
      funext index
      change word mem (edi + 4 * (index + 1)) 4 = _
      rw [Nat.mul_succ, Nat.add_comm (4 * index), Nat.add_assoc]
    rw [shift, ← Nat.add_assoc]
    exact Nat.mod_add_mod _ _ _

/-- The sum over the kernel in memory is the one over its image. -/
theorem checksum_image {mem image : Bytes} (words : Nat) (few : words ≤ 16777216)
    (same : ∀ index, index < 4 * words → mem (kernelDst + index) = image index) :
    checksumLoop mem words kernelDst 0 = imageSum image words := by
  rw [checksumLoop_eq mem words kernelDst 0 (by decide) (by change 1048576 + _ < _; omega), Nat.zero_add, imageSum]
  congr 2
  apply List.map_congr_left
  intro index inside
  have below := List.mem_range.mp inside
  exact word_image _ _ fun place short => same place (by omega)

/-- The kernel is in place, its size is in the boot information, and nothing else has changed but the buffer. -/
structure KernelLoaded (drive : BiosDrive) (before mem : Bytes) : Prop where
  image : ∀ index, index < kernelSize (kernelImage drive.disk) → mem (kernelDst + index) = kernelImage drive.disk index
  stored : word mem (bootInfo + 17) 4 = kernelSize (kernelImage drive.disk)
  frame : ∀ position, (position < sectorBuffer ∨ sectorBuffer + 512 ≤ position) →
    (position < bootInfo + 17 ∨ bootInfo + 21 ≤ position) →
    (position < kernelDst ∨ kernelDst + 512 * sectorsRead (kernelSize (kernelImage drive.disk)) ≤ position) →
    mem position = before position

/-- The ends of `loadKernel`. -/
inductive LoadEnds (drive : BiosDrive) (before : Bytes) : Except UInt8 (Bytes × Nat) → Prop where
  | unread (stops : drive.Stops 0) : LoadEnds drive before (.error 0x20)
  | magic (served : ¬drive.Stops 0) (wrong : ¬HasMagic (kernelImage drive.disk)) : LoadEnds drive before (.error 0x21)
  | stopped (right : HasMagic (kernelImage drive.disk)) (stops : ¬drive.Serves) : LoadEnds drive before (.error 0x20)
  | checksum (right : HasMagic (kernelImage drive.disk)) (serves : drive.Serves) (wrong : ¬SumsUp (kernelImage drive.disk)) :
      LoadEnds drive before (.error 0x22)
  | loaded (right : HasMagic (kernelImage drive.disk)) (serves : drive.Serves) (sum : SumsUp (kernelImage drive.disk))
      (loaded : KernelLoaded drive before mem) : LoadEnds drive before (.ok (mem, word (kernelImage drive.disk) 8 4))

theorem sectorsRead_turns (positive : 0 < size) (small : size ≤ 33553920) :
    1 + turns 65536 ((u32 (size + 511) / 512 % 65536 + 65535) % 65536) = sectorsRead size := by
  unfold turns sectorsRead
  rw [u32_of_lt (by omega)]
  split <;> split <;> omega

theorem sectorsRead_bounds (small : size ≤ 33553920) :
    size ≤ 512 * sectorsRead size ∧ 4 * ((size + 3) / 4) ≤ 512 * sectorsRead size ∧ sectorsRead size ≤ 65537 := by
  unfold sectorsRead
  split <;> omega

theorem int13_image {drive : BiosDrive} (served : int13 drive call kernelLba mem = some filled) (index : Nat) (inside : index < 512) :
    filled (sectorBuffer + index) = kernelImage drive.disk index := by
  rw [int13] at served
  split at served
  · cases served
  · cases served
    dsimp only
    rw [if_pos (by omega), Nat.add_sub_cancel_left, kernelImage, Nat.div_eq_of_lt inside, Nat.mod_eq_of_lt inside]

theorem BiosDrive.stops_first {drive : BiosDrive} : drive.Stops 0 ↔ drive.carry 0 = true :=
  ⟨fun stops => stops.resolve_right fun late => late.1 rfl, .inl⟩

theorem loadKernel_ends (drive : BiosDrive) (before : Bytes) (positive : 0 < kernelSize (kernelImage drive.disk))
    (small : kernelSize (kernelImage drive.disk) ≤ 33553920) : LoadEnds drive before (loadKernel drive before) := by
  rw [loadKernel]
  cases served : int13 drive 0 kernelLba before with
  | none =>
    rw [int13] at served
    split at served
    · rename_i carry
      exact .unread (.inl carry)
    · cases served
  | some filled =>
    have clear : ¬drive.Stops 0 := by
      rw [BiosDrive.stops_first]
      rw [int13] at served
      split at served
      · cases served
      · assumption
    have words (offset : Nat) (low : offset + 4 ≤ 512) :
        word filled (sectorBuffer + offset) 4 = word (kernelImage drive.disk) offset 4 :=
      word_image sectorBuffer offset fun index inside => int13_image served index (by omega)
    have magic : word filled sectorBuffer 4 = word (kernelImage drive.disk) 0 4 := words 0 (by decide)
    have sizeWord : word filled (sectorBuffer + 4) 4 = kernelSize (kernelImage drive.disk) := words 4 (by decide)
    have entry := words 8 (by decide)
    dsimp only
    rw [magic, sizeWord, entry]
    split
    · rename_i wrong
      exact .magic clear wrong
    · rename_i same
      have right : HasMagic (kernelImage drive.disk) := not_not.mp same
      have none : Placed drive before 0 before := ⟨fun index inside => absurd inside (by omega), fun _ _ _ => rfl⟩
      obtain ⟨mem', copied, placed⟩ := none.next (by decide) served
      have first : copyInner 128 filled sectorBuffer kernelDst = (mem', kernelDst + 512 * 1) := copied
      rw [first]
      have all := sectorsRead_turns positive small
      obtain ⟨whole, dwords, few⟩ := sectorsRead_bounds small
      generalize turns 65536 ((u32 (kernelSize (kernelImage drive.disk) + 511) / 512 % 65536 + 65535) % 65536) = further at all ⊢
      have loading : SectorsIn drive before 1 ⟨mem', kernelDst + 512 * 1, kernelLba + 1, 1⟩ := ⟨placed, rfl, rfl, rfl⟩
      rcases ladeLoop_spec further loading (by decide) (by omega) with ⟨⟨call, _, below, stops⟩, stopped⟩ | ⟨clean, st, ran, loaded⟩
      · rw [stopped]
        exact .stopped right fun serves => serves call (by omega) stops
      · rw [ran]
        have placed := loaded.placed
        rw [all] at placed
        have serves : drive.Serves := by
          intro call below
          rcases Nat.eq_zero_or_pos call with rfl | later
          · exact clear
          · exact clean call later (by omega)
        have low : bootInfo = 0x8F00 := rfl
        have high : kernelDst = 0x100000 := rfl
        generalize sized : kernelSize (kernelImage drive.disk) = size at *
        have kept (index : Nat) (inside : index < 512 * sectorsRead size) :
            putWord st.mem (bootInfo + 17) 4 size (kernelDst + index) = kernelImage drive.disk index := by
          rw [putWord_outside _ _ (by omega), placed.image index inside]
        have count : turns 4294967296 (u32 (size + 3) / 4) = (size + 3) / 4 := by
          rw [turns, u32_of_lt (by omega), if_neg (by omega)]
        have sum := checksum_image ((size + 3) / 4) (by omega) fun index inside => kept index (by omega)
        change LoadEnds drive before (if checksumLoop _ (turns 4294967296 (u32 (size + 3) / 4)) kernelDst 0 ≠ 0 then _ else _)
        rw [count, sum, ← sized]
        split
        · rename_i wrong
          exact .checksum right serves wrong
        · rename_i zero
          refine .loaded right serves (not_not.mp zero) ⟨fun index inside => ?_, ?_, fun position buffer info kernel => ?_⟩
          · rw [sized] at inside ⊢
            exact kept index (by omega)
          · rw [word_putWord_same, sized]
            exact Nat.mod_eq_of_lt (by omega)
          · rw [putWord_outside _ _ info, placed.frame position buffer (sized ▸ kernel)]

/-- For every kernel of at most 65535 sectors the loader ends in one of these ways, each for its own reason; and what it
goes on with is the image on the disk. -/
theorem loadKernel_exact (drive : BiosDrive) (before : Bytes) (positive : 0 < kernelSize (kernelImage drive.disk))
    (small : kernelSize (kernelImage drive.disk) ≤ 33553920) :
    (loadKernel drive before = .error 0x20 ↔ drive.Stops 0 ∨ HasMagic (kernelImage drive.disk) ∧ ¬drive.Serves) ∧
    (loadKernel drive before = .error 0x21 ↔ ¬drive.Stops 0 ∧ ¬HasMagic (kernelImage drive.disk)) ∧
    (loadKernel drive before = .error 0x22 ↔
      HasMagic (kernelImage drive.disk) ∧ drive.Serves ∧ ¬SumsUp (kernelImage drive.disk)) ∧
    ((∃ loaded, loadKernel drive before = .ok loaded) ↔
      HasMagic (kernelImage drive.disk) ∧ drive.Serves ∧ SumsUp (kernelImage drive.disk)) ∧
    ∀ mem entry, loadKernel drive before = .ok (mem, entry) →
      KernelLoaded drive before mem ∧ entry = word (kernelImage drive.disk) 8 4 := by
  have ends := loadKernel_ends drive before positive small
  have first : drive.Serves → ¬drive.Stops 0 := fun serves => serves 0 (by unfold sectorsRead; split <;> omega)
  generalize loadKernel drive before = result at ends ⊢
  cases ends with
  | unread stops =>
    refine ⟨iff_of_true rfl (.inl stops), iff_of_false nofun fun right => right.1 stops,
      iff_of_false nofun fun right => first right.2.1 stops, iff_of_false nofun fun right => first right.2.1 stops, nofun⟩
  | magic served wrong =>
    refine ⟨iff_of_false nofun fun | .inl stops => served stops | .inr right => wrong right.1, iff_of_true rfl ⟨served, wrong⟩,
      iff_of_false nofun fun right => wrong right.1, iff_of_false nofun fun right => wrong right.1, nofun⟩
  | stopped right stops =>
    refine ⟨iff_of_true rfl (.inr ⟨right, stops⟩), iff_of_false nofun fun wrong => wrong.2 right,
      iff_of_false nofun fun all => stops all.2.1, iff_of_false nofun fun all => stops all.2.1, nofun⟩
  | checksum right serves wrong =>
    refine ⟨iff_of_false nofun fun | .inl stops => first serves stops | .inr fails => fails.2 serves,
      iff_of_false nofun fun other => other.2 right, iff_of_true rfl ⟨right, serves, wrong⟩,
      iff_of_false nofun fun all => wrong all.2.2, nofun⟩
  | loaded right serves sum loaded =>
    refine ⟨iff_of_false nofun fun | .inl stops => first serves stops | .inr fails => fails.2 serves,
      iff_of_false nofun fun other => other.2 right, iff_of_false nofun fun other => other.2.2 sum,
      iff_of_true ⟨_, rfl⟩ ⟨right, serves, sum⟩, fun mem entry same => ?_⟩
    cases same
    exact ⟨loaded, rfl⟩

/-- A kernel of 516 bytes that are 0 but for its header, on a drive that serves every call at once. -/
def sampleDrive : BiosDrive where
  disk lba position :=
    if lba = kernelLba then
      [0xDE, 0xC0, 0xDE, 0xC0, 0x04, 0x02, 0, 0, 0x20, 0, 0x10, 0, 1, 0, 0, 0, 0xFD, 0x3C, 0x11, 0x3F].getD position.val 0
    else 0
  carry _ := false
  ticks _ := (0, 0)

theorem loadKernel_exact_sample : ∃ loaded, loadKernel sampleDrive (fun _ => 0) = .ok loaded :=
  (loadKernel_exact sampleDrive (fun _ => 0) (by decide) (by decide)).2.2.2.1.mpr
    ⟨by decide, by decide, by decide +kernel⟩

end LivlyOS.Boot
