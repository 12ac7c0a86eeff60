import LivlyOS.Mm.PageMap

/-! The page tables of stage 2 and what the walker makes of them. The directory there maps
512 pages of two MiB; the walker takes each of them for one more table. -/

namespace LivlyOS.Mm

open LivlyOS.Lib

/-- `rep stosd` with `ecx` to go. -/
def repStosd : (ecx edi eax : Nat) → Bytes → Bytes
  | 0, _, _, mem => mem
  | ecx + 1, edi, eax, mem => repStosd ecx (edi + 4) eax (putWord mem edi 4 eax)

/-- The bytes a directory entry of stage 2 maps. -/
def largeSize : Nat := 0x200000

/-- The loop `.pd_fill` with `ecx` to go. -/
def pdFill : (ecx edi eax : Nat) → Bytes → Bytes
  | 0, _, _, mem => mem
  | ecx + 1, edi, eax, mem =>
    pdFill ecx (edi + 8) (u32 (eax + largeSize)) (putWord (putWord mem edi 4 eax) (edi + 4) 4 0)

/-- PDPT_ADDR; PML4_ADDR is `pml4`. -/
def pdptAddr : Nat := 0x2000

def pdAddr : Nat := 0x3000

def setupPaging (mem : Bytes) : Bytes :=
  let mem := repStosd (3 * 1024) pml4 0 mem
  let mem := putWord mem pml4 4 (pdptAddr ||| 0x03)
  let mem := putWord mem pdptAddr 4 (pdAddr ||| 0x03)
  pdFill 512 pdAddr 0x83 mem

theorem repStosd_outside (ecx edi eax : Nat) (mem : Bytes) (outside : position < edi ∨ edi + 4 * ecx ≤ position) :
    repStosd ecx edi eax mem position = mem position := by
  induction ecx generalizing edi mem with
  | zero => rfl
  | succ ecx ih => rw [repStosd, ih _ _ (by omega), putWord_outside _ _ (by omega)]

theorem repStosd_zero (ecx edi : Nat) (mem : Bytes) (low : edi ≤ position) (high : position < edi + 4 * ecx) :
    repStosd ecx edi 0 mem position = 0 := by
  induction ecx generalizing edi mem with
  | zero => omega
  | succ ecx ih =>
    rw [repStosd]
    by_cases first : position < edi + 4
    · rw [repStosd_outside _ _ _ _ (by omega), putWord, if_pos (by omega), Nat.zero_div]
      rfl
    · exact ih _ _ (by omega) (by omega)

theorem pdFill_outside (ecx edi eax : Nat) (mem : Bytes) (outside : position < edi ∨ edi + 8 * ecx ≤ position) :
    pdFill ecx edi eax mem position = mem position := by
  induction ecx generalizing edi eax mem with
  | zero => rfl
  | succ ecx ih =>
    rw [pdFill, ih _ _ _ (by omega), putWord_outside _ _ (by omega), putWord_outside _ _ (by omega)]

theorem word_putWord_low {mem : Bytes} (zero : ∀ i, at_ + 4 ≤ i → i < at_ + 8 → mem i = 0) (small : value < 4294967296) :
    word (putWord mem at_ 4 value) at_ 8 = value := by
  rw [word_append _ _ 4 4, word_putWord_same, word_putWord_other _ _ (by omega),
    word_zero fun i low high => zero i low (by omega)]
  omega

theorem pdFill_entry (ecx edi eax : Nat) (mem : Bytes) (small : eax + largeSize * ecx < 4294967296)
    (inside : k < ecx) : word (pdFill ecx edi eax mem) (edi + 8 * k) 8 = eax + largeSize * k := by
  induction ecx generalizing edi eax mem k with
  | zero => omega
  | succ ecx ih =>
    have room : largeSize * (ecx + 1) = largeSize + largeSize * ecx := by rw [Nat.mul_succ, Nat.add_comm]
    cases k with
    | zero =>
      have kept : word (pdFill (ecx + 1) edi eax mem) edi 8 =
          word (putWord (putWord mem edi 4 eax) (edi + 4) 4 0) edi 8 :=
        word_congr fun position low high => by rw [pdFill, pdFill_outside _ _ _ _ (by omega)]
      change word (pdFill (ecx + 1) edi eax mem) edi 8 = eax
      rw [kept, word_append _ _ 4 4, word_putWord_same, word_putWord_other _ _ (by omega), word_putWord_same]
      omega
    | succ k =>
      have next : u32 (eax + largeSize) = eax + largeSize := u32_of_lt (by omega)
      have far : largeSize * (k + 1) = largeSize + largeSize * k := by rw [Nat.mul_succ, Nat.add_comm]
      rw [pdFill, next, show edi + 8 * (k + 1) = edi + 8 + 8 * k by omega, ih _ _ _ (by omega) (by omega), far,
        Nat.add_assoc]

theorem setupPaging_outside (mem : Bytes) (outside : position < 0x1000 ∨ 0x4000 ≤ position) :
    setupPaging mem position = mem position := by
  simp only [setupPaging, pdAddr, pdptAddr, pml4]
  rw [pdFill_outside _ _ _ _ (by omega), putWord_outside _ _ (by omega), putWord_outside _ _ (by omega),
    repStosd_outside _ _ _ _ (by omega)]

theorem setupPaging_root (mem : Bytes) :
    tableEntry (setupPaging mem) pml4 0 = 0x2003 ∧ tableEntry (setupPaging mem) pdptAddr 0 = 0x3003 := by
  have before : ∀ i, i < 0x3000 → setupPaging mem i =
      putWord (putWord (repStosd (3 * 1024) 0x1000 0 mem) 0x1000 4 0x2003) 0x2000 4 0x3003 i := by
    intro i low
    rw [setupPaging, pdFill_outside _ pdAddr _ _ (.inl low)]
    rfl
  have zero : ∀ i, 0x1000 ≤ i → i < 0x3000 → repStosd (3 * 1024) 0x1000 0 mem i = 0 := fun i low high =>
    repStosd_zero _ _ _ low (by omega)
  generalize repStosd (3 * 1024) 0x1000 0 mem = zeros at before zero
  constructor
  · rw [tableEntry, pml4, word_congr fun i _ high => before i (by omega), word_putWord_other _ _ (by omega)]
    exact word_putWord_low (fun i low high => zero i (by omega) (by omega)) (by decide)
  · rw [tableEntry, pdptAddr, word_congr fun i _ high => before i (by omega)]
    refine word_putWord_low (fun i low high => ?_) (by decide)
    rw [putWord_outside _ _ (by omega)]
    exact zero i (by omega) (by omega)

theorem setupPaging_pd (mem : Bytes) (inside : i < 512) :
    tableEntry (setupPaging mem) pdAddr i = 0x83 + largeSize * i := by
  rw [tableEntry, setupPaging]
  exact pdFill_entry 512 pdAddr 0x83 _ (by decide) inside

/-- Where the page of two MiB that holds an address starts. -/
def largeBase (virt : Nat) : Nat := virt / largeSize * largeSize

/-- The eight bytes that the walker takes for the entry of an address. -/
def largeSlot (virt : Nat) : Nat := largeBase virt + 8 * ptIndex virt

/-- The three tables lead every address of the first GiB to the start of its own page. -/
theorem setupPaging_walk (mem : Bytes) (low : virt < 0x40000000) :
    pml4Index virt = 0 ∧ pdptIndex virt = 0 ∧ pdIndex virt < 512 ∧
      nextTable (setupPaging mem) pdAddr (pdIndex virt) = largeBase virt ∧
      ¬tableEntry (setupPaging mem) pdAddr (pdIndex virt) &&& pagePresent = 0 := by
  have root : pml4Index virt = 0 := by
    rw [pml4Index_eq]
    omega
  have second : pdptIndex virt = 0 := by
    rw [pdptIndex_eq]
    omega
  have third : pdIndex virt = virt / largeSize := by
    rw [pdIndex_eq, largeSize]
    omega
  have inside : virt / largeSize < 512 := by
    rw [largeSize]
    omega
  rw [third, nextTable_eq, setupPaging_pd mem inside, present_eq, largeBase, largeSize]
  refine ⟨root, second, by omega, by omega, by omega⟩

theorem nextTable_root (mem : Bytes) : nextTable (setupPaging mem) pml4 0 = pdptAddr := by
  rw [nextTable_eq, (setupPaging_root mem).1]
  rfl

theorem nextTable_pdpt (mem : Bytes) : nextTable (setupPaging mem) pdptAddr 0 = pdAddr := by
  rw [nextTable_eq, (setupPaging_root mem).2]
  rfl

theorem present_root (mem : Bytes) : ¬tableEntry (setupPaging mem) pml4 0 &&& pagePresent = 0 := by
  rw [(setupPaging_root mem).1]
  decide

theorem present_pdpt (mem : Bytes) : ¬tableEntry (setupPaging mem) pdptAddr 0 &&& pagePresent = 0 := by
  rw [(setupPaging_root mem).2]
  decide

/-- The slot is below the tables for the first large page, and above them for the others. -/
theorem word_largeSlot (mem : Bytes) (virt : Nat) :
    word (setupPaging mem) (largeSlot virt) 8 = word mem (largeSlot virt) 8 := by
  have last := ptIndex_lt virt
  refine word_congr fun i above below => setupPaging_outside mem ?_
  simp only [largeSlot, largeBase, largeSize] at above below
  omega

/-- `virt_to_phys` reads ordinary memory at the start of the large page. -/
theorem virtToPhys_setupPaging (mem : Bytes) (low : virt < 0x40000000) :
    virtToPhys (setupPaging mem) virt = alignPage (word mem (largeSlot virt) 8) + virt % 4096 := by
  obtain ⟨root, second, _, next, present⟩ := setupPaging_walk mem low
  simp only [virtToPhys, root, second, if_neg (present_root mem), nextTable_root, if_neg (present_pdpt mem),
    nextTable_pdpt, if_neg present, next, offset_eq]
  rw [tableEntry, ← largeSlot, word_largeSlot]

/-- `map_page` allocates nothing and stores there. -/
theorem mapPage_setupPaging {st : VmmState} (mem : Bytes) (boot : st.mem = setupPaging mem) (low : virt < 0x40000000)
    (phys flags : Nat) : mapPage virt phys flags st = setEntry (largeBase virt) (ptIndex virt) (phys ||| flags) st := by
  obtain ⟨root, second, _, next, present⟩ := setupPaging_walk mem low
  have first : linkTable pml4 0 st = st := if_neg (by rw [boot]; exact present_root mem)
  have middle : linkTable pdptAddr 0 st = st := if_neg (by rw [boot]; exact present_pdpt mem)
  have last : linkTable pdAddr (pdIndex virt) st = st := if_neg (by rw [boot]; exact present)
  simp only [mapPage, root, second, first]
  rw [boot, nextTable_root, middle, boot, nextTable_pdpt, last, boot, next]

/-- The tables of stage 2 and the frames from `pmm_alloc`. -/
def TableMemory (frames : List Nat) (address : Nat) : Prop :=
  (0x1000 ≤ address ∧ address < 0x4000) ∨ ∃ frame ∈ frames, frame ≤ address ∧ address < frame + 4096

/-- All stores of `map_page` go to page tables. -/
def MapsInTables (virt phys flags : Nat) (st : VmmState) : Prop :=
  let st' := mapPage virt phys flags { st with stores := [] }
  ∀ address ∈ st'.stores, TableMemory st'.frames address

/-- The start of the large page is a frame from `pmm_alloc` that holds an entry for the page of
the address. -/
def BaseIsTable (virt : Nat) (st : VmmState) : Prop :=
  alignPage (word st.mem (largeSlot virt) 8) = alignPage virt ∧
    ∃ frame ∈ st.frames, frame ≤ largeSlot virt ∧ largeSlot virt < frame + 4096

theorem largeSlot_ordinary (virt : Nat) : ¬(0x1000 ≤ largeSlot virt ∧ largeSlot virt < 0x4000) := by
  have last := ptIndex_lt virt
  simp only [largeSlot, largeBase, largeSize]
  omega

theorem mapsInTables_iff {st : VmmState} (mem : Bytes) (boot : st.mem = setupPaging mem) (low : virt < 0x40000000)
    (phys flags : Nat) : MapsInTables virt phys flags st ↔
      ∃ frame ∈ st.frames, frame ≤ largeSlot virt ∧ largeSlot virt < frame + 4096 := by
  have quiet : ({ st with stores := [] } : VmmState).mem = setupPaging mem := boot
  have stored := mapPage_setupPaging mem quiet low phys flags
  have stores : (mapPage virt phys flags { st with stores := [] }).stores = [largeSlot virt] := by
    rw [stored, setEntry, largeSlot]
  have frames : (mapPage virt phys flags { st with stores := [] }).frames = st.frames := by
    rw [stored, setEntry]
  constructor
  · intro inside
    have place := inside (largeSlot virt) (stores ▸ List.mem_cons_self)
    rw [frames] at place
    exact place.resolve_left (largeSlot_ordinary virt)
  · intro frame address member
    rw [stores, List.mem_singleton] at member
    rw [frames, member]
    exact .inr frame

/-- Over the tables of stage 2 an address of the first GiB is translated to itself, and mapped
in page tables only, if and only if the start of its large page is such a table. -/
theorem walker_agrees_iff {st : VmmState} (mem : Bytes) (boot : st.mem = setupPaging mem) (low : virt < 0x40000000)
    (phys flags : Nat) :
    (virtToPhys st.mem virt = virt ∧ MapsInTables virt phys flags st) ↔ BaseIsTable virt st := by
  have kept : word st.mem (largeSlot virt) 8 = word mem (largeSlot virt) 8 := by
    rw [boot]
    exact word_largeSlot mem virt
  have self : alignPage virt = virt / 4096 * 4096 := alignPage_eq (by omega)
  refine and_congr ?_ (mapsInTables_iff mem boot low phys flags)
  rw [boot, virtToPhys_setupPaging mem low, ← kept, ← boot, self]
  omega

/-- The state behind stage 2, over a memory of zeros. -/
def bootVmm : VmmState := { blankVmm with mem := setupPaging fun _ => 0 }

theorem bootVmm_mem : bootVmm.mem = setupPaging fun _ => 0 := by rw [bootVmm]

theorem walker_agrees_iff_kernel :
    (virtToPhys bootVmm.mem 0x100000 = 0x100000 ∧ MapsInTables 0x100000 0x100000 3 bootVmm) ↔
      BaseIsTable 0x100000 bootVmm :=
  walker_agrees_iff (fun _ => 0) bootVmm_mem (by decide) 0x100000 3

/-- The first address of the kernel is translated to 0, and mapping it writes to 0x800. -/
theorem kernel_address_lost : virtToPhys bootVmm.mem 0x100000 = 0 ∧
    (mapPage 0x100000 0x100000 3 bootVmm).stores = [0x800] ∧ ¬MapsInTables 0x100000 0x100000 3 bootVmm := by
  have low : 0x100000 < 0x40000000 := by decide
  refine ⟨?_, ?_, fun inside => ?_⟩
  · rw [bootVmm_mem, virtToPhys_setupPaging _ low, word_zero fun _ _ _ => rfl]
    decide
  · rw [mapPage_setupPaging _ bootVmm_mem low]
    decide
  · obtain ⟨frame, member, _⟩ := (mapsInTables_iff _ bootVmm_mem low 0x100000 3).mp inside
    exact absurd member List.not_mem_nil

end LivlyOS.Mm
