import LivlyOS.Mm.StrayMappings

namespace LivlyOS.Mm

open LivlyOS.Lib

/-- Where the walk of an address reads the entries of the upper three levels. -/
def upperSlots (mem : Bytes) (virt : Nat) : List Nat :=
  let pdpt := nextTable mem pml4 (pml4Index virt)
  let pd := nextTable mem pdpt (pdptIndex virt)
  [pml4 + 8 * pml4Index virt, pdpt + 8 * pdptIndex virt, pd + 8 * pdIndex virt]

/-- The place of the page's own entry, as the walk finds it when it goes by no present bit. -/
def lastSlot (mem : Bytes) (virt : Nat) : Nat :=
  let pdpt := nextTable mem pml4 (pml4Index virt)
  let pd := nextTable mem pdpt (pdptIndex virt)
  let pt := nextTable mem pd (pdIndex virt)
  pt + 8 * ptIndex virt

/-- All the tables of an address are there. -/
def UpperPresent (mem : Bytes) (virt : Nat) : Prop :=
  ∀ slot ∈ upperSlots mem virt, word mem slot 8 &&& pagePresent ≠ 0

instance (mem : Bytes) (virt : Nat) : Decidable (UpperPresent mem virt) :=
  inferInstanceAs (Decidable (∀ slot ∈ upperSlots mem virt, _))

theorem upperPresent_iff (mem : Bytes) (virt : Nat) :
    UpperPresent mem virt ↔
      tableEntry mem pml4 (pml4Index virt) &&& pagePresent ≠ 0 ∧
      tableEntry mem (nextTable mem pml4 (pml4Index virt)) (pdptIndex virt) &&& pagePresent ≠ 0 ∧
      tableEntry mem (nextTable mem (nextTable mem pml4 (pml4Index virt)) (pdptIndex virt)) (pdIndex virt) &&&
        pagePresent ≠ 0 := by
  simp [UpperPresent, upperSlots, tableEntry]

theorem meetsAbsent_iff_slots (mem : Bytes) (virt : Nat) :
    MeetsAbsent mem virt ↔ ¬UpperPresent mem virt ∨ word mem (lastSlot mem virt) 8 &&& pagePresent = 0 := by
  rw [upperPresent_iff]
  unfold MeetsAbsent lastSlot tableEntry
  simp only [ne_eq, not_and_or, not_not, or_assoc]

theorem virtToPhys_eq (mem : Bytes) (virt : Nat) :
    virtToPhys mem virt =
      if UpperPresent mem virt then alignPage (word mem (lastSlot mem virt) 8) + virt % 4096 else 0 := by
  have fold {c₄ c₃ c₂ : Prop} [Decidable c₄] [Decidable c₃] [Decidable c₂] (phys : Nat) :
      (if c₄ then 0 else if c₃ then 0 else if c₂ then 0 else phys) = if ¬c₄ ∧ ¬c₃ ∧ ¬c₂ then phys else 0 := by
    by_cases c₄ <;> by_cases c₃ <;> by_cases c₂ <;> simp [*]
  rw [← offset_eq virt]
  simp only [upperPresent_iff, virtToPhys, lastSlot, tableEntry]
  exact fold _

theorem unmapPage_mem (virt : Nat) (st : VmmState) :
    (unmapPage virt st).mem = putWord st.mem (lastSlot st.mem virt) 8 0 := rfl

section Page

variable {mem : Bytes} {virt virt' : Nat}

theorem index_page (page : virt' / 4096 = virt / 4096) :
    pml4Index virt' = pml4Index virt ∧ pdptIndex virt' = pdptIndex virt ∧ pdIndex virt' = pdIndex virt ∧
      ptIndex virt' = ptIndex virt := by
  simp only [pml4Index_eq, pdptIndex_eq, pdIndex_eq, ptIndex_eq]
  omega

theorem upperSlots_page (page : virt' / 4096 = virt / 4096) : upperSlots mem virt' = upperSlots mem virt := by
  obtain ⟨same4, same3, same2, _⟩ := index_page page
  simp only [upperSlots, same4, same3, same2]

theorem upperPresent_page (page : virt' / 4096 = virt / 4096) : UpperPresent mem virt' ↔ UpperPresent mem virt := by
  rw [UpperPresent, upperSlots_page page, UpperPresent]

theorem lastSlot_page (page : virt' / 4096 = virt / 4096) : lastSlot mem virt' = lastSlot mem virt := by
  obtain ⟨same4, same3, same2, same1⟩ := index_page page
  simp only [lastSlot, same4, same3, same2, same1]

end Page

theorem upperSlots_aligned (member : slot ∈ upperSlots mem virt) : slot % 8 = 0 := by
  simp only [upperSlots, pml4, nextTable_eq, List.mem_cons, List.not_mem_nil, or_false] at member
  omega

theorem lastSlot_aligned (mem : Bytes) (virt : Nat) : lastSlot mem virt % 8 = 0 := by
  simp only [lastSlot, nextTable_eq]
  omega

theorem word_clear_other {slot other : Nat} (mem : Bytes) (aligned : slot % 8 = 0) (aligned' : other % 8 = 0)
    (apart : other ≠ slot) : word (putWord mem slot 8 0) other 8 = word mem other 8 :=
  word_putWord_other mem 0 (by omega)

theorem walk_clear {slot : Nat} (aligned : slot % 8 = 0) (apart : slot ∉ upperSlots mem virt) :
    upperSlots (putWord mem slot 8 0) virt = upperSlots mem virt ∧
      lastSlot (putWord mem slot 8 0) virt = lastSlot mem virt ∧
      (UpperPresent (putWord mem slot 8 0) virt ↔ UpperPresent mem virt) := by
  have kept (other : Nat) (member : other ∈ upperSlots mem virt) :
      word (putWord mem slot 8 0) other 8 = word mem other 8 :=
    word_clear_other mem aligned (upperSlots_aligned member) fun same => apart (same ▸ member)
  have next (table i : Nat) (member : table + 8 * i ∈ upperSlots mem virt) :
      nextTable (putWord mem slot 8 0) table i = nextTable mem table i := congrArg alignPage (kept _ member)
  have next4 := next pml4 (pml4Index virt) (by simp [upperSlots])
  have next3 := next (nextTable mem pml4 (pml4Index virt)) (pdptIndex virt) (by simp [upperSlots])
  have next2 := next (nextTable mem (nextTable mem pml4 (pml4Index virt)) (pdptIndex virt)) (pdIndex virt)
    (by simp [upperSlots])
  have slots : upperSlots (putWord mem slot 8 0) virt = upperSlots mem virt := by
    simp only [upperSlots, next4, next3]
  refine ⟨slots, by simp only [lastSlot, next4, next3, next2], ?_⟩
  unfold UpperPresent
  rw [slots]
  exact forall₂_congr fun other member => by rw [kept other member]

/-- Clearing an upper entry of the walk ends the walk there. -/
theorem absent_clear (member : slot ∈ upperSlots mem virt) : ¬UpperPresent (putWord mem slot 8 0) virt := by
  have aligned := upperSlots_aligned member
  have ends (same : slot ∈ upperSlots (putWord mem slot 8 0) virt) : ¬UpperPresent (putWord mem slot 8 0) virt := by
    intro present
    apply present slot same
    rw [word_putWord_same]
    rfl
  have kept {table i : Nat} (offset : (table + 8 * i) % 8 = 0) (other : slot ≠ table + 8 * i) :
      nextTable (putWord mem slot 8 0) table i = nextTable mem table i :=
    congrArg alignPage (word_clear_other mem aligned offset (Ne.symm other))
  apply ends
  simp only [upperSlots, List.mem_cons, List.not_mem_nil, or_false] at member ⊢
  by_cases first : slot = pml4 + 8 * pml4Index virt
  · exact .inl first
  · rw [kept (by rw [pml4]; omega) first]
    by_cases second : slot = nextTable mem pml4 (pml4Index virt) + 8 * pdptIndex virt
    · exact .inr (.inl second)
    · rw [kept (by rw [nextTable_eq]; omega) second]
      exact .inr (.inr ((member.resolve_left first).resolve_left second))

/-- No entry that is met on the way to a last table maps a large page. -/
def NoLargePages (mem : Bytes) : Prop :=
  ∀ virt, UpperPresent mem virt → ∀ slot ∈ (upperSlots mem virt).tail, word mem slot 8 &&& 0x80 = 0

/-- An address without a mapping translates to nothing and is left alone by `unmap_page`; the
page that `unmap_page` takes away has no translation afterwards. -/
def Recognised (virt : Nat) (st : VmmState) : Prop :=
  (MeetsAbsent st.mem virt → virtToPhys st.mem virt = 0 ∧ (unmapPage virt st).mem = st.mem) ∧
    (¬MeetsAbsent st.mem virt →
      ∀ virt', virt' / 4096 = virt / 4096 → virtToPhys (unmapPage virt st).mem virt' = 0)

/-- The word that `unmap_page` clears is zero before, and without a missing table the address is
the first one of its page. -/
def AbsentFits (virt : Nat) (mem : Bytes) : Prop :=
  word mem (lastSlot mem virt) 8 = 0 ∧ (UpperPresent mem virt → virt % 4096 = 0)

theorem absentFits_iff (virt : Nat) (st : VmmState) :
    virtToPhys st.mem virt = 0 ∧ (unmapPage virt st).mem = st.mem ↔ AbsentFits virt st.mem := by
  rw [unmapPage_mem, putWord_zero_eq_iff, virtToPhys_eq, AbsentFits, and_comm]
  apply and_congr_right
  intro zero
  rw [zero]
  split
  · rename_i present
    simp [present, show alignPage 0 = 0 from rfl]
  · rename_i missing
    simp [missing]

/-- What is left of a page that was unmapped: the offsets, unless the tables hold the entry of the
page in its own walk. -/
theorem virtToPhys_unmapped (present : UpperPresent st.mem virt) (page : virt' / 4096 = virt / 4096) :
    virtToPhys (unmapPage virt st).mem virt' = if lastSlot st.mem virt ∈ upperSlots st.mem virt then 0 else virt' % 4096 := by
  rw [virtToPhys_eq, unmapPage_mem, lastSlot_page page]
  simp only [upperPresent_page page]
  by_cases own : lastSlot st.mem virt ∈ upperSlots st.mem virt
  · rw [if_pos own, if_neg (absent_clear own)]
  · obtain ⟨_, last, upper⟩ := walk_clear (lastSlot_aligned st.mem virt) own
    rw [if_neg own, if_pos (upper.mpr present), last, word_putWord_same]
    exact Nat.zero_add _

theorem recognised_mapped_iff (mapped : ¬MeetsAbsent st.mem virt) :
    (∀ virt', virt' / 4096 = virt / 4096 → virtToPhys (unmapPage virt st).mem virt' = 0) ↔
      lastSlot st.mem virt ∈ upperSlots st.mem virt := by
  have present : UpperPresent st.mem virt := by
    by_contra missing
    exact mapped ((meetsAbsent_iff_slots st.mem virt).mpr (.inl missing))
  constructor
  · intro gone
    by_contra other
    have second := gone (virt / 4096 * 4096 + 1) (by omega)
    rw [virtToPhys_unmapped present (by omega), if_neg other] at second
    omega
  · intro own virt' page
    rw [virtToPhys_unmapped present page, if_pos own]

/-- Addresses are recognised exactly where the entry of the page holds zero already and decides
nothing, or is itself an upper entry of the walk. -/
theorem recognised_iff (virt : Nat) (st : VmmState) :
    Recognised virt st ↔
      (MeetsAbsent st.mem virt → AbsentFits virt st.mem) ∧
        (¬MeetsAbsent st.mem virt → lastSlot st.mem virt ∈ upperSlots st.mem virt) :=
  and_congr (forall_congr' fun _ => absentFits_iff virt st) (forall_congr' recognised_mapped_iff)

theorem noLargePages_of_small (small : ∀ address, (mem address).toNat < 128) : NoLargePages mem := by
  intro virt _ slot _
  have low := small slot
  have split : word mem slot 8 = (mem slot).toNat + 256 * word mem (slot + 1) 7 := rfl
  have bit : (word mem slot 8).testBit 7 = false := by
    rw [Nat.testBit_eq_decide_div_mod_eq]
    apply decide_eq_false
    omega
  rw [show 0x80 = 2 ^ 7 from rfl, Nat.and_two_pow, bit]
  rfl

theorem putWord_small {mem : Bytes} (small : ∀ address, (mem address).toNat < 128) (offset value : Nat)
    (digits : ∀ i < 8, value / 256 ^ i % 256 < 128) (address : Nat) : (putWord mem offset 8 value address).toNat < 128 := by
  unfold putWord
  split
  · rw [UInt8.toNat_ofNat']
    exact digits (address - offset) (by omega)
  · exact small address

/-- The page at 0x400000, mapped by `map_page` in blank tables. -/
def mappedVmm : VmmState := mapPage 0x400000 0x200000 3 blankVmm

theorem mappedVmm_noLargePages : NoLargePages mappedVmm.mem := by
  have tables : mappedVmm.mem = putWord (putWord (putWord (putWord (fun _ => 0) 0x1000 8 0x4003) 0x4000 8 0x5003)
      0x5010 8 0x6003) 0x6000 8 0x200003 := rfl
  apply noLargePages_of_small
  rw [tables]
  have blank (address : Nat) : (blankVmm.mem address).toNat < 128 := Nat.succ_pos 127
  have linked4 := putWord_small blank 0x1000 0x4003 (by decide)
  have linked3 := putWord_small linked4 0x4000 0x5003 (by decide)
  have linked2 := putWord_small linked3 0x5010 0x6003 (by decide)
  exact putWord_small linked2 0x6000 0x200003 (by decide)

/-- The same tables with an interrupt vector of the BIOS at the bottom of memory. -/
def vectorVmm : VmmState := { mappedVmm with mem := fun address => if address = 0 then 0x53 else mappedVmm.mem address }

/-- The second address of a page that was unmapped still translates, to its offset; unmapping an
address without tables clears the bottom of memory. -/
theorem unmapped_translates :
    NoLargePages mappedVmm.mem ∧ ¬MeetsAbsent mappedVmm.mem 0x400000 ∧
      virtToPhys (unmapPage 0x400000 mappedVmm).mem 0x400123 = 0x123 ∧
      MeetsAbsent vectorVmm.mem 0x8000000000 ∧ (unmapPage 0x8000000000 vectorVmm).mem 0 = 0 ∧
      ¬∀ virt st, NoLargePages st.mem → Recognised virt st := by
  have mapped : ¬MeetsAbsent mappedVmm.mem 0x400000 := by decide +kernel
  have translates : virtToPhys (unmapPage 0x400000 mappedVmm).mem 0x400123 = 0x123 := by decide +kernel
  refine ⟨mappedVmm_noLargePages, mapped, translates, by decide +kernel, by decide +kernel, fun recognised => ?_⟩
  have gone := (recognised 0x400000 mappedVmm mappedVmm_noLargePages).2 mapped 0x400123 (by decide)
  rw [translates] at gone
  exact absurd gone (by decide)

end LivlyOS.Mm
