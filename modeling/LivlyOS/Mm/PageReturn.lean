import LivlyOS.Mm.PageCount

namespace LivlyOS.Mm

open LivlyOS.Lib

/-- The variables of `pmm.c` fit their types: `max_pages` counts pages of a 64-bit
address space, `free_pages` is a `uint64_t`. -/
structure PmmState.Sized (st : PmmState) : Prop where
  pages : st.maxPages ≤ 4503599627370496
  counter : st.freePages < 18446744073709551616

theorem pmmInit_sized (info : BootInfo) (kernelEnd : Nat) (behind : Bytes) : (pmmInit info kernelEnd behind).Sized := by
  obtain ⟨small, counter⟩ := Balanced.pmmInit info kernelEnd behind
  exact ⟨small, counter ▸ u64_lt _⟩

/-- `count` calls of `pmm_alloc` in a row. -/
def allocRun : (count : Nat) → PmmState → List Nat × PmmState
  | 0, st => ([], st)
  | count + 1, st =>
    let (adresse, st) := pmmAlloc st
    let (others, st) := allocRun count st
    (adresse :: others, st)

/-- Calls of `pmm_free` in a row. -/
def freeRun (adressen : List Nat) (st : PmmState) : PmmState := adressen.foldl (fun st adresse => pmmFree adresse st) st

/-- A state in which some free pages of an earlier one are taken, and nothing else differs. -/
structure TakenFrom (base : PmmState) (pages : Finset Nat) (st : PmmState) : Prop where
  layout : SameLayout base st
  total : st.totalPages = base.totalPages
  bits : ∀ index, readBit st.bitmap index = if index ∈ pages then 1 else readBit base.bitmap index
  free : ∀ page ∈ pages, base.IsFree page
  counter : u64 (st.freePages + pages.card) = base.freePages
  small : st.freePages < 18446744073709551616

namespace TakenFrom

variable {base st : PmmState} {pages : Finset Nat}

theorem none (sized : base.Sized) : TakenFrom base ∅ base where
  layout := .refl base
  total := rfl
  bits _ := (if_neg (Finset.notMem_empty _)).symm
  free _ member := absurd member (Finset.notMem_empty _)
  counter := u64_of_lt sized.counter
  small := sized.counter

theorem isFree (taken : TakenFrom base pages st) : st.IsFree page ↔ base.IsFree page ∧ page ∉ pages := by
  rw [PmmState.IsFree, taken.layout.maxPages, taken.bits, PmmState.IsFree]
  split
  · rename_i member
    simp [member]
  · rename_i other
    simp [other]

/-- With no page taken the state is the earlier one. -/
theorem eq_base (taken : TakenFrom base ∅ st) : st = base := by
  obtain ⟨⟨maxPages, bitmapAddr, limit⟩, total, bits, _, counter, small⟩ := taken
  have bitmap : st.bitmap = base.bitmap :=
    bytes_ext fun index => (bits index).trans (if_neg (Finset.notMem_empty _))
  have free : st.freePages = base.freePages := by
    rw [← counter, Finset.card_empty, Nat.add_zero, u64_of_lt small]
  cases st
  cases base
  simp_all

theorem alloc (taken : TakenFrom base pages st) (sized : base.Sized) (success : (pmmAlloc st).1 ≠ outOfMemory) :
    ∃ page, page ≠ 0 ∧ (pmmAlloc st).1 = page * pageSize ∧ base.IsFree page ∧
      TakenFrom base (insert page pages) (pmmAlloc st).2 := by
  rcases allocPages_spec (st.maxPages - 1) 1 st with ⟨_, result⟩ | ⟨page, low, free, _, result⟩
  · exact absurd (by rw [pmmAlloc, result]) success
  · obtain ⟨free', fresh⟩ := taken.isFree.mp free
    obtain ⟨layout, total, bits, owned, counter, small⟩ := taken
    rw [pmmAlloc, result]
    refine ⟨page, by omega, (page_address sized.pages free'.1).1, free', ?_⟩
    have inside : ¬ st.maxPages ≤ page := Nat.not_le.mpr free.1
    have step := bitSetzen_layout page st
    rw [bitSetzen, if_neg inside] at step ⊢
    refine ⟨(layout.trans step).counted _ _, total, fun index => ?_, ?_, ?_, u64_lt _⟩
    · dsimp only
      rw [readBit_setBit, bits]
      by_cases same : index = page
      · rw [if_pos same, if_pos (same ▸ Finset.mem_insert_self _ _)]
      · rw [if_neg same]
        simp only [Finset.mem_insert, same, false_or]
    · intro other member
      rcases Finset.mem_insert.mp member with rfl | member
      · exact free'
      · exact owned other member
    · dsimp only
      rw [Finset.card_insert_of_notMem fresh, ← counter, sub64, u64, u64, u64, u64]
      omega

/-- `pmm_free` of a page that was free gives it back, also a second time. -/
theorem release (taken : TakenFrom base pages st) (free : base.IsFree page) (nonzero : page ≠ 0) :
    TakenFrom base (pages.erase page) (pmmFree (page * pageSize) st) := by
  have whole : page * pageSize / pageSize = page := Nat.mul_div_cancel page (Nat.succ_pos _)
  have inside : ¬ st.maxPages ≤ page := Nat.not_le.mpr (taken.layout.maxPages ▸ free.1)
  rw [pmmFree, whole, if_neg (by omega)]
  by_cases again : st.IsFree page
  · rw [if_pos (bitLesen_free.mpr again), Finset.erase_eq_of_notMem (taken.isFree.mp again).2]
    exact taken
  · rw [if_neg (mt bitLesen_free.mp again)]
    have member : page ∈ pages := by
      by_contra other
      exact again (taken.isFree.mpr ⟨free, other⟩)
    obtain ⟨layout, total, bits, owned, counter, small⟩ := taken
    have step := bitLoeschen_layout page st
    rw [bitLoeschen, if_neg inside] at step ⊢
    refine ⟨(layout.trans step).counted _ _, total, fun index => ?_, ?_, ?_, u64_lt _⟩
    · dsimp only
      rw [readBit_clearBit, bits]
      by_cases same : index = page
      · rw [if_pos same, if_neg (same ▸ Finset.notMem_erase _ _), same, free.2]
      · rw [if_neg same]
        simp only [Finset.mem_erase, same, ne_eq, not_false_eq_true, true_and]
    · exact fun other there => owned other (Finset.mem_of_mem_erase there)
    · have positive := Finset.card_pos.mpr ⟨page, member⟩
      dsimp only
      rw [Finset.card_erase_of_mem member, ← counter, u64, u64, u64]
      omega

theorem allocRun (taken : TakenFrom base pages st) (sized : base.Sized) (count : Nat)
    (success : outOfMemory ∉ (allocRun count st).1) :
    (∀ adresse ∈ (Mm.allocRun count st).1, ∃ page, page ≠ 0 ∧ adresse = page * pageSize ∧ base.IsFree page) ∧
      ∃ pages', TakenFrom base pages' (Mm.allocRun count st).2 ∧
        ∀ page ∈ pages', page ∈ pages ∨ page * pageSize ∈ (Mm.allocRun count st).1 := by
  induction count generalizing pages st with
  | zero => exact ⟨fun _ none => absurd none List.not_mem_nil, pages, taken, fun _ => .inl⟩
  | succ count ih =>
    rw [Mm.allocRun] at success ⊢
    obtain ⟨first, rest⟩ := not_or.mp (mt List.mem_cons.mpr success)
    obtain ⟨page, nonzero, address, free, taken'⟩ := taken.alloc sized (Ne.symm first)
    obtain ⟨known, pages', taken'', covered⟩ := ih taken' rest
    refine ⟨fun adresse member => ?_, pages', taken'', fun other member => ?_⟩
    · rcases List.mem_cons.mp member with rfl | member
      · exact ⟨page, nonzero, address, free⟩
      · exact known adresse member
    · rcases covered other member with inside | later
      · rcases Finset.mem_insert.mp inside with rfl | inside
        · exact .inr (List.mem_cons.mpr (.inl address.symm))
        · exact .inl inside
      · exact .inr (List.mem_cons_of_mem _ later)

theorem freeRun (taken : TakenFrom base pages st) (adressen : List Nat)
    (known : ∀ adresse ∈ adressen, ∃ page, page ≠ 0 ∧ adresse = page * pageSize ∧ base.IsFree page) :
    ∃ pages', TakenFrom base pages' (freeRun adressen st) ∧
      ∀ page ∈ pages', page ∈ pages ∧ page * pageSize ∉ adressen := by
  induction adressen generalizing pages st with
  | nil => exact ⟨pages, taken, fun _ member => ⟨member, List.not_mem_nil⟩⟩
  | cons adresse rest ih =>
    obtain ⟨page, nonzero, rfl, free⟩ := known _ List.mem_cons_self
    obtain ⟨pages', taken', covered⟩ := ih (taken.release free nonzero) fun other member =>
      known other (List.mem_cons_of_mem _ member)
    refine ⟨pages', taken', fun other member => ?_⟩
    obtain ⟨kept, absent⟩ := covered other member
    obtain ⟨different, inside⟩ := Finset.mem_erase.mp kept
    refine ⟨inside, List.not_mem_cons_of_ne_of_not_mem (fun same => different ?_) absent⟩
    exact Nat.eq_of_mul_eq_mul_right (Nat.succ_pos _) same

end TakenFrom

/-- Freeing the pages of successful allocations in any order, each one at least
once, restores bitmap and counter. -/
theorem freeRun_allocRun (sized : st.Sized) (count : Nat) (success : outOfMemory ∉ (allocRun count st).1)
    (same : ∀ adresse, adresse ∈ adressen ↔ adresse ∈ (allocRun count st).1) :
    freeRun adressen (allocRun count st).2 = st := by
  obtain ⟨known, pages, taken, covered⟩ := (TakenFrom.none sized).allocRun sized count success
  obtain ⟨pages', taken', left⟩ := taken.freeRun adressen fun adresse member => known adresse ((same adresse).mp member)
  have none : pages' = ∅ := by
    refine Finset.eq_empty_of_forall_notMem fun page member => ?_
    obtain ⟨inside, absent⟩ := left page member
    rcases covered page inside with other | allocated
    · exact absurd other (Finset.notMem_empty _)
    · exact absent ((same _).mpr allocated)
  exact (none ▸ taken').eq_base

/-- Three free pages behind a kernel of one page. -/
def threePages : PmmState := pmmInit ⟨[⟨0x100000, 0x4000, e820Free⟩], 0x1000⟩ 0x104000 fun _ => 0

/-- Freed out of order, some of them twice. -/
theorem freeRun_allocRun_threePages :
    (allocRun 3 threePages).1 = [0x101000, 0x102000, 0x103000] ∧
      freeRun [0x103000, 0x101000, 0x103000, 0x102000, 0x101000] (allocRun 3 threePages).2 = threePages := by
  have pages : (allocRun 3 threePages).1 = [0x101000, 0x102000, 0x103000] := by decide +kernel
  have sized : threePages.Sized := pmmInit_sized _ _ _
  refine ⟨pages, freeRun_allocRun sized 3 (by rw [pages]; decide) fun adresse => ?_⟩
  rw [pages]
  simp only [List.mem_cons, List.not_mem_nil, or_false]
  omega

end LivlyOS.Mm
