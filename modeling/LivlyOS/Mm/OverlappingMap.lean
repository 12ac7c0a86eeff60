import LivlyOS.Mm.PageCount
import Mathlib.Algebra.Order.BigOperators.Group.List
import Mathlib.Algebra.Order.Ring.Nat

namespace LivlyOS.Mm

open LivlyOS.Lib

/-- The next page that `pmm_alloc` returns is outside everything the map does not call free, and
every page that may be returned is counted once. -/
def FirmwareSafe (map : List E820Entry) (st : PageState) : Prop :=
  ((pmmAlloc st.pmm).1 ≠ outOfMemory → ∀ entry ∈ map, entry.type ≠ e820Free →
      ¬Intersects (pmmAlloc st.pmm).1 entry.base.toNat (entry.base.toNat + entry.length.toNat)) ∧
    st.pmm.freePages = (freeSet st.pmm).card

/-- Every page of a free entry that an entry of another type touches is reserved by `pmm_init`. -/
def OverlapsReserved (info : BootInfo) (kernelEnd : Nat) : Prop :=
  ∀ page, Opened info.e820Map page → ∀ entry ∈ info.e820Map, entry.type ≠ e820Free →
    Intersects (page * pageSize) entry.base.toNat (entry.base.toNat + entry.length.toNat) → Reserved info kernelEnd page

/-- The pages of the free entries, entry by entry, are as many as there are pages. -/
def CountedOnce (map : List E820Entry) : Prop :=
  u64 (countedPages (pageCount map) map) = (openedPages (pageCount map) map).card

instance (map : List E820Entry) : Decidable (CountedOnce map) := inferInstanceAs (Decidable (_ = _))

theorem openedPages_small (map : List E820Entry) : (openedPages (pageCount map) map).card < 4503599627370496 := by
  have bound := Finset.card_filter_le (Finset.range (pageCount map)) fun page => ∃ entry ∈ map, entry.Opens page
  rw [Finset.card_range] at bound
  exact Nat.lt_of_le_of_lt bound (pageCount_lt map)

/-- In a map of at most 4096 entries the sum cannot wrap: no page belongs to two free entries. -/
theorem countedOnce_iff (few : map.length ≤ 4096) :
    CountedOnce map ↔ map.Pairwise fun left right =>
      Disjoint (entryPages (pageCount map) left) (entryPages (pageCount map) right) := by
  have small : countedPages (pageCount map) map ≤ map.length * 4503599627370495 := by
    have each := List.sum_le_card_nsmul (map.map fun entry => (entryPages (pageCount map) entry).card) 4503599627370495 ?_
    · rwa [List.length_map] at each
    · intro size member
      obtain ⟨entry, _, rfl⟩ := List.mem_map.mp member
      have bound := entryPages_card_le (pageCount map) entry
      have pages := pageCount_lt map
      omega
  rw [CountedOnce, u64_of_lt (by omega), countedPages_eq_iff]

/-- The counter is right in one state if and only if the surplus vanishes in the register. -/
theorem Balanced.counter_iff (balanced : Balanced surplus st) :
    st.freePages = (freeSet st).card ↔ u64 surplus = 0 := by
  have bound := freeSet_card_le st
  have small := balanced.small
  rw [balanced.counter, u64, u64]
  omega

theorem countedOnce_surplus (map : List E820Entry) :
    CountedOnce map ↔
      u64 (countedPages (pageCount map) map - (openedPages (pageCount map) map).card) = 0 := by
  have least := openedPages_card_le (pageCount map) map
  have small := openedPages_small map
  rw [CountedOnce, u64, u64]
  omega

theorem PageReach.balanced (reach : PageReach info kernelEnd behind st) :
    Balanced (countedPages (pageCount info.e820Map) info.e820Map - (openedPages (pageCount info.e820Map) info.e820Map).card)
      st.pmm := by
  obtain ⟨calls, run⟩ := reach
  refine run.invariant (fun st => Balanced _ st.pmm) (fun before _ _ balanced _ step => ?_) (.pmmInit info kernelEnd behind)
  cases step with
  | alloc => exact balanced.pmmAlloc
  | free _ => exact balanced.pmmFree _

/-- An allocatable page that is in the way of the firmware gets handed out. -/
theorem overlapsReserved_of_safe
    (safe : ∀ st, PageReach info kernelEnd behind st → FirmwareSafe info.e820Map st) : OverlapsReserved info kernelEnd := by
  intro page opened entry member taken meets
  by_contra notReserved
  obtain ⟨st, reach, valid, address⟩ := PageReach.hands_out opened notReserved
  rw [← address] at meets
  exact (safe st reach).1 valid entry member taken meets

/-- Overlapping entries do no harm in any run exactly when the reservations of `pmm_init` cover
the overlaps with other types, and the free entries count no page twice. -/
theorem pmm_overlaps_iff (info : BootInfo) (kernelEnd : Nat) (behind : Bytes) :
    (∀ st, PageReach info kernelEnd behind st → FirmwareSafe info.e820Map st) ↔
      OverlapsReserved info kernelEnd ∧ CountedOnce info.e820Map := by
  rw [countedOnce_surplus]
  constructor
  · intro safe
    have start : PageReach info kernelEnd behind (initialPages info kernelEnd behind) := ⟨[], .done⟩
    exact ⟨overlapsReserved_of_safe safe, start.balanced.counter_iff.mp (safe _ start).2⟩
  · rintro ⟨reserved, once⟩ st reach
    refine ⟨fun returned entry member taken meets => ?_, reach.balanced.counter_iff.mpr once⟩
    obtain ⟨page, address, opened, notReserved, _⟩ := reach.alloc returned
    rw [address] at meets
    exact notReserved (reserved page opened entry member taken meets)

/-- A page of device memory in the middle of free memory. -/
def devicePage : BootInfo := ⟨[⟨0x100000, 0x103000, e820Free⟩, ⟨0x202000, 0x1000, 2⟩], 0x1000⟩

/-- Free memory that two entries list. -/
def listedTwice : BootInfo := ⟨[⟨0x100000, 0x103000, e820Free⟩, ⟨0x202000, 0x1000, e820Free⟩], 0x1000⟩

/-- The page of the device is free after `pmm_init`; of the page that is listed twice two are
counted. -/
theorem pmm_overlaps_unsafe :
    (pmmInit devicePage 0x101000 fun _ => 0).IsFree 0x202 ∧
      (pmmInit listedTwice 0x101000 fun _ => 0).freePages = 2 ∧
      (∀ page, (pmmInit listedTwice 0x101000 fun _ => 0).IsFree page → page = 0x202) ∧
      ¬∀ info kernelEnd behind st, PageReach info kernelEnd behind st → FirmwareSafe info.e820Map st := by
  have opened : Opened devicePage.e820Map 0x202 :=
    ⟨by decide, ⟨0x100000, 0x103000, e820Free⟩, List.mem_cons_self, by decide⟩
  have notReserved : ¬Reserved devicePage 0x101000 0x202 := by
    unfold Reserved InRange
    decide
  refine ⟨((pmmInit_spec devicePage 0x101000 fun _ => 0).2 0x202).mpr ⟨opened, notReserved⟩, by decide +kernel, ?_, ?_⟩
  · intro page free
    obtain ⟨⟨_, entry, member, opens⟩, others⟩ := ((pmmInit_spec listedTwice 0x101000 fun _ => 0).2 page).mp free
    have places : bitmapStart 0x101000 = 0x101000 ∧ bitmapEnd listedTwice.e820Map 0x101000 = 0x102000 := by decide
    have below : page < 0x203 := by
      have limits : ∀ entry ∈ listedTwice.e820Map, entry.limit / pageSize ≤ 0x203 := by decide
      exact Nat.lt_of_lt_of_le opens.2.2 (limits entry member)
    have above : 0x100 ≤ page := by
      have starts : ∀ entry ∈ listedTwice.e820Map, 0x100 ≤ padPage entry.base.toNat / pageSize := by decide
      exact (starts entry member).trans opens.2.1
    simp only [Reserved, not_or, places.1, places.2, InRange] at others
    obtain ⟨_, _, kernel, bitmap, heap⟩ := others
    have ends : padPage (u64 (0x100000 + kernelSizeAligned listedTwice.kernelSize)) = 0x101FFF ∧
        padPage (u64 (0x101000 + sub64 0x102000 0x101000)) = 0x102FFF ∧ padPage (u64 (0x102000 + heapSize)) = 0x202FFF := by
      decide
    rw [ends.1] at kernel
    rw [ends.2.1] at bitmap
    rw [ends.2.2] at heap
    rw [pageSize] at kernel bitmap heap
    omega
  · intro safe
    have kept := overlapsReserved_of_safe (safe devicePage 0x101000 fun _ => 0) 0x202 opened ⟨0x202000, 0x1000, 2⟩
      (List.mem_cons_of_mem _ List.mem_cons_self) (by decide)
    exact notReserved (kept ⟨0x202000, by decide, by decide, by decide, by decide⟩)

end LivlyOS.Mm
