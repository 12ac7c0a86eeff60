import LivlyOS.Mm.Pmm
import LivlyOS.Lib.Run

namespace LivlyOS.Mm

open LivlyOS.Lib

theorem padPage_of_lt (fits : value + 4095 < 18446744073709551616) : padPage value = value + 4095 := by
  rw [padPage, sub64, pageSize, u64, u64, u64]
  omega

theorem padPage_wrap (high : 18446744073709551616 ≤ value + 4095) (small : value < 18446744073709551616) :
    padPage value < pageSize := by
  rw [padPage, sub64, pageSize, u64, u64, u64]
  omega

theorem alignPage_eq (small : value < 18446744073709551616) : alignPage value = value / 4096 * 4096 := by
  have mask : (0xFFFFFFFFFFFFF000 : Nat) = (2 ^ 52 - 1) <<< 12 := by decide
  have whole : value / 4096 * 4096 = (value >>> 12) <<< 12 := by
    rw [Nat.shiftRight_eq_div_pow, Nat.shiftLeft_eq]
  rw [alignPage, mask, whole]
  apply Nat.eq_of_testBit_eq
  intro index
  rw [Nat.testBit_and, Nat.testBit_shiftLeft, Nat.testBit_shiftLeft, Nat.testBit_shiftRight,
    Nat.testBit_two_pow_sub_one]
  by_cases low : 12 ≤ index
  · have shifted : 12 + (index - 12) = index := by omega
    rw [shifted, decide_eq_true low, Bool.true_and, Bool.true_and]
    by_cases inside : index - 12 < 52
    · rw [decide_eq_true inside, Bool.and_true]
    · have zero : value.testBit index = false := by
        apply Nat.testBit_lt_two_pow
        exact Nat.lt_of_lt_of_le small (Nat.pow_le_pow_right (Nat.succ_pos 1) (by omega : 64 ≤ index))
      rw [zero, Bool.false_and]
  · rw [decide_eq_false low, Bool.false_and, Bool.and_false, Bool.false_and]

/-- The page at an address has a byte in a range. -/
def Intersects (page low high : Nat) : Prop :=
  ∃ byte, page ≤ byte ∧ byte < page + pageSize ∧ low ≤ byte ∧ byte < high

/-- The pages of a reservation whose sums do not wrap. -/
theorem inRange_iff (fits : addr + length + 4095 < 18446744073709551616) :
    InRange addr length page ↔ addr / 4096 ≤ page ∧ page < (addr + length + 4095) / 4096 := by
  rw [InRange, u64_of_lt (by omega), padPage_of_lt fits, pageSize]

theorem InRange.of_intersects (fits : addr + length + 4095 < 18446744073709551616)
    (limit : high ≤ addr + length) (meets : Intersects (page * pageSize) addr high) :
    InRange addr length page := by
  obtain ⟨byte, low, high, above, below⟩ := meets
  rw [inRange_iff fits]
  rw [pageSize] at low high
  omega

/-- The pages in use by the callers of the page allocator. -/
structure PageState where
  pmm : PmmState
  outstanding : List Nat

inductive PmmCall where
  | alloc
  | free (adresse : Nat)

/-- One call. Only outstanding addresses are freed. -/
inductive PmmStep : PageState → PmmCall → PageState → Prop where
  | alloc : PmmStep st .alloc ⟨(pmmAlloc st.pmm).2,
      if (pmmAlloc st.pmm).1 = outOfMemory then st.outstanding
      else (pmmAlloc st.pmm).1 :: st.outstanding⟩
  | free {st : PageState} {adresse : Nat} (owned : adresse ∈ st.outstanding) :
      PmmStep st (.free adresse) ⟨pmmFree adresse st.pmm, st.outstanding.erase adresse⟩

/-- The state after `pmm_init`. -/
def initialPages (info : BootInfo) (kernelEnd : Nat) (behind : Bytes) : PageState :=
  ⟨pmmInit info kernelEnd behind, []⟩

/-- A state that a run of calls reaches. -/
def PageReach (info : BootInfo) (kernelEnd : Nat) (behind : Bytes) (st : PageState) : Prop :=
  ∃ calls, Run PmmStep (fun _ _ => True) (initialPages info kernelEnd behind) calls st

/-- Pages in circulation: free or outstanding, never both, and free at the start. -/
structure Circulating (initial : PmmState) (st : PageState) : Prop where
  layout : SameLayout initial st.pmm
  free : ∀ page, st.pmm.IsFree page → initial.IsFree page
  owned : ∀ adresse ∈ st.outstanding, ∃ page, adresse = page * pageSize ∧ initial.IsFree page ∧
    ¬ st.pmm.IsFree page
  nodup : st.outstanding.Nodup

theorem Circulating.start (pmm : PmmState) : Circulating pmm ⟨pmm, []⟩ :=
  ⟨.refl pmm, fun _ free => free, fun _ none => absurd none List.not_mem_nil, List.nodup_nil⟩

theorem page_address (small : maxPages ≤ 4503599627370496) (inside : page < maxPages) :
    u64 (page * pageSize) = page * pageSize ∧ page * pageSize ≠ outOfMemory := by
  rw [pageSize, outOfMemory]
  exact ⟨u64_of_lt (by omega), by omega⟩

theorem Circulating.step (circulating : Circulating initial st) (small : initial.maxPages ≤ 4503599627370496)
    (step : PmmStep st call st') : Circulating initial st' := by
  obtain ⟨layout, free, owned, nodup⟩ := circulating
  cases step with
  | alloc =>
    have spec := pmmAlloc_spec st.pmm
    generalize pmmAlloc st.pmm = result at spec ⊢
    obtain ⟨adresse, pmm⟩ := result
    rcases spec with ⟨_, none⟩ | ⟨page, _, pageFree, _, address, layout', free'⟩
    · cases none
      exact ⟨layout, free, owned, nodup⟩
    · dsimp only at address layout' free'
      have inside := (free page pageFree).1
      obtain ⟨fits, valid⟩ := page_address small inside
      rw [fits] at address
      subst address
      have earlier : ∀ known ∈ st.outstanding, ∃ other, known = other * pageSize ∧
          initial.IsFree other ∧ ¬ pmm.IsFree other ∧ other ≠ page := by
        intro known member
        obtain ⟨other, place, before, taken⟩ := owned known member
        refine ⟨other, place, before, fun otherFree => taken ((free' other).mp otherFree).1, ?_⟩
        rintro rfl
        exact taken pageFree
      refine ⟨layout.trans layout', fun other otherFree => free other ((free' other).mp otherFree).1, ?_, ?_⟩
      · intro known member
        rw [if_neg valid] at member
        rcases List.mem_cons.mp member with rfl | member
        · exact ⟨page, rfl, free page pageFree, fun again => ((free' page).mp again).2 rfl⟩
        · obtain ⟨other, place, before, taken, _⟩ := earlier known member
          exact ⟨other, place, before, taken⟩
      · rw [if_neg valid]
        refine List.nodup_cons.mpr ⟨?_, nodup⟩
        intro member
        obtain ⟨other, place, _, _, different⟩ := earlier _ member
        exact different (Nat.eq_of_mul_eq_mul_right (Nat.succ_pos _) place.symm)
  | @free adresse member =>
    obtain ⟨page, rfl, before, taken⟩ := owned adresse member
    obtain ⟨layout', free'⟩ := pmmFree_spec (page * pageSize) st.pmm
    have whole : page * pageSize / pageSize = page := Nat.mul_div_cancel page (Nat.succ_pos _)
    refine ⟨layout.trans layout', fun other otherFree => ?_, fun known knownMember => ?_,
      nodup.erase _⟩
    · rcases (free' other).mp otherFree with old | ⟨same, _⟩
      · exact free other old
      · rw [same, whole]
        exact before
    · obtain ⟨different, earlier⟩ := (List.Nodup.mem_erase_iff nodup).mp knownMember
      obtain ⟨other, rfl, otherBefore, otherTaken⟩ := owned known earlier
      refine ⟨other, rfl, otherBefore, fun otherFree => ?_⟩
      rcases (free' other).mp otherFree with old | ⟨same, _⟩
      · exact otherTaken old
      · rw [same, whole] at different
        exact different rfl

theorem pmmInit_small (info : BootInfo) (kernelEnd : Nat) (behind : Bytes) :
    (pmmInit info kernelEnd behind).maxPages ≤ 4503599627370496 := by
  rw [(pmmInit_spec info kernelEnd behind).1.maxPages]
  exact Nat.le_of_lt (pageCount_lt info.e820Map)

theorem PageReach.circulating (reach : PageReach info kernelEnd behind st) :
    Circulating (pmmInit info kernelEnd behind) st := by
  obtain ⟨calls, run⟩ := reach
  exact run.invariant (Circulating _)
    (fun _ _ _ before _ step => before.step (pmmInit_small info kernelEnd behind) step) (.start _)

/-- What `pmm_alloc` returns after a run: a page that stage 2a frees and `pmm_init` does not
reserve, and that is not outstanding. -/
theorem PageReach.alloc (reach : PageReach info kernelEnd behind st)
    (returned : (pmmAlloc st.pmm).1 ≠ outOfMemory) :
    ∃ page, (pmmAlloc st.pmm).1 = page * pageSize ∧ Opened info.e820Map page ∧ ¬Reserved info kernelEnd page ∧
      (pmmAlloc st.pmm).1 ∉ st.outstanding := by
  have circulating := reach.circulating
  rcases pmmAlloc_spec st.pmm with ⟨_, none⟩ | ⟨page, _, pageFree, _, address, _, _⟩
  · rw [none] at returned
    exact absurd rfl returned
  · have free := circulating.free page pageFree
    rw [(page_address (pmmInit_small info kernelEnd behind) free.1).1] at address
    obtain ⟨opened, notReserved⟩ := ((pmmInit_spec info kernelEnd behind).2 page).mp free
    refine ⟨page, address, opened, notReserved, fun member => ?_⟩
    obtain ⟨other, place, _, taken⟩ := circulating.owned _ member
    rw [address] at place
    rw [← Nat.eq_of_mul_eq_mul_right (Nat.succ_pos _) place] at taken
    exact taken pageFree

theorem PageReach.allocates (free : (pmmInit info kernelEnd behind).IsFree page) (low : 1 ≤ page) :
    ∃ st, PageReach info kernelEnd behind st ∧ (pmmAlloc st.pmm).1 = page * pageSize := by
  -- allocate until no page in front of `n` is free
  have emptied : ∀ n, 1 ≤ n → n ≤ page → ∃ st, PageReach info kernelEnd behind st ∧ st.pmm.IsFree page ∧
      ∀ other, 1 ≤ other → other < n → ¬ st.pmm.IsFree other := by
    intro n positive
    induction n, positive using Nat.le_induction with
    | base => exact fun _ => ⟨_, ⟨[], .done⟩, free, fun other low high => absurd high (by omega)⟩
    | succ n positive ih =>
      intro below
      obtain ⟨st, ⟨calls, run⟩, pageFree, none⟩ := ih (by omega)
      by_cases here : st.pmm.IsFree n
      · rcases pmmAlloc_spec st.pmm with ⟨empty, _⟩ | ⟨first, firstLow, firstFree, before, _, _, after⟩
        · exact absurd here (empty n positive)
        · have same : first = n := by
            have notBefore : ¬ first < n := fun less => none first firstLow less firstFree
            have notBehind : ¬ n < first := fun less => before n positive less here
            omega
          subst same
          refine ⟨_, ⟨calls ++ [.alloc], run.append (.next trivial .alloc .done)⟩,
            (after page).mpr ⟨pageFree, by omega⟩, fun other otherLow otherBelow otherFree => ?_⟩
          obtain ⟨old, different⟩ := (after other).mp otherFree
          exact none other otherLow (by omega) old
      · refine ⟨st, ⟨calls, run⟩, pageFree, fun other otherLow otherBelow => ?_⟩
        by_cases same : other = n
        · exact same ▸ here
        · exact none other otherLow (by omega)
  obtain ⟨st, reach, pageFree, none⟩ := emptied page low (Nat.le_refl _)
  refine ⟨st, reach, ?_⟩
  rcases pmmAlloc_spec st.pmm with ⟨empty, _⟩ | ⟨first, firstLow, firstFree, before, address, _, _⟩
  · exact absurd pageFree (empty page low)
  · have same : first = page := by
      have notBefore : ¬ first < page := fun less => none first firstLow less firstFree
      have notBehind : ¬ page < first := fun less => before page low less pageFree
      omega
    rw [address, same]
    exact (page_address (pmmInit_small info kernelEnd behind) free.1).1

/-- A page that stage 2a frees and `pmm_init` does not reserve is handed out in some run. -/
theorem PageReach.hands_out (opened : Opened info.e820Map page) (notReserved : ¬Reserved info kernelEnd page) :
    ∃ st, PageReach info kernelEnd behind st ∧ (pmmAlloc st.pmm).1 ≠ outOfMemory ∧
      (pmmAlloc st.pmm).1 = page * pageSize := by
  have free := ((pmmInit_spec info kernelEnd behind).2 page).mpr ⟨opened, notReserved⟩
  have low : 1 ≤ page := by
    apply Nat.pos_of_ne_zero
    rintro rfl
    exact notReserved (.inl ⟨by decide, by decide⟩)
  obtain ⟨st, reach, address⟩ := PageReach.allocates free low
  have valid := (page_address (pmmInit_small info kernelEnd behind) free.1).2
  exact ⟨st, reach, address ▸ valid, address⟩

/-- What the next `pmm_alloc` returns belongs to nobody else: it is a page of a
free entry of the map, not outstanding and outside everything `pmm_init` reserves. -/
def Exclusive (info : BootInfo) (kernelEnd : Nat) (st : PageState) : Prop :=
  (pmmAlloc st.pmm).1 ≠ outOfMemory →
    (pmmAlloc st.pmm).1 % pageSize = 0 ∧ (pmmAlloc st.pmm).1 ∉ st.outstanding ∧
    (∃ entry ∈ info.e820Map, entry.type = e820Free ∧ entry.base.toNat ≤ (pmmAlloc st.pmm).1 ∧
      (pmmAlloc st.pmm).1 + pageSize ≤ entry.base.toNat + entry.length.toNat) ∧
    ¬ Intersects (pmmAlloc st.pmm).1 0 pageSize ∧
    ¬ Intersects (pmmAlloc st.pmm).1 0x1000 0x4000 ∧
    ¬ Intersects (pmmAlloc st.pmm).1 0x100000 (0x100000 + info.kernelSize.toNat) ∧
    ¬ Intersects (pmmAlloc st.pmm).1 (bitmapStart kernelEnd)
      (bitmapStart kernelEnd + bitmapBytes info.e820Map) ∧
    ¬ Intersects (pmmAlloc st.pmm).1 (bitmapEnd info.e820Map kernelEnd)
      (bitmapEnd info.e820Map kernelEnd + heapSize)

/-- The highest address of a map, from a start value on. -/
theorem highest_spec (map : List E820Entry) (start : Nat) (small : start < 18446744073709551616) :
    let highest := map.foldl
      (fun highest entry => if highest ≤ entry.limit then entry.limit else highest) start
    highest < 18446744073709551616 ∧ start ≤ highest ∧ ∀ entry ∈ map, entry.limit ≤ highest := by
  induction map generalizing start with
  | nil => exact ⟨small, Nat.le_refl _, fun entry none => absurd none List.not_mem_nil⟩
  | cons first rest ih =>
    have bound : first.limit < 18446744073709551616 := u64_lt _
    have grows : start ≤ (if start ≤ first.limit then first.limit else start) ∧
        first.limit ≤ (if start ≤ first.limit then first.limit else start) ∧
        (if start ≤ first.limit then first.limit else start) < 18446744073709551616 := by
      split <;> omega
    obtain ⟨below, above, others⟩ := ih _ grows.2.2
    refine ⟨below, Nat.le_trans grows.1 above, fun entry member => ?_⟩
    rcases List.mem_cons.mp member with rfl | member
    · exact Nat.le_trans grows.2.1 above
    · exact others entry member

/-- A page that stage 2a frees for an entry lies inside it, also at the end of the address space,
where the rounding wraps and the map has no pages. -/
theorem E820Entry.Opens.inside {map : List E820Entry} (member : entry ∈ map)
    (whole : entry.base.toNat + entry.length.toNat ≤ 18446744073709551616) (below : page < pageCount map)
    (opens : entry.Opens page) :
    entry.base.toNat ≤ page * pageSize ∧ page * pageSize + pageSize ≤ entry.base.toNat + entry.length.toNat := by
  obtain ⟨_, low, high⟩ := opens
  obtain ⟨top, _, above⟩ := highest_spec map 0 (Nat.succ_pos _)
  have limit : entry.limit ≤ highestAddr map := above entry member
  have exact : entry.limit = entry.base.toNat + entry.length.toNat := by
    by_cases fits : entry.base.toNat + entry.length.toNat < 18446744073709551616
    · exact u64_of_lt fits
    · have zero : entry.limit = 0 := by
        rw [E820Entry.limit, Nat.le_antisymm whole (Nat.not_lt.mp fits)]
        rfl
      rw [zero] at high
      exact absurd high (Nat.not_lt_zero _)
  by_cases wraps : 18446744073709551616 ≤ entry.base.toNat + 4095
  · rw [exact] at limit
    have none := padPage_wrap (by omega : 18446744073709551616 ≤ highestAddr map + 4095) top
    rw [pageCount, Nat.div_eq_of_lt none] at below
    exact absurd below (Nat.not_lt_zero _)
  · rw [padPage_of_lt (Nat.not_le.mp wraps)] at low
    rw [exact] at high
    rw [pageSize] at low high ⊢
    omega

/-- A page that stage 2a frees lies inside a free entry. -/
theorem Opened.inside {map : List E820Entry}
    (noWrap : ∀ entry ∈ map, entry.base.toNat + entry.length.toNat ≤ 18446744073709551616)
    (opened : Opened map page) :
    ∃ entry ∈ map, entry.type = e820Free ∧ entry.base.toNat ≤ page * pageSize ∧
      page * pageSize + pageSize ≤ entry.base.toNat + entry.length.toNat := by
  obtain ⟨below, entry, member, opens⟩ := opened
  exact ⟨entry, member, opens.1, opens.inside member (noWrap entry member) below⟩

/-- Every page of the kernel image that stage 2a frees is reserved again. -/
def KernelReserved (info : BootInfo) (kernelEnd high : Nat) : Prop :=
  ∀ page, Opened info.e820Map page → Intersects (page * pageSize) 0x100000 high →
    Reserved info kernelEnd page

theorem kernelSizeAligned_le (fits : kernelSize.toNat ≤ 0xFFFFF000) :
    kernelSize.toNat ≤ kernelSizeAligned kernelSize ∧ kernelSizeAligned kernelSize < 4294967296 := by
  have bound : kernelSize.toNat < 4294967296 := UInt32.toNat_lt _
  have padded : sub32 (u32 (kernelSize.toNat + pageSize)) 1 = kernelSize.toNat + 4095 := by
    rw [sub32, pageSize, u32, u32, u32]
    omega
  rw [kernelSizeAligned, padded, alignPage_eq (by omega)]
  omega

theorem bitmapEnd_spec (map : List E820Entry) (small : kernelEnd < 281474976710656) :
    bitmapStart kernelEnd + bitmapBytes map ≤ bitmapEnd map kernelEnd ∧
      bitmapEnd map kernelEnd < 1125899906842624 := by
  have pages := pageCount_lt map
  have bytes : bitmapBytes map = (pageCount map + 7) / 8 := by
    rw [bitmapBytes, u64_of_lt (by omega)]
  have start : bitmapStart kernelEnd = (kernelEnd + 4095) / 4096 * 4096 := by
    rw [bitmapStart, padPage_of_lt (by omega), alignPage_eq (by omega)]
  have limit : bitmapStart kernelEnd + bitmapBytes map < 844424930136064 := by omega
  rw [bitmapEnd, u64_of_lt (by omega), padPage_of_lt (by omega), alignPage_eq (by omega)]
  omega

theorem exclusive_of_reserved (noWrap : ∀ entry ∈ info.e820Map,
      entry.base.toNat + entry.length.toNat ≤ 18446744073709551616)
    (small : kernelEnd < 281474976710656)
    (kernel : KernelReserved info kernelEnd (0x100000 + info.kernelSize.toNat))
    (reach : PageReach info kernelEnd behind st) : Exclusive info kernelEnd st := by
  intro returned
  obtain ⟨page, address, opened, notReserved, fresh⟩ := reach.alloc returned
  rw [address] at fresh ⊢
  obtain ⟨covered, below⟩ := bitmapEnd_spec info.e820Map small
  have outside : ¬Intersects (page * pageSize) 0x100000 (0x100000 + info.kernelSize.toNat) :=
    fun meets => notReserved (kernel page opened meets)
  simp only [Reserved, not_or] at notReserved
  obtain ⟨first, tables, _, bitmap, heap⟩ := notReserved
  refine ⟨Nat.mul_mod_left page pageSize, fresh, opened.inside noWrap, ?_, ?_, outside, ?_, ?_⟩
  · exact fun meets => first (.of_intersects (by decide) (by decide) meets)
  · exact fun meets => tables (.of_intersects (by decide) (by decide) meets)
  · intro meets
    have length : sub64 (bitmapEnd info.e820Map kernelEnd) (bitmapStart kernelEnd) =
        bitmapEnd info.e820Map kernelEnd - bitmapStart kernelEnd := sub64_of_le (by omega) (by omega)
    rw [length] at bitmap
    exact bitmap (.of_intersects (by omega) (by omega) meets)
  · exact fun meets => heap (.of_intersects (by rw [heapSize]; omega) (Nat.le_refl _) meets)

/-- Pages are owned exclusively in every run exactly when the rounding of the
kernel size does not wrap or the kernel is out of reach anyway. -/
theorem pmm_exclusive_iff (info : BootInfo) (kernelEnd : Nat) (behind : Bytes)
    (noWrap : ∀ entry ∈ info.e820Map,
      entry.base.toNat + entry.length.toNat ≤ 18446744073709551616)
    (small : kernelEnd < 281474976710656) :
    (∀ st, PageReach info kernelEnd behind st → Exclusive info kernelEnd st) ↔
      info.kernelSize.toNat ≤ 0xFFFFF000 ∨
        KernelReserved info kernelEnd (0x100000 + info.kernelSize.toNat) := by
  constructor
  · intro exclusive
    right
    intro page opened meets
    by_contra notReserved
    obtain ⟨st, reach, valid, address⟩ := PageReach.hands_out opened notReserved
    rw [← address] at meets
    obtain ⟨_, _, _, _, _, kernel, _⟩ := exclusive st reach valid
    exact kernel meets
  · intro condition st reach
    refine exclusive_of_reserved noWrap small ?_ reach
    rcases condition with fits | kernel
    · intro page _ meets
      obtain ⟨covers, bound⟩ := kernelSizeAligned_le fits
      exact .inr (.inr (.inl (.of_intersects (by omega) (by omega) meets)))
    · exact kernel

/-- Two free pages at one megabyte. -/
def twoPages : List E820Entry := [⟨0x100000, 0x2000, e820Free⟩]

theorem pmm_exclusive_twoPages :
    (⟨twoPages, 0x1000⟩ : BootInfo).kernelSize.toNat ≤ 0xFFFFF000 ∧
      ∀ st, PageReach ⟨twoPages, 0x1000⟩ 0x102000 (fun _ => 0) st →
        Exclusive ⟨twoPages, 0x1000⟩ 0x102000 st :=
  ⟨by decide, (pmm_exclusive_iff ⟨twoPages, 0x1000⟩ 0x102000 (fun _ => 0) (by decide) (by decide)).mpr
    (.inl (by decide))⟩

/-- The kernel size 2^32 - 1 is rounded up to 0, and the first `pmm_alloc` returns
the first page of the kernel. -/
theorem pmm_exclusive_wraps : ¬ ∀ (info : BootInfo) (kernelEnd : Nat) (behind : Bytes),
    (info.e820Map.Pairwise fun left right =>
      left.base.toNat + left.length.toNat ≤ right.base.toNat ∨
        right.base.toNat + right.length.toNat ≤ left.base.toNat) →
    (∀ entry ∈ info.e820Map, entry.base.toNat + entry.length.toNat ≤ 18446744073709551616) →
    kernelEnd < 281474976710656 →
    ∀ st, PageReach info kernelEnd behind st → Exclusive info kernelEnd st := by
  intro exclusive
  have first : (pmmAlloc (initialPages ⟨twoPages, 0xFFFFFFFF⟩ 0x200000 fun _ => 0).pmm).1 = 0x100000 := by
    decide +kernel
  have kept := exclusive ⟨twoPages, 0xFFFFFFFF⟩ 0x200000 (fun _ => 0) (List.pairwise_singleton _ _)
    (by decide) (by decide) _ ⟨[], .done⟩
  rw [Exclusive, first] at kept
  obtain ⟨_, _, _, _, _, kernel, _⟩ := kept (by decide)
  exact kernel ⟨0x100000, by decide, by decide, by decide, by decide⟩

/-- Every page of the kernel image that stage 2a frees starts in front of the end
that the header gives. From 2^48 on the address sums may wrap, so that another
reservation may be in the way. -/
def KernelCovered (info : BootInfo) (kernelEnd : Nat) : Prop :=
  ∀ page, Opened info.e820Map page → Intersects (page * pageSize) 0x100000 kernelEnd →
    page * pageSize < 0x100000 + kernelSizeAligned info.kernelSize ∨
      (281474976710656 ≤ kernelEnd ∧ Reserved info kernelEnd page)

theorem kernelSizeAligned_page (kernelSize : UInt32) :
    ∃ pages, kernelSizeAligned kernelSize = pages * pageSize ∧ pages * pageSize < 4294967296 := by
  have padded : sub32 (u32 (kernelSize.toNat + pageSize)) 1 < 4294967296 := u32_lt _
  refine ⟨sub32 (u32 (kernelSize.toNat + pageSize)) 1 / 4096, ?_, ?_⟩
  · rw [kernelSizeAligned, alignPage_eq (by omega)]
    rfl
  · rw [show pageSize = 4096 from rfl] at padded ⊢
    omega

/-- For a page of the kernel image only the third reservation counts. -/
theorem reserved_kernel_iff (meets : Intersects (page * pageSize) 0x100000 kernelEnd)
    (small : kernelEnd < 281474976710656) :
    Reserved info kernelEnd page ↔ page * pageSize < 0x100000 + kernelSizeAligned info.kernelSize := by
  obtain ⟨byte, low, high, above, below⟩ := meets
  obtain ⟨pages, whole, bound⟩ := kernelSizeAligned_page info.kernelSize
  obtain ⟨covered, _⟩ := bitmapEnd_spec info.e820Map small
  have start : bitmapStart kernelEnd = (kernelEnd + 4095) / 4096 * 4096 := by
    rw [bitmapStart, padPage_of_lt (by omega), alignPage_eq (by omega)]
  rw [pageSize] at low high whole bound ⊢
  have third : InRange 0x100000 (kernelSizeAligned info.kernelSize) page ↔
      page * 4096 < 0x100000 + kernelSizeAligned info.kernelSize := by
    rw [inRange_iff (by omega)]
    omega
  rw [← third]
  constructor
  · intro reserved
    rcases reserved with first | tables | kernel | bitmap | heap
    · have inside := ((inRange_iff (by decide)).mp first).2
      rw [pageSize] at inside
      omega
    · have inside := ((inRange_iff (by decide)).mp tables).2
      rw [pageSize] at inside
      omega
    · exact kernel
    · have behind := bitmap.1
      rw [start, pageSize] at behind
      omega
    · have behind := heap.1
      rw [pageSize] at behind
      omega
  · exact fun inside => .inr (.inr (.inl inside))

theorem kernelReserved_iff : KernelReserved info kernelEnd kernelEnd ↔ KernelCovered info kernelEnd := by
  constructor
  · intro reserved page opened meets
    by_cases small : kernelEnd < 281474976710656
    · exact .inl ((reserved_kernel_iff meets small).mp (reserved page opened meets))
    · exact .inr ⟨Nat.not_lt.mp small, reserved page opened meets⟩
  · intro covered page opened meets
    by_cases small : kernelEnd < 281474976710656
    · apply (reserved_kernel_iff meets small).mpr
      rcases covered page opened meets with inside | ⟨large, _⟩
      · exact inside
      · exact absurd small (Nat.not_lt.mpr large)
    · rcases covered page opened meets with inside | ⟨_, other⟩
      · obtain ⟨pages, whole, bound⟩ := kernelSizeAligned_page info.kernelSize
        obtain ⟨byte, low, high, above, below⟩ := meets
        refine .inr (.inr (.inl ?_))
        rw [whole] at inside
        rw [pageSize] at low high whole bound inside
        rw [inRange_iff (by omega)]
        omega
      · exact other

/-- The running kernel is never handed out exactly when the size in the header
covers every page of it that stage 2a frees. -/
theorem pmm_kernel_iff (info : BootInfo) (kernelEnd : Nat) (behind : Bytes) :
    (∀ st, PageReach info kernelEnd behind st → (pmmAlloc st.pmm).1 ≠ outOfMemory →
        ¬ Intersects (pmmAlloc st.pmm).1 0x100000 kernelEnd) ↔
      KernelCovered info kernelEnd := by
  rw [← kernelReserved_iff]
  constructor
  · intro safe page opened meets
    by_contra notReserved
    obtain ⟨st, reach, valid, address⟩ := PageReach.hands_out opened notReserved
    rw [← address] at meets
    exact safe st reach valid meets
  · intro kernel st reach returned meets
    obtain ⟨page, address, opened, notReserved, _⟩ := reach.alloc returned
    rw [address] at meets
    exact notReserved (kernel page opened meets)

/-- With a kernel of one page in the header and two pages in memory the first
`pmm_alloc` returns the second one. -/
theorem pmm_kernel_handed_out : ¬ ∀ (info : BootInfo) (kernelEnd : Nat) (behind : Bytes),
    info.kernelSize.toNat ≤ kernelEnd - 0x100000 → ∀ st, PageReach info kernelEnd behind st →
      (pmmAlloc st.pmm).1 ≠ outOfMemory → ¬ Intersects (pmmAlloc st.pmm).1 0x100000 kernelEnd := by
  intro safe
  have first : (pmmAlloc (initialPages ⟨twoPages, 0x1000⟩ 0x102000 fun _ => 0).pmm).1 = 0x101000 := by
    decide +kernel
  have kept := safe ⟨twoPages, 0x1000⟩ 0x102000 (fun _ => 0) (by decide) _ ⟨[], .done⟩
  rw [first] at kept
  exact kept (by decide) ⟨0x101000, by decide, by decide, by decide, by decide⟩

end LivlyOS.Mm
