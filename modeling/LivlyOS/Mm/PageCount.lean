import LivlyOS.Mm.PageOwnership
import Mathlib.Data.Finset.Card
import Mathlib.Order.Interval.Finset.Nat

namespace LivlyOS.Mm

open LivlyOS.Lib

/-- The pages below `max_pages` whose bit is clear. -/
def freeSet (st : PmmState) : Finset Nat := {page ∈ Finset.range st.maxPages | readBit st.bitmap page = 0}

theorem mem_freeSet : page ∈ freeSet st ↔ st.IsFree page := by
  rw [freeSet, Finset.mem_filter, Finset.mem_range, PmmState.IsFree]

theorem freeSet_card_le (st : PmmState) : (freeSet st).card ≤ st.maxPages := by
  have sub := Finset.card_filter_le (Finset.range st.maxPages) fun page => readBit st.bitmap page = 0
  rwa [Finset.card_range] at sub

theorem freeSet_bitSetzen (page : Nat) (st : PmmState) : freeSet (bitSetzen page st) = (freeSet st).erase page := by
  ext other
  rw [mem_freeSet, bitSetzen_free, Finset.mem_erase, mem_freeSet, and_comm]

theorem freeSet_bitLoeschen (inside : page < st.maxPages) :
    freeSet (bitLoeschen page st) = insert page (freeSet st) := by
  ext other
  rw [mem_freeSet, bitLoeschen_free, Finset.mem_insert, mem_freeSet, or_comm, and_iff_left inside]

/-- The counter is the number of free pages, up to a surplus that was counted once too often. -/
structure Balanced (surplus : Nat) (st : PmmState) : Prop where
  small : st.maxPages ≤ 4503599627370496
  counter : st.freePages = u64 ((freeSet st).card + surplus)

section Balanced

variable {surplus : Nat} {st : PmmState}

theorem Balanced.take (balanced : Balanced surplus st) (free : st.IsFree page) :
    Balanced surplus { bitSetzen page st with freePages := sub64 st.freePages 1 } := by
  obtain ⟨small, counter⟩ := balanced
  have member := mem_freeSet.mpr free
  have positive := Finset.card_pos.mpr ⟨page, member⟩
  refine ⟨(bitSetzen_layout page st).maxPages ▸ small, ?_⟩
  change _ = u64 ((freeSet (bitSetzen page st)).card + surplus)
  rw [freeSet_bitSetzen, Finset.card_erase_of_mem member]
  dsimp only
  rw [counter, sub64, u64, u64, u64, u64]
  omega

/-- Setting the bit of a page that is taken already. -/
theorem Balanced.keep (balanced : Balanced surplus st) (taken : ¬st.IsFree page) :
    Balanced surplus (bitSetzen page st) := by
  obtain ⟨small, counter⟩ := balanced
  have layout := bitSetzen_layout page st
  have same : (bitSetzen page st).freePages = st.freePages := by
    unfold bitSetzen
    split <;> rfl
  refine ⟨layout.maxPages ▸ small, ?_⟩
  rw [same, counter, freeSet_bitSetzen, Finset.erase_eq_of_notMem (mt mem_freeSet.mp taken)]

theorem Balanced.reservePages (balanced : Balanced surplus st) (count p : Nat) :
    Balanced surplus (reservePages count p st) := by
  induction count generalizing p st with
  | zero => exact balanced
  | succ count ih =>
    unfold Mm.reservePages
    apply ih
    by_cases free : st.IsFree p
    · have taken := balanced.take free
      rw [if_pos (bitLesen_free.mpr free)]
      unfold bitSetzen at taken ⊢
      dsimp only
      split
      · rename_i outside
        exact absurd free.1 (Nat.not_lt.mpr outside)
      · rename_i inside
        rwa [if_neg inside] at taken
    · rw [if_neg (mt bitLesen_free.mp free)]
      exact balanced.keep free

theorem Balanced.pmmReserveRange (balanced : Balanced surplus st) (addr length : Nat) :
    Balanced surplus (pmmReserveRange addr length st) :=
  balanced.reservePages _ _

theorem Balanced.pmmAlloc (balanced : Balanced surplus st) : Balanced surplus (pmmAlloc st).2 := by
  rcases allocPages_spec (st.maxPages - 1) 1 st with ⟨_, result⟩ | ⟨page, _, free, _, result⟩
  · rw [Mm.pmmAlloc, result]
    exact balanced
  · rw [Mm.pmmAlloc, result]
    exact balanced.take free

theorem Balanced.pmmFree (balanced : Balanced surplus st) (adresse : Nat) : Balanced surplus (pmmFree adresse st) := by
  unfold Mm.pmmFree
  dsimp only
  split
  · exact balanced
  · rename_i valid
    split
    · exact balanced
    · rename_i taken
      obtain ⟨small, counter⟩ := balanced
      have inside : adresse / pageSize < st.maxPages := by omega
      have fresh : adresse / pageSize ∉ freeSet st := mt mem_freeSet.mp (mt bitLesen_free.mpr taken)
      refine ⟨(bitLoeschen_layout (adresse / pageSize) st).maxPages ▸ small, ?_⟩
      change _ = u64 ((freeSet (bitLoeschen (adresse / pageSize) st)).card + surplus)
      rw [freeSet_bitLoeschen inside, Finset.card_insert_of_notMem fresh]
      dsimp only
      rw [counter, u64, u64, u64]
      omega

end Balanced

instance (entry : E820Entry) (page : Nat) : Decidable (entry.Opens page) := inferInstanceAs (Decidable (_ ∧ _ ∧ _))

/-- The pages below a bound that stage 2a frees for one entry. -/
def entryPages (bound : Nat) (entry : E820Entry) : Finset Nat := {page ∈ Finset.range bound | entry.Opens page}

/-- The pages that stage 2a frees. -/
def openedPages (bound : Nat) (map : List E820Entry) : Finset Nat :=
  {page ∈ Finset.range bound | ∃ entry ∈ map, entry.Opens page}

/-- The pages that stage 2a counts, entry by entry. -/
def countedPages (bound : Nat) (map : List E820Entry) : Nat := (map.map fun entry => (entryPages bound entry).card).sum

theorem openedPages_cons (bound : Nat) (entry : E820Entry) (map : List E820Entry) :
    openedPages bound (entry :: map) = entryPages bound entry ∪ openedPages bound map := by
  ext page
  simp only [openedPages, entryPages, Finset.mem_filter, Finset.mem_union, List.exists_mem_cons_iff, ← and_or_left]

theorem entryPages_card_le (bound : Nat) (entry : E820Entry) : (entryPages bound entry).card ≤ bound := by
  have size := Finset.card_filter_le (Finset.range bound) entry.Opens
  rwa [Finset.card_range] at size

/-- The whole pages of a free entry, from the first to the last. -/
theorem entryPages_eq (bound : Nat) (free : entry.type = e820Free) :
    entryPages bound entry = Finset.Ico (padPage entry.base.toNat / pageSize) (min (entry.limit / pageSize) bound) := by
  ext page
  rw [entryPages, Finset.mem_filter, Finset.mem_range, Finset.mem_Ico, E820Entry.Opens, and_iff_right free]
  omega

theorem openPages_counter (count p : Nat) (st : PmmState) :
    u64 (openPages count p st).freePages = u64 (st.freePages + count) := by
  induction count generalizing p st with
  | zero => rfl
  | succ count ih =>
    have kept : (bitLoeschen p st).freePages = st.freePages := by
      unfold bitLoeschen
      split <;> rfl
    rw [openPages, ih]
    dsimp only
    rw [kept, u64, u64, u64]
    omega

theorem openEntry_counter (entry : E820Entry) (st : PmmState) :
    u64 (openEntry entry st).freePages = u64 (st.freePages + (entryPages st.maxPages entry).card) := by
  unfold openEntry
  split
  · rename_i taken
    have none : entryPages st.maxPages entry = ∅ :=
      Finset.filter_eq_empty_iff.mpr fun page _ opens => taken opens.1
    rw [none, Finset.card_empty, Nat.add_zero]
  · rename_i free
    rw [entryPages_eq st.maxPages (not_not.mp free), Nat.card_Ico]
    dsimp only
    split
    · rw [show min (entry.limit / pageSize) st.maxPages - padPage entry.base.toNat / pageSize = 0 by omega, Nat.add_zero]
    · exact openPages_counter _ _ st

theorem openEntries_counter (map : List E820Entry) (st : PmmState) :
    u64 (openEntries map st).freePages = u64 (st.freePages + countedPages st.maxPages map) := by
  induction map generalizing st with
  | nil => rfl
  | cons entry rest ih =>
    have first := openEntry_counter entry st
    rw [openEntries, ih, (openEntry_spec entry st).1.maxPages, countedPages, countedPages, List.map_cons, List.sum_cons]
    rw [u64, u64] at first ⊢
    omega

theorem openEntries_small (map : List E820Entry) (small : st.freePages < 18446744073709551616) :
    (openEntries map st).freePages < 18446744073709551616 := by
  have pages (count p : Nat) (st : PmmState) (small : st.freePages < 18446744073709551616) :
      (openPages count p st).freePages < 18446744073709551616 := by
    induction count generalizing p st with
    | zero => exact small
    | succ count ih => exact ih _ _ (u64_lt _)
  induction map generalizing st with
  | nil => exact small
  | cons entry rest ih =>
    apply ih
    unfold openEntry
    dsimp only
    split
    · exact small
    · split
      · exact small
      · exact pages _ _ st small

theorem openedPages_card_le (bound : Nat) (map : List E820Entry) :
    (openedPages bound map).card ≤ countedPages bound map := by
  induction map with
  | nil => simp [openedPages]
  | cons entry rest ih =>
    have union := Finset.card_union_le (entryPages bound entry) (openedPages bound rest)
    rw [openedPages_cons, countedPages, List.map_cons, List.sum_cons]
    exact union.trans (Nat.add_le_add_left ih _)

/-- Stage 2a counts every page once if and only if no page belongs to two entries. -/
theorem countedPages_eq_iff (bound : Nat) (map : List E820Entry) :
    countedPages bound map = (openedPages bound map).card ↔
      map.Pairwise fun left right => Disjoint (entryPages bound left) (entryPages bound right) := by
  induction map with
  | nil => simp [openedPages, countedPages]
  | cons entry rest ih =>
    have least := openedPages_card_le bound rest
    have union := Finset.card_union_add_card_inter (entryPages bound entry) (openedPages bound rest)
    have apart : Disjoint (entryPages bound entry) (openedPages bound rest) ↔
        ∀ right ∈ rest, Disjoint (entryPages bound entry) (entryPages bound right) := by
      simp only [Finset.disjoint_left, openedPages, entryPages, Finset.mem_filter, not_and, not_exists]
      grind
    rw [List.pairwise_cons, ← ih, ← apart, Finset.disjoint_iff_inter_eq_empty, ← Finset.card_eq_zero, openedPages_cons,
      countedPages, List.map_cons, List.sum_cons]
    change _ + countedPages bound rest = _ ↔ _
    omega

/-- The counter after `pmm_init` and the pages that were counted more than once. -/
theorem Balanced.pmmInit (info : BootInfo) (kernelEnd : Nat) (behind : Bytes) :
    Balanced (countedPages (pageCount info.e820Map) info.e820Map - (openedPages (pageCount info.e820Map) info.e820Map).card)
      (pmmInit info kernelEnd behind) := by
  have start : Balanced
      (countedPages (pageCount info.e820Map) info.e820Map - (openedPages (pageCount info.e820Map) info.e820Map).card)
      (openEntries info.e820Map (pmmBlank info.e820Map kernelEnd behind)) := by
    obtain ⟨layout, opened⟩ := openEntries_spec info.e820Map (pmmBlank info.e820Map kernelEnd behind)
    have set : freeSet (openEntries info.e820Map (pmmBlank info.e820Map kernelEnd behind)) =
        openedPages (pageCount info.e820Map) info.e820Map := by
      ext page
      rw [mem_freeSet, opened, or_iff_right (pmmBlank_free _ _ _ page), openedPages, Finset.mem_filter, Finset.mem_range]
      rfl
    have counter := openEntries_counter info.e820Map (pmmBlank info.e820Map kernelEnd behind)
    rw [u64_of_lt (openEntries_small info.e820Map (Nat.succ_pos _))] at counter
    refine ⟨layout.maxPages ▸ Nat.le_of_lt (pageCount_lt info.e820Map), ?_⟩
    rw [counter, set, Nat.add_sub_cancel' (openedPages_card_le _ _)]
    exact congrArg u64 (Nat.zero_add _)
  unfold Mm.pmmInit reserveKnown
  exact ((((start.pmmReserveRange _ _).pmmReserveRange _ _).pmmReserveRange _ _).pmmReserveRange _ _).pmmReserveRange _ _

/-- A call to the page allocator, with any arguments. -/
inductive PmmOp where
  | reserveRange (addr length : Nat)
  | alloc
  | free (adresse : Nat)

def PmmOp.apply : PmmOp → PmmState → PmmState
  | .reserveRange addr length, st => pmmReserveRange addr length st
  | .alloc, st => (pmmAlloc st).2
  | .free adresse, st => pmmFree adresse st

/-- The states that a sequence of calls goes through. -/
def PmmOp.run (ops : List PmmOp) (st : PmmState) : PmmState := ops.foldl (fun st op => op.apply st) st

/-- The counter is the number of clear bits, there is something to count down wherever a bit is
clear, and page 0 is taken. -/
structure Exact (st : PmmState) : Prop where
  counter : st.freePages = (freeSet st).card
  positive : ∀ page, bitLesen page st = 0 → 0 < st.freePages
  first : bitLesen 0 st ≠ 0

theorem Balanced.exact (balanced : Balanced 0 st) (first : ¬st.IsFree 0) : Exact st := by
  have bound := freeSet_card_le st
  have small := balanced.small
  have counter : st.freePages = (freeSet st).card := by
    rw [balanced.counter, Nat.add_zero, u64_of_lt (by omega)]
  refine ⟨counter, fun page clear => ?_, mt bitLesen_free.mp first⟩
  rw [counter]
  exact Finset.card_pos.mpr ⟨page, mem_freeSet.mpr (bitLesen_free.mp clear)⟩

theorem PmmOp.balanced (op : PmmOp) (balanced : Balanced surplus st) : Balanced surplus (op.apply st) := by
  cases op with
  | reserveRange addr length => exact balanced.pmmReserveRange addr length
  | alloc => exact balanced.pmmAlloc
  | free adresse => exact balanced.pmmFree adresse

theorem PmmOp.first (op : PmmOp) (taken : ¬st.IsFree 0) : ¬(op.apply st).IsFree 0 := by
  intro free
  apply taken
  cases op with
  | reserveRange addr length => exact (((pmmReserveRange_spec addr length st).2 0).mp free).1
  | alloc =>
    change (pmmAlloc st).2.IsFree 0 at free
    rcases pmmAlloc_spec st with ⟨_, none⟩ | ⟨page, _, _, _, _, _, after⟩
    · rwa [none] at free
    · exact ((after 0).mp free).1
  | free adresse =>
    rcases ((pmmFree_spec adresse st).2 0).mp free with old | ⟨_, other, _⟩
    · exact old
    · exact absurd rfl other

theorem PmmOp.run_exact (ops : List PmmOp) (balanced : Balanced 0 st) (first : ¬st.IsFree 0) :
    Balanced 0 (run ops st) ∧ ¬(run ops st).IsFree 0 := by
  induction ops generalizing st with
  | nil => exact ⟨balanced, first⟩
  | cons op rest ih => exact ih (op.balanced balanced) (op.first first)

/-- A byte of an entry. -/
def E820Entry.Covers (entry : E820Entry) (byte : Nat) : Prop :=
  entry.base.toNat ≤ byte ∧ byte < entry.base.toNat + entry.length.toNat

theorem E820Entry.apart_of_le {left right : E820Entry} (ordered : left.base.toNat + left.length.toNat ≤ right.base.toNat)
    (byte : Nat) : ¬(left.Covers byte ∧ right.Covers byte) := by
  rintro ⟨⟨_, below⟩, above, _⟩
  omega

/-- Entries that share no byte share no whole page. -/
theorem countedPages_apart (map : List E820Entry)
    (apart : map.Pairwise fun left right => ∀ byte, ¬(left.Covers byte ∧ right.Covers byte))
    (noWrap : ∀ entry ∈ map, entry.base.toNat + entry.length.toNat ≤ 18446744073709551616) :
    countedPages (pageCount map) map = (openedPages (pageCount map) map).card := by
  apply (countedPages_eq_iff _ _).mpr
  apply apart.imp_of_mem
  intro left right leftMember rightMember disjoint
  apply Finset.disjoint_left.mpr
  intro page inLeft inRight
  obtain ⟨inside, opensLeft⟩ := Finset.mem_filter.mp inLeft
  obtain ⟨_, opensRight⟩ := Finset.mem_filter.mp inRight
  have below := Finset.mem_range.mp inside
  obtain ⟨lowLeft, highLeft⟩ := opensLeft.inside leftMember (noWrap left leftMember) below
  obtain ⟨lowRight, highRight⟩ := opensRight.inside rightMember (noWrap right rightMember) below
  have size : 0 < pageSize := Nat.succ_pos _
  exact disjoint (page * pageSize) ⟨⟨lowLeft, by omega⟩, lowRight, by omega⟩

theorem pmmInit_first (info : BootInfo) (kernelEnd : Nat) (behind : Bytes) :
    ¬(pmmInit info kernelEnd behind).IsFree 0 := by
  rw [(pmmInit_spec info kernelEnd behind).2]
  exact fun free => free.2 (.inl ⟨by decide, by decide⟩)

/-- With a map of disjoint entries the counter is exact after every sequence of calls, and in the
middle of every reservation. -/
theorem pmm_count_exact (info : BootInfo) (kernelEnd : Nat) (behind : Bytes)
    (apart : info.e820Map.Pairwise fun left right => ∀ byte, ¬(left.Covers byte ∧ right.Covers byte))
    (noWrap : ∀ entry ∈ info.e820Map, entry.base.toNat + entry.length.toNat ≤ 18446744073709551616)
    (ops : List PmmOp) :
    Exact (PmmOp.run ops (pmmInit info kernelEnd behind)) ∧
      ∀ count p, Exact (reservePages count p (PmmOp.run ops (pmmInit info kernelEnd behind))) := by
  have start := Balanced.pmmInit info kernelEnd behind
  rw [countedPages_apart info.e820Map apart noWrap, Nat.sub_self] at start
  obtain ⟨balanced, first⟩ := PmmOp.run_exact ops start (pmmInit_first info kernelEnd behind)
  refine ⟨balanced.exact first, fun count p => (balanced.reservePages count p).exact ?_⟩
  exact fun free => first (((reservePages_spec count p _).2 0).mp free).1

/-- Free memory below and above a reserved hole, with a double free and addresses outside. -/
theorem pmm_count_exact_hole :
    Exact (PmmOp.run [.alloc, .free 0x180007, .free 0x180000, .reserveRange 0xFFFFFFFFFFFFF000 0x2000, .free 0]
      (pmmInit ⟨[⟨0x100000, 0x100000, e820Free⟩, ⟨0x200000, 0x1000, 2⟩, ⟨0x201000, 0x1000, e820Free⟩], 0x1000⟩ 0x101000
        fun _ => 0)) := by
  have sorted : List.Pairwise (fun left right : E820Entry => left.base.toNat + left.length.toNat ≤ right.base.toNat)
      [⟨0x100000, 0x100000, e820Free⟩, ⟨0x200000, 0x1000, 2⟩, ⟨0x201000, 0x1000, e820Free⟩] := by decide
  exact (pmm_count_exact _ _ _ (sorted.imp E820Entry.apart_of_le) (by decide) _).1

end LivlyOS.Mm
