import LivlyOS.Mm.Vmm

namespace LivlyOS.Mm

open LivlyOS.Lib LivlyOS.Lib.TableTree

/-- The table behind an entry, both as page numbers. -/
def child (mem : Bytes) (table : Nat) (index : Fin 512) : Option Nat :=
  if tableEntry mem (4096 * table) index &&& pagePresent = 0 then none
  else some (tableEntry mem (4096 * table) index / 4096)

/-- The table at the end of a path from `pml4`. -/
abbrev reach (mem : Bytes) (path : List (Fin 512)) : Option Nat := follow (child mem) 1 path

/-- The indices that lead to the last table of an address. -/
def tablePath (virt : Nat) : List (Fin 512) :=
  [⟨pml4Index virt, by rw [pml4Index_eq]; omega⟩, ⟨pdptIndex virt, by rw [pdptIndex_eq]; omega⟩,
    ⟨pdIndex virt, by rw [pdIndex_eq]; omega⟩]

theorem tablePath_length (virt : Nat) : (tablePath virt).length ≤ 3 := Nat.le_refl 3

theorem ptIndex_lt (virt : Nat) : ptIndex virt < 512 := by
  rw [ptIndex_eq]
  omega

theorem child_some {inside : i < 512} (there : child mem table ⟨i, inside⟩ = some next) :
    ¬tableEntry mem (4096 * table) i &&& pagePresent = 0 ∧ nextTable mem (4096 * table) i = 4096 * next := by
  unfold child at there
  split at there
  · exact absurd there.symm (Option.some_ne_none next)
  · rename_i present
    exact ⟨present, by rw [nextTable_eq, Option.some.inj there]⟩

theorem reach_tables (reached : reach mem (tablePath virt) = some pt) :
    ∃ pdpt pd, (¬tableEntry mem pml4 (pml4Index virt) &&& pagePresent = 0 ∧
        nextTable mem pml4 (pml4Index virt) = 4096 * pdpt) ∧
      (¬tableEntry mem (4096 * pdpt) (pdptIndex virt) &&& pagePresent = 0 ∧
        nextTable mem (4096 * pdpt) (pdptIndex virt) = 4096 * pd) ∧
      (¬tableEntry mem (4096 * pd) (pdIndex virt) &&& pagePresent = 0 ∧
        nextTable mem (4096 * pd) (pdIndex virt) = 4096 * pt) := by
  simp only [reach, tablePath, follow, Option.bind_eq_some_iff, Option.some.injEq] at reached
  obtain ⟨pdpt, first, pd, second, _, third, rfl⟩ := reached
  have root := child_some first
  rw [show 4096 * 1 = pml4 from rfl] at root
  exact ⟨pdpt, pd, root, child_some second, child_some third⟩

/-- `virt_to_phys` reads the entry of the last table. -/
theorem virtToPhys_reach (reached : reach mem (tablePath virt) = some pt) :
    virtToPhys mem virt = alignPage (tableEntry mem (4096 * pt) (ptIndex virt)) + virt % 4096 := by
  obtain ⟨pdpt, pd, ⟨present4, next4⟩, ⟨present3, next3⟩, present2, next2⟩ := reach_tables reached
  simp only [virtToPhys, if_neg present4, next4, if_neg present3, next3, if_neg present2, next2, offset_eq]

theorem unmapPage_reach {st : VmmState} (reached : reach st.mem (tablePath virt) = some pt) :
    unmapPage virt st = setEntry (4096 * pt) (ptIndex virt) 0 st := by
  obtain ⟨pdpt, pd, ⟨_, next4⟩, ⟨_, next3⟩, _, next2⟩ := reach_tables reached
  simp only [unmapPage, next4, next3, next2]

/-- The target of every mapped page. -/
abbrev PageMap := Nat → Option Nat

/-- A page address of 48 bits. -/
def PageAddress (virt : Nat) : Prop := virt < 281474976710656 ∧ virt % 4096 = 0

instance (virt : Nat) : Decidable (PageAddress virt) := inferInstanceAs (Decidable (_ ∧ _))

/-- The tables hold a map: no table is reached twice, all but `pml4` came from `pmm_alloc`, and
the last table of every mapped page has its target. -/
structure Maps (st : VmmState) (map : PageMap) : Prop where
  separate : Separate (child st.mem) 1 3
  known : ∀ path table, path.length ≤ 3 → reach st.mem path = some table → table = 1 ∨ 4096 * table ∈ st.frames
  mapped : ∀ virt phys, map virt = some phys → PageAddress virt ∧
    ∃ pt, reach st.mem (tablePath virt) = some pt ∧ alignPage (tableEntry st.mem (4096 * pt) (ptIndex virt)) = phys

theorem Maps.translation (maps : Maps st map) (mapped : map virt = some phys) (small : offset < 4096) :
    virtToPhys st.mem (virt + offset) = phys + offset := by
  obtain ⟨page, pt, reached, target⟩ := maps.mapped virt phys mapped
  obtain ⟨same4, same3, same2, same1⟩ := index_add page.2 small
  have reached' : reach st.mem (tablePath (virt + offset)) = some pt := by
    simp only [tablePath, same4, same3, same2]
    exact reached
  have aligned := page.2
  rw [virtToPhys_reach reached', same1, target]
  omega

/-- A page of zeros. -/
def ZeroPage (mem : Bytes) (address : Nat) : Prop := ∀ i, i < 4096 → mem (address + i) = 0

instance (mem : Bytes) (address : Nat) : Decidable (ZeroPage mem address) :=
  decidable_of_iff (∀ i, i < 64 → ∀ j, j < 64 → mem (address + (64 * i + j)) = 0) ⟨fun zero i inside => by
    have byte := zero (i / 64) (by omega) (i % 64) (by omega)
    rw [Nat.div_add_mod] at byte
    exact byte, fun zero i row j column => zero (64 * i + j) (by omega)⟩

theorem word_zero {bytes : Bytes} (zero : ∀ i, offset ≤ i → i < offset + width → bytes i = 0) :
    word bytes offset width = 0 := by
  induction width generalizing offset with
  | zero => rfl
  | succ width ih =>
    rw [word, zero offset (Nat.le_refl _) (by omega), ih fun i low high => zero i (by omega) (by omega)]
    rfl

theorem child_zero (zero : ZeroPage mem (4096 * table)) (index : Fin 512) :
    child mem table index = none := by
  have inside := index.isLt
  have empty : tableEntry mem (4096 * table) index = 0 := by
    refine word_zero fun i low high => ?_
    have byte := zero (i - 4096 * table) (by omega)
    rw [show 4096 * table + (i - 4096 * table) = i by omega] at byte
    exact byte
  rw [child, empty]
  rfl

/-- With nothing in `pml4` no path leads anywhere. -/
theorem reach_blank (zero : ZeroPage mem pml4) (path : List (Fin 512)) (table : Nat) (reached : reach mem path = some table) :
    path = [] := by
  cases path with
  | nil => rfl
  | cons index rest =>
    rw [reach, follow, child_zero zero] at reached
    exact absurd reached.symm (Option.some_ne_none table)

theorem Maps.blank (zero : ZeroPage st.mem pml4) : Maps st fun _ => none := by
  have root := reach_blank zero
  refine ⟨fun path other table _ _ first second => ?_, fun path table _ reached => ?_,
    fun _ phys mapped => absurd mapped.symm (Option.some_ne_none phys)⟩
  · rw [root path table first, root other table second]
  · rw [root path table reached] at reached
    exact .inl (Option.some.inj reached).symm

/-- The next frame of `pmm_alloc` is a frame that is new to the tables and holds zeros. -/
def FreshFrame (st : VmmState) : Prop :=
  let frame := (pmmAlloc st.pmm).1
  frame ≠ outOfMemory ∧ frame ≠ pml4 ∧ frame ∉ st.frames ∧ ZeroPage st.mem frame

instance (st : VmmState) : Decidable (FreshFrame st) := inferInstanceAs (Decidable (_ ∧ _ ∧ _ ∧ ZeroPage _ _))

/-- What a link needs if it has to allocate. -/
def LinkFits (table i : Nat) (st : VmmState) : Prop :=
  tableEntry st.mem table i &&& pagePresent = 0 → FreshFrame st

instance (table i : Nat) (st : VmmState) : Decidable (LinkFits table i st) :=
  inferInstanceAs (Decidable (_ → FreshFrame st))

/-- What `map_page` needs at each of its three links. -/
def MapFits (virt : Nat) (st : VmmState) : Prop :=
  let st1 := linkTable pml4 (pml4Index virt) st
  let pdpt := nextTable st1.mem pml4 (pml4Index virt)
  let st2 := linkTable pdpt (pdptIndex virt) st1
  let pd := nextTable st2.mem pdpt (pdptIndex virt)
  LinkFits pml4 (pml4Index virt) st ∧ LinkFits pdpt (pdptIndex virt) st1 ∧ LinkFits pd (pdIndex virt) st2

instance (virt : Nat) (st : VmmState) : Decidable (MapFits virt st) :=
  inferInstanceAs (Decidable (LinkFits _ _ _ ∧ LinkFits _ _ _ ∧ LinkFits _ _ _))

theorem pmmAlloc_page (found : (pmmAlloc pmm).1 ≠ outOfMemory) :
    ∃ page, (pmmAlloc pmm).1 = 4096 * page ∧ 4096 * page < 18446744073709551616 := by
  rcases pmmAlloc_spec pmm with ⟨_, none⟩ | ⟨page, _, _, _, result, _⟩
  · rw [none] at found
    exact absurd rfl found
  · refine ⟨u64 (page * pageSize) / 4096, ?_, ?_⟩
    · rw [result, u64, pageSize]
      omega
    · have small := u64_lt (page * pageSize)
      omega

theorem flags_or (page : Nat) (small : flags < 4096) : 4096 * page ||| flags = 4096 * page + flags :=
  (Nat.two_pow_add_eq_or_of_lt (show flags < 2 ^ 12 from small) page).symm

theorem link_value (page : Nat) : 4096 * page ||| pagePresent ||| pageWrite = 4096 * page + 3 := by
  rw [Nat.or_assoc]
  exact flags_or page (by decide)

/-- A frame that is not in the tree yet is linked into it. -/
theorem linkTable_linked {st : VmmState} {path : List (Fin 512)} (reached : reach st.mem path = some table)
    (short : path.length < 3) (index : Fin 512) (missing : child st.mem table index = none)
    (frame : (pmmAlloc st.pmm).1 = 4096 * page) (small : 4096 * page < 18446744073709551616)
    (new : ∀ path, path.length ≤ 3 → reach st.mem path ≠ some page)
    (empty : path.length + 1 < 3 → ∀ i, child st.mem page i = none) :
    linkTable (4096 * table) index st = setEntry (4096 * table) index (4096 * page + 3)
        { st with pmm := (pmmAlloc st.pmm).2, frames := 4096 * page :: st.frames } ∧
      Linked (child st.mem) (child (linkTable (4096 * table) index st).mem) 1 3 path table index page := by
  have inside := index.isLt
  have absent : tableEntry st.mem (4096 * table) index &&& pagePresent = 0 := by
    unfold child at missing
    split at missing
    · assumption
    · cases missing
  have shape : linkTable (4096 * table) index st = setEntry (4096 * table) index (4096 * page + 3)
      { st with pmm := (pmmAlloc st.pmm).2, frames := 4096 * page :: st.frames } := by
    rw [linkTable, if_pos absent]
    simp only [frame, link_value]
  refine ⟨shape, reached, short, missing, ?_, fun other i apart => ?_, new, empty⟩
  · rw [shape, child, setEntry_same _ _ (by omega), present_eq, if_neg (by omega)]
    exact congrArg some (by omega)
  · have place := i.isLt
    have slots : 4096 * other + 8 * i.val + 8 ≤ 4096 * table + 8 * index.val ∨
        4096 * table + 8 * index.val + 8 ≤ 4096 * other + 8 * i.val := by
      by_cases same : other = table
      · have different : i.val ≠ index.val := fun equal => apart same (Fin.ext equal)
        omega
      · omega
    simp only [child, shape, setEntry_other _ _ slots]

namespace Maps

theorem linked (maps : Maps st map) (reached : reach st.mem path = some table) (short : path.length < 3)
    (index : Fin 512) (missing : tableEntry st.mem (4096 * table) index &&& pagePresent = 0) (fresh : FreshFrame st) :
    ∃ page, (linkTable (4096 * table) index st).frames = 4096 * page :: st.frames ∧
      Linked (child st.mem) (child (linkTable (4096 * table) index st).mem) 1 3 path table index page := by
  obtain ⟨found, notRoot, new, zero⟩ := fresh
  obtain ⟨page, frame, small⟩ := pmmAlloc_page found
  rw [frame] at notRoot new zero
  have unknown : ∀ path, path.length ≤ 3 → reach st.mem path ≠ some page := by
    intro path depth old
    rcases maps.known path page depth old with rfl | known
    · exact notRoot rfl
    · exact new known
  obtain ⟨shape, linked⟩ := linkTable_linked reached short index (if_pos missing) frame small unknown
    fun _ i => child_zero zero i
  exact ⟨page, by rw [shape]; rfl, linked⟩

/-- Linking a table keeps the map, and the entry leads to a table afterwards. -/
theorem link (maps : Maps st map) (reached : reach st.mem path = some table) (short : path.length < 3)
    (place : address = 4096 * table) (inside : i < 512) (fits : LinkFits address i st) :
    Maps (linkTable address i st) map ∧
      ∃ next, reach (linkTable address i st).mem (path ++ [⟨i, inside⟩]) = some next ∧
        nextTable (linkTable address i st).mem address i = 4096 * next := by
  subst place
  by_cases missing : tableEntry st.mem (4096 * table) i &&& pagePresent = 0
  · obtain ⟨page, frames, linked⟩ := maps.linked reached short ⟨i, inside⟩ missing (fits missing)
    have alone := maps.separate.unshared (Nat.le_of_lt short)
    have behind := linked.follow_new alone
    refine ⟨⟨linked.separate maps.separate, fun other target depth found => ?_, fun virt phys mapped => ?_⟩,
      page, behind, (child_some linked.set).2⟩
    · rw [frames]
      rw [reach, linked.follow_eq alone depth] at found
      split at found
      · obtain rfl := Option.some.inj found
        exact .inr List.mem_cons_self
      · exact (maps.known other target depth found).imp_right (List.mem_cons_of_mem _)
    · obtain ⟨address, pt, old, target⟩ := maps.mapped virt phys mapped
      refine ⟨address, pt, linked.follow_of_some alone (tablePath_length virt) old, ?_⟩
      have apart : pt ≠ table := by
        rintro rfl
        have same := maps.separate (tablePath virt) path pt (tablePath_length virt) (Nat.le_of_lt short) old reached
        rw [← same] at short
        exact Nat.lt_irrefl 3 short
      have last := ptIndex_lt virt
      rw [linkTable, if_pos missing]
      simp only
      rw [setEntry_other _ _ (by omega)]
      exact target
  · have same : linkTable (4096 * table) i st = st := if_neg missing
    rw [same]
    refine ⟨maps, tableEntry st.mem (4096 * table) i / 4096, ?_, nextTable_eq ..⟩
    rw [reach] at reached
    rw [reach, follow_snoc, reached]
    exact if_neg missing

/-- An entry of a last table belongs to one page: storing it changes where that page leads. -/
theorem setLast (maps : Maps st map) (page : PageAddress virt) (reached : reach st.mem (tablePath virt) = some pt)
    (small : value < 18446744073709551616) (others : ∀ other, other ≠ virt → map' other = map other)
    (here : ∀ phys, map' virt = some phys → alignPage value = phys) :
    Maps (setEntry (4096 * pt) (ptIndex virt) value st) map' := by
  have inside := ptIndex_lt virt
  have same : ∀ path table, path.length < 3 → reach st.mem path = some table →
      child (setEntry (4096 * pt) (ptIndex virt) value st).mem table = child st.mem table := by
    intro path table short found
    have apart : table ≠ pt := by
      rintro rfl
      have path' := maps.separate path (tablePath virt) table (Nat.le_of_lt short) (tablePath_length virt) found reached
      rw [path'] at short
      exact Nat.lt_irrefl 3 short
    funext i
    have place := i.isLt
    simp only [child, setEntry_other value st (show 4096 * table + 8 * i.val + 8 ≤ 4096 * pt + 8 * ptIndex virt ∨
      4096 * pt + 8 * ptIndex virt + 8 ≤ 4096 * table + 8 * i.val by omega)]
  refine ⟨maps.separate.congr same, fun path table depth found => ?_, fun other phys mapped => ?_⟩
  · rw [reach, follow_congr same depth] at found
    exact maps.known path table depth found
  · by_cases changed : other = virt
    · subst changed
      refine ⟨page, pt, (follow_congr same (tablePath_length other)).trans reached, ?_⟩
      rw [setEntry_same _ _ small]
      exact here phys mapped
    · rw [others other changed] at mapped
      obtain ⟨page', pt', reached', target⟩ := maps.mapped other phys mapped
      refine ⟨page', pt', (follow_congr same (tablePath_length other)).trans reached', ?_⟩
      have place := ptIndex_lt other
      have slots : 4096 * pt' + 8 * ptIndex other + 8 ≤ 4096 * pt + 8 * ptIndex virt ∨
          4096 * pt + 8 * ptIndex virt + 8 ≤ 4096 * pt' + 8 * ptIndex other := by
        by_cases shared : pt' = pt
        · -- one last table, so the two pages differ in their last index
          subst shared
          have paths := maps.separate (tablePath other) (tablePath virt) pt' (tablePath_length other) (tablePath_length virt) reached'
            reached
          simp only [tablePath, List.cons.injEq, Fin.mk.injEq] at paths
          have last : ptIndex other ≠ ptIndex virt := fun equal =>
            changed (index_inj page'.1 page'.2 page.1 page.2 paths.1 paths.2.1 paths.2.2.1 equal)
          omega
        · omega
      rw [setEntry_other value st slots]
      exact target

theorem mapPage (maps : Maps st map) (page : PageAddress virt) (target : phys % 4096 = 0)
    (small : phys < 4503599627370496) (low : flags < 4096) (fits : MapFits virt st) :
    Maps (Mm.mapPage virt phys flags st) (Function.update map virt (some phys)) := by
  obtain ⟨fits4, fits3, fits2⟩ := fits
  have root : reach st.mem [] = some 1 := rfl
  obtain ⟨maps4, pdpt, reached4, next4⟩ := maps.link root (by decide) (show pml4 = 4096 * 1 from rfl)
    (show pml4Index virt < 512 by rw [pml4Index_eq]; omega) fits4
  obtain ⟨maps3, pd, reached3, next3⟩ := maps4.link reached4 (show 1 < 3 by decide) next4
    (show pdptIndex virt < 512 by rw [pdptIndex_eq]; omega) fits3
  obtain ⟨maps2, pt, reached2, next2⟩ := maps3.link reached3 (show 2 < 3 by decide) next3
    (show pdIndex virt < 512 by rw [pdIndex_eq]; omega) fits2
  obtain ⟨number, rfl⟩ : ∃ number, phys = 4096 * number := ⟨phys / 4096, by omega⟩
  rw [Mm.mapPage, next2, flags_or number low]
  refine maps2.setLast page reached2 (by omega) (fun other apart => Function.update_of_ne apart ..) fun phys mapped => ?_
  rw [Function.update_self] at mapped
  rw [alignPage_eq (by omega), ← Option.some.inj mapped]
  omega

theorem unmapPage (maps : Maps st map) (mapped : map virt = some phys) :
    Maps (Mm.unmapPage virt st) (Function.update map virt none) := by
  obtain ⟨page, pt, reached, _⟩ := maps.mapped virt phys mapped
  rw [unmapPage_reach reached]
  refine maps.setLast page reached (by decide) (fun other apart => Function.update_of_ne apart ..) fun phys mapped => ?_
  rw [Function.update_self] at mapped
  exact absurd mapped.symm (Option.some_ne_none phys)

end Maps

inductive VmmCall where
  | mapPage (virt phys flags : Nat)
  | unmapPage (virt : Nat)

/-- A call on the tables and on the map. -/
def VmmCall.Step (before : VmmState × PageMap) : VmmCall → VmmState × PageMap → Prop
  | .mapPage virt phys flags, after =>
    after = (Mm.mapPage virt phys flags before.1, Function.update before.2 virt (some phys))
  | .unmapPage virt, after => after = (Mm.unmapPage virt before.1, Function.update before.2 virt none)

/-- The calls of a run: page addresses, flags with PAGE_PRESENT and fresh frames for
`map_page`, mapped pages for `unmap_page`. -/
def VmmCall.Fits (before : VmmState × PageMap) : VmmCall → Prop
  | .mapPage virt phys flags =>
    PageAddress virt ∧ phys % 4096 = 0 ∧ phys < 4503599627370496 ∧ flags < 4096 ∧ flags &&& pagePresent ≠ 0 ∧
      MapFits virt before.1
  | .unmapPage virt => before.2 virt ≠ none

instance (before : VmmState × PageMap) : (call : VmmCall) → Decidable (VmmCall.Fits before call)
  | .mapPage .. => inferInstanceAs (Decidable (_ ∧ _ ∧ _ ∧ _ ∧ _ ∧ MapFits _ _))
  | .unmapPage _ => inferInstanceAs (Decidable (_ ≠ none))

theorem Maps.step (maps : Maps before.1 before.2) (fits : VmmCall.Fits before call)
    (step : VmmCall.Step before call after) : Maps after.1 after.2 := by
  cases call with
  | mapPage virt phys flags =>
    obtain ⟨page, target, small, low, _, frames⟩ := fits
    rw [show after = _ from step]
    exact maps.mapPage page target small low frames
  | unmapPage virt =>
    obtain ⟨phys, mapped⟩ := Option.ne_none_iff_exists'.mp fits
    rw [show after = _ from step]
    exact maps.unmapPage mapped

/-- From an empty `pml4` on, every mapped page is translated to its latest target. -/
theorem virtToPhys_mapped (blank : ZeroPage st.mem pml4)
    (run : Run VmmCall.Step VmmCall.Fits (st, fun _ => none) calls (st', map)) (mapped : map virt = some phys)
    (small : offset < 4096) : virtToPhys st'.mem (virt + offset) = phys + offset := by
  have maps : Maps st' map := run.invariant (fun state => Maps state.1 state.2)
    (fun _ _ _ maps fits step => maps.step fits step) (.blank blank)
  exact maps.translation mapped small

/-- Empty tables and 64 pages of which the first four are taken. -/
def blankVmm : VmmState where
  mem := fun _ => 0
  pmm := ⟨0, fun i => if i = 0 then 0x0F else 0, 64, 60, 60, 0⟩
  frames := []
  stores := []

/-- Two pages that share their tables; the first one is unmapped again. -/
theorem virtToPhys_mapped_neighbour :
    virtToPhys (unmapPage 0x400000 (mapPage 0x401000 0x300000 3 (mapPage 0x400000 0x200000 3 blankVmm))).mem
      (0x401000 + 5) = 0x300000 + 5 := by
  have run : Run VmmCall.Step VmmCall.Fits (blankVmm, fun _ => none)
      [.mapPage 0x400000 0x200000 3, .mapPage 0x401000 0x300000 3, .unmapPage 0x400000] _ :=
    .next (by decide +kernel) rfl (.next (by decide +kernel) rfl (.next (by decide +kernel) rfl .done))
  exact virtToPhys_mapped (by decide +kernel) run (by decide) (by decide)

end LivlyOS.Mm
