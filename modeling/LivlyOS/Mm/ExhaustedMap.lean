import LivlyOS.Mm.Unmapped

/-! `map_page` without free memory: the out-of-memory value of `pmm_alloc` has the
present bit set and is linked like a table. -/

namespace LivlyOS.Mm

open LivlyOS.Lib

/-- The states behind the three links of `map_page`. -/
def mapLinks (virt : Nat) (st : VmmState) : List VmmState :=
  let st4 := linkTable pml4 (pml4Index virt) st
  let pdpt := nextTable st4.mem pml4 (pml4Index virt)
  let st3 := linkTable pdpt (pdptIndex virt) st4
  let pd := nextTable st3.mem pdpt (pdptIndex virt)
  let st2 := linkTable pd (pdIndex virt) st3
  [st4, st3, st2]

/-- A frame that `pmm_alloc` returned as valid since an earlier state. -/
def ReturnedSince (st : VmmState) (frame : Nat) (st' : VmmState) : Prop :=
  frame ≠ outOfMemory ∧ ∃ frames, st'.frames = frames ++ st.frames ∧ frame ∈ frames

/-- No link makes an entry present with a frame that `pmm_alloc` did not return, and
every address translates as before. -/
structure FailsCleanly (virt phys flags : Nat) (st : VmmState) : Prop where
  entries : ∀ st' ∈ mapLinks virt st, ∀ slot, slot % 8 = 0 → word st.mem slot 8 &&& pagePresent = 0 →
    word st'.mem slot 8 &&& pagePresent ≠ 0 → ReturnedSince st (alignPage (word st'.mem slot 8)) st'
  translations : ∀ other, virtToPhys (mapPage virt phys flags st).mem other = virtToPhys st.mem other

/-- The entry that the out-of-memory value becomes. -/
theorem outOfMemory_link : outOfMemory ||| pagePresent ||| pageWrite = outOfMemory := by decide

theorem present_or (value : Nat) : (value ||| pagePresent ||| pageWrite) &&& pagePresent ≠ 0 := by
  intro absent
  have bit := congrArg (fun word => Nat.testBit word 0) absent
  simp [pagePresent, pageWrite] at bit

/-- What `pmm_alloc` returns is a page below `max_pages`, or out of memory. -/
theorem pmmAlloc_cases (small : pmm.maxPages < 4503599627370496) :
    SameLayout pmm (pmmAlloc pmm).2 ∧
      ((pmmAlloc pmm).1 = outOfMemory ∨ ∃ page, page < pmm.maxPages ∧ (pmmAlloc pmm).1 = page * pageSize) := by
  rcases pmmAlloc_spec pmm with ⟨_, none⟩ | ⟨page, _, free, _, address, layout, _⟩
  · rw [none]
    exact ⟨.refl pmm, .inl rfl⟩
  · rw [(page_address (Nat.le_of_lt small) free.1).1] at address
    exact ⟨layout, .inr ⟨page, free.1, address⟩⟩

/-- What one link does where the entry is missing. -/
structure TableLinked (table i : Nat) (st st' : VmmState) (frame : Nat) : Prop where
  frames : st'.frames = frame :: st.frames
  returned : frame = outOfMemory ∨ ∃ page, page < st.pmm.maxPages ∧ frame = page * pageSize
  layout : SameLayout st.pmm st'.pmm
  here : word st'.mem (table + 8 * i) 8 = frame ||| pagePresent ||| pageWrite
  elsewhere : ∀ slot, slot % 8 = 0 → slot ≠ table + 8 * i → word st'.mem slot 8 = word st.mem slot 8

theorem tableLinked_of_missing {st : VmmState} (missing : tableEntry st.mem table i &&& pagePresent = 0)
    (small : st.pmm.maxPages < 4503599627370496) (aligned : table % 8 = 0) :
    ∃ frame, TableLinked table i st (linkTable table i st) frame := by
  obtain ⟨layout, result⟩ := pmmAlloc_cases small
  have shape : linkTable table i st = setEntry table i ((pmmAlloc st.pmm).1 ||| pagePresent ||| pageWrite)
      { st with pmm := (pmmAlloc st.pmm).2, frames := (pmmAlloc st.pmm).1 :: st.frames } := if_pos missing
  have fits : (pmmAlloc st.pmm).1 < 2 ^ 64 := by
    rcases result with none | ⟨page, inside, address⟩
    · rw [none]
      decide
    · rw [address, pageSize]
      omega
  rw [shape]
  refine ⟨(pmmAlloc st.pmm).1, rfl, result, layout, ?_, fun slot place apart => ?_⟩
  · refine (word_putWord_same ..).trans (Nat.mod_eq_of_lt ?_)
    exact Nat.or_lt_two_pow (Nat.or_lt_two_pow fits (by decide)) (by decide)
  · exact word_putWord_other st.mem _ (by omega)

/-- Some links after an earlier state, with what `pmm_alloc` returned to them. -/
structure LinkedSince (base : VmmState) (frames : List Nat) (st : VmmState) : Prop where
  grown : st.frames = frames ++ base.frames
  returned : ∀ frame ∈ frames, frame = outOfMemory ∨ ∃ page, page < base.pmm.maxPages ∧ frame = page * pageSize
  layout : SameLayout base.pmm st.pmm
  absent : ∀ slot, slot % 8 = 0 → word st.mem slot 8 &&& pagePresent = 0 → word st.mem slot 8 = word base.mem slot 8
  exhausted : outOfMemory ∈ frames →
    ∃ slot, slot % 8 = 0 ∧ word base.mem slot 8 &&& pagePresent = 0 ∧ word st.mem slot 8 = outOfMemory

namespace LinkedSince

variable {base st : VmmState} {frames : List Nat}

theorem refl (base : VmmState) : LinkedSince base [] base where
  grown := rfl
  returned _ none := absurd none List.not_mem_nil
  layout := .refl base.pmm
  absent _ _ _ := rfl
  exhausted none := absurd none List.not_mem_nil

/-- A link stores a present entry where there was none, and nothing else. -/
theorem link (linked : LinkedSince base frames st) (small : base.pmm.maxPages < 4503599627370496)
    (aligned : table % 8 = 0) (i : Nat) : ∃ frames', LinkedSince base frames' (linkTable table i st) := by
  by_cases missing : tableEntry st.mem table i &&& pagePresent = 0
  · obtain ⟨same, returned, layout, absent, exhausted⟩ := linked
    obtain ⟨frame, one⟩ := tableLinked_of_missing missing (layout.maxPages ▸ small) aligned
    refine ⟨frame :: frames, by rw [one.frames, same, List.cons_append], ?_, layout.trans one.layout, ?_, ?_⟩
    · intro other member
      rcases List.mem_cons.mp member with rfl | member
      · rw [← layout.maxPages]
        exact one.returned
      · exact returned other member
    · intro slot place zero
      by_cases same : slot = table + 8 * i
      · rw [same, one.here] at zero
        exact absurd zero (present_or frame)
      · rw [one.elsewhere slot place same] at zero ⊢
        exact absent slot place zero
    · intro member
      rcases List.mem_cons.mp member with rfl | member
      · refine ⟨table + 8 * i, by omega, ?_, one.here.trans outOfMemory_link⟩
        rw [← absent (table + 8 * i) (by omega) missing]
        exact missing
      · obtain ⟨slot, place, before, bogus⟩ := exhausted member
        refine ⟨slot, place, before, ?_⟩
        rw [one.elsewhere slot place, bogus]
        rintro rfl
        rw [tableEntry, bogus] at missing
        exact absurd missing (by decide)
  · rw [linkTable, if_neg missing]
    exact ⟨frames, linked⟩

/-- Out of memory, some entry becomes present with a frame that nobody returned. -/
theorem bogus (linked : LinkedSince base frames st) (small : base.pmm.maxPages < 4503599627370496)
    (exhausted : outOfMemory ∈ frames) :
    ∃ slot, slot % 8 = 0 ∧ word base.mem slot 8 &&& pagePresent = 0 ∧ word st.mem slot 8 = outOfMemory ∧
      ¬ReturnedSince base (alignPage (word st.mem slot 8)) st := by
  obtain ⟨slot, place, before, bogus⟩ := linked.exhausted exhausted
  refine ⟨slot, place, before, bogus, ?_⟩
  rw [bogus]
  rintro ⟨valid, frames', same, member⟩
  obtain rfl : frames' = frames := List.append_cancel_right (same.symm.trans linked.grown)
  rcases linked.returned _ member with none | ⟨page, inside, address⟩
  · exact valid none
  · have top : alignPage outOfMemory = 18446744073709547520 := by decide
    rw [top, pageSize] at address
    omega

end LinkedSince

/-- The state in front of the last store of `map_page`. -/
theorem mapPage_links (virt phys flags : Nat) (st : VmmState) (small : st.pmm.maxPages < 4503599627370496) :
    ∃ st' ∈ mapLinks virt st, ∃ table frames, table % 8 = 0 ∧ LinkedSince st frames st' ∧
      mapPage virt phys flags st = setEntry table (ptIndex virt) (phys ||| flags) st' := by
  have tables : ∀ {mem : Bytes} {table i : Nat}, nextTable mem table i % 8 = 0 := by
    intro mem table i
    rw [nextTable_eq]
    omega
  obtain ⟨_, linked4⟩ := (LinkedSince.refl st).link small (by decide : pml4 % 8 = 0) (pml4Index virt)
  obtain ⟨_, linked3⟩ := linked4.link small tables (pdptIndex virt)
  obtain ⟨frames, linked2⟩ := linked3.link small tables (pdIndex virt)
  exact ⟨_, List.mem_cons_of_mem _ (List.mem_cons_of_mem _ List.mem_cons_self), _, frames, tables, linked2, rfl⟩

/-- A call of `map_page` that runs out of memory never fails cleanly: an entry that was
missing holds all ones, and still does at the end unless the last store goes to the
same place. -/
theorem mapPage_exhausted (small : st.pmm.maxPages < 4503599627370496)
    (called : (mapPage virt phys flags st).frames = returned ++ st.frames) (exhausted : outOfMemory ∈ returned) :
    ¬FailsCleanly virt phys flags st ∧
      ∃ slot, slot % 8 = 0 ∧ word st.mem slot 8 &&& pagePresent = 0 ∧
        (word (mapPage virt phys flags st).mem slot 8 = outOfMemory ∨
          (mapPage virt phys flags st).stores.head? = some slot) := by
  obtain ⟨st', member, table, frames, aligned, linked, shape⟩ := mapPage_links virt phys flags st small
  rw [shape] at called ⊢
  obtain rfl : returned = frames := List.append_cancel_right (called.symm.trans linked.grown)
  obtain ⟨slot, place, before, bogus, invalid⟩ := linked.bogus small exhausted
  constructor
  · intro clean
    refine invalid (clean.entries st' member slot place before ?_)
    rw [bogus]
    decide
  · refine ⟨slot, place, before, ?_⟩
    by_cases last : slot = table + 8 * ptIndex virt
    · exact .inr (congrArg some last.symm)
    · refine .inl (Eq.trans ?_ bogus)
      exact word_putWord_other st'.mem _ (by omega)

/-- Empty tables and 64 pages that are all taken. -/
def exhaustedVmm : VmmState := { blankVmm with pmm := ⟨0, fun _ => 0xFF, 64, 60, 0, 0⟩ }

theorem exhaustedVmm_frames : (mapPage 0x400000 0x200000 3 exhaustedVmm).frames =
    [outOfMemory, outOfMemory, outOfMemory] ++ exhaustedVmm.frames := by
  decide +kernel

theorem mapPage_exhausted_blank : ¬FailsCleanly 0x400000 0x200000 3 exhaustedVmm ∧
    ∃ slot, slot % 8 = 0 ∧ word exhaustedVmm.mem slot 8 &&& pagePresent = 0 ∧
      (word (mapPage 0x400000 0x200000 3 exhaustedVmm).mem slot 8 = outOfMemory ∨
        (mapPage 0x400000 0x200000 3 exhaustedVmm).stores.head? = some slot) :=
  mapPage_exhausted (by decide) exhaustedVmm_frames (by decide)

/-- All three levels are linked to the bogus table, and a page that nobody mapped
translates to the frame of the one that was. -/
theorem mapPage_bogus :
    (mapPage 0x400000 0x200000 3 exhaustedVmm).frames = [outOfMemory, outOfMemory, outOfMemory] ∧
      tableEntry (mapPage 0x400000 0x200000 3 exhaustedVmm).mem pml4 0 = outOfMemory ∧
      virtToPhys exhaustedVmm.mem 0x80400000 = 0 ∧
      virtToPhys (mapPage 0x400000 0x200000 3 exhaustedVmm).mem 0x80400000 = 0x200000 ∧
      ¬∀ virt phys flags st returned, NoLargePages st.mem → st.pmm.maxPages < 4503599627370496 →
        (mapPage virt phys flags st).frames = returned ++ st.frames → outOfMemory ∈ returned →
        FailsCleanly virt phys flags st := by
  have before : virtToPhys exhaustedVmm.mem 0x80400000 = 0 := by decide +kernel
  have after : virtToPhys (mapPage 0x400000 0x200000 3 exhaustedVmm).mem 0x80400000 = 0x200000 := by decide +kernel
  refine ⟨exhaustedVmm_frames, by decide +kernel, before, after, fun cleanly => ?_⟩
  have blank : NoLargePages exhaustedVmm.mem := noLargePages_of_small fun _ => Nat.succ_pos 127
  have clean := cleanly 0x400000 0x200000 3 exhaustedVmm _ blank (by decide) exhaustedVmm_frames (by decide)
  have same := clean.translations 0x80400000
  rw [before, after] at same
  exact absurd same (by decide)

end LivlyOS.Mm
