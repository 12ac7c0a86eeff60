import LivlyOS.Lib.TableTree
import LivlyOS.Mm.PageOwnership

/-! Page tables in physical memory: `map_page`, `unmap_page` and `virt_to_phys`. -/

namespace LivlyOS.Mm

open LivlyOS.Lib

def pagePresent : Nat := 0x1

def pageWrite : Nat := 0x2

/-- `pml4`, the table from stage 2. -/
def pml4 : Nat := 0x1000

/-- Physical memory and the page bitmap, with what `pmm_alloc` returned to `map_page` and where
entries were stored, both latest first. -/
structure VmmState where
  mem : Bytes
  pmm : PmmState
  frames : List Nat
  stores : List Nat

def pml4Index (virt : Nat) : Nat := (virt >>> 39) &&& 0x1FF

def pdptIndex (virt : Nat) : Nat := (virt >>> 30) &&& 0x1FF

def pdIndex (virt : Nat) : Nat := (virt >>> 21) &&& 0x1FF

def ptIndex (virt : Nat) : Nat := (virt >>> 12) &&& 0x1FF

/-- `table[i]`. -/
def tableEntry (mem : Bytes) (table i : Nat) : Nat := word mem (table + 8 * i) 8

def setEntry (table i value : Nat) (st : VmmState) : VmmState :=
  { st with
    mem := putWord st.mem (table + 8 * i) 8 value
    stores := (table + 8 * i) :: st.stores }

/-- `table[i] & ~0xFFF`, where the next table is. -/
def nextTable (mem : Bytes) (table i : Nat) : Nat := alignPage (tableEntry mem table i)

/-- Put a new table behind `table[i]` unless there is one. -/
def linkTable (table i : Nat) (st : VmmState) : VmmState :=
  if tableEntry st.mem table i &&& pagePresent = 0 then
    let (neu, pmm) := pmmAlloc st.pmm
    setEntry table i (neu ||| pagePresent ||| pageWrite) { st with pmm, frames := neu :: st.frames }
  else st

def mapPage (virt phys flags : Nat) (st : VmmState) : VmmState :=
  let i4 := pml4Index virt
  let i3 := pdptIndex virt
  let i2 := pdIndex virt
  let i1 := ptIndex virt
  let st := linkTable pml4 i4 st
  let pdpt := nextTable st.mem pml4 i4
  let st := linkTable pdpt i3 st
  let pd := nextTable st.mem pdpt i3
  let st := linkTable pd i2 st
  let pt := nextTable st.mem pd i2
  setEntry pt i1 (phys ||| flags) st

def unmapPage (virt : Nat) (st : VmmState) : VmmState :=
  let pdpt := nextTable st.mem pml4 (pml4Index virt)
  let pd := nextTable st.mem pdpt (pdptIndex virt)
  let pt := nextTable st.mem pd (pdIndex virt)
  setEntry pt (ptIndex virt) 0 st

def virtToPhys (mem : Bytes) (virt : Nat) : Nat :=
  let i4 := pml4Index virt
  let i3 := pdptIndex virt
  let i2 := pdIndex virt
  let i1 := ptIndex virt
  if tableEntry mem pml4 i4 &&& pagePresent = 0 then 0
  else
    let pdpt := nextTable mem pml4 i4
    if tableEntry mem pdpt i3 &&& pagePresent = 0 then 0
    else
      let pd := nextTable mem pdpt i3
      if tableEntry mem pd i2 &&& pagePresent = 0 then 0
      else
        let pt := nextTable mem pd i2
        alignPage (tableEntry mem pt i1) + (virt &&& 0xFFF)

theorem field_eq (virt shift : Nat) : (virt >>> shift) &&& 0x1FF = virt / 2 ^ shift % 512 := by
  rw [Nat.shiftRight_eq_div_pow]
  exact Nat.and_two_pow_sub_one_eq_mod _ 9

theorem pml4Index_eq (virt : Nat) : pml4Index virt = virt / 549755813888 % 512 := field_eq virt 39

theorem pdptIndex_eq (virt : Nat) : pdptIndex virt = virt / 1073741824 % 512 := field_eq virt 30

theorem pdIndex_eq (virt : Nat) : pdIndex virt = virt / 2097152 % 512 := field_eq virt 21

theorem ptIndex_eq (virt : Nat) : ptIndex virt = virt / 4096 % 512 := field_eq virt 12

theorem offset_eq (virt : Nat) : virt &&& 0xFFF = virt % 4096 := Nat.and_two_pow_sub_one_eq_mod virt 12

theorem present_eq (entry : Nat) : entry &&& pagePresent = entry % 2 := Nat.and_one_is_mod entry

theorem index_add (aligned : virt % 4096 = 0) (small : offset < 4096) :
    pml4Index (virt + offset) = pml4Index virt ∧ pdptIndex (virt + offset) = pdptIndex virt ∧
      pdIndex (virt + offset) = pdIndex virt ∧ ptIndex (virt + offset) = ptIndex virt := by
  simp only [pml4Index_eq, pdptIndex_eq, pdIndex_eq, ptIndex_eq]
  omega

/-- The indices of a 48-bit page address determine it. -/
theorem index_inj (small : virt < 281474976710656) (aligned : virt % 4096 = 0) (small' : virt' < 281474976710656)
    (aligned' : virt' % 4096 = 0) (same4 : pml4Index virt = pml4Index virt') (same3 : pdptIndex virt = pdptIndex virt')
    (same2 : pdIndex virt = pdIndex virt') (same1 : ptIndex virt = ptIndex virt') : virt = virt' := by
  simp only [pml4Index_eq, pdptIndex_eq, pdIndex_eq, ptIndex_eq] at same4 same3 same2 same1
  omega

theorem tableEntry_lt (mem : Bytes) (table i : Nat) : tableEntry mem table i < 18446744073709551616 :=
  word_lt mem (table + 8 * i) 8

theorem nextTable_eq (mem : Bytes) (table i : Nat) : nextTable mem table i = 4096 * (tableEntry mem table i / 4096) := by
  rw [nextTable, alignPage_eq (tableEntry_lt mem table i), Nat.mul_comm]

theorem setEntry_same (table i : Nat) (small : value < 18446744073709551616) (st : VmmState) :
    tableEntry (setEntry table i value st).mem table i = value := by
  rw [tableEntry, setEntry, word_putWord_same]
  exact Nat.mod_eq_of_lt small

theorem setEntry_other {table table' : Nat} (value : Nat) (st : VmmState)
    (apart : table' + 8 * j + 8 ≤ table + 8 * i ∨ table + 8 * i + 8 ≤ table' + 8 * j) :
    tableEntry (setEntry table i value st).mem table' j = tableEntry st.mem table' j :=
  word_putWord_other st.mem value (by omega)

end LivlyOS.Mm
