import LivlyOS.Fs.Operations
import LivlyOS.Fs.Lookup

namespace LivlyOS.Fs

open LivlyOS.Lib

theorem padField_length (width : Nat) (text : CString) : (padField width text).length = width := by
  have kept : ((text.take width).takeWhile (· ≠ 0)).length ≤ width :=
    Nat.le_trans (List.takeWhile_sublist _).length_le (List.length_take_le _ _)
  rw [padField, List.length_append, List.length_replicate]
  omega

/-- A name that is not empty keeps its first character. -/
theorem padField_head (width : Nat) (positive : 0 < width) (first : UInt8) (rest : CString)
    (visible : first ≠ 0) : (padField width (first :: rest)).getD 0 0 = first := by
  obtain ⟨more, rfl⟩ : ∃ more, width = more + 1 := ⟨width - 1, by omega⟩
  simp [padField, visible]

namespace Sector

theorem bytes_beyond (sector : Sector) {position : Nat} (beyond : 512 ≤ position) :
    sector.bytes position = 0 := by
  rw [bytes, dif_neg (by omega)]

theorem putBytes_other (sector : Sector) {offset position : Nat} (run : List UInt8)
    (outside : position < offset ∨ offset + run.length ≤ position) :
    (ofBytes (putBytes sector.bytes offset run)).bytes position = sector.bytes position := by
  by_cases inside : position < 512
  · rw [bytes_ofBytes inside, putBytes_outside _ _ outside]
  · rw [bytes_beyond _ (by omega), bytes_beyond _ (by omega)]

theorem putWord_other (sector : Sector) {offset width value position : Nat}
    (outside : position < offset ∨ offset + width ≤ position) :
    (ofBytes (putWord sector.bytes offset width value)).bytes position = sector.bytes position := by
  by_cases inside : position < 512
  · rw [bytes_ofBytes inside, putWord_outside _ _ outside]
  · rw [bytes_beyond _ (by omega), bytes_beyond _ (by omega)]

theorem putByte_other (sector : Sector) {slot index position : Nat} (value : UInt8)
    (other : position ≠ 32 * slot + index) :
    (sector.putByte slot index value).bytes position = sector.bytes position :=
  putBytes_other sector [value] (by simp only [List.length_singleton]; omega)

theorem setName_other (sector : Sector) {slot position : Nat} (name : CString)
    (outside : position < 32 * slot ∨ 32 * slot + 8 ≤ position) :
    (sector.setName slot name).bytes position = sector.bytes position :=
  putBytes_other sector _ (by rw [padField_length]; exact outside)

theorem setExt_other (sector : Sector) {slot position : Nat} (ext : CString)
    (outside : position < 32 * slot + 8 ∨ 32 * slot + 11 ≤ position) :
    (sector.setExt slot ext).bytes position = sector.bytes position :=
  putBytes_other sector _ (by rw [padField_length]; omega)

theorem setSize_other (sector : Sector) {slot size position : Nat}
    (outside : position < 32 * slot + 28 ∨ 32 * slot + 32 ≤ position) :
    (sector.setSize slot size).bytes position = sector.bytes position :=
  putWord_other sector (by omega)

theorem setCluster_other (sector : Sector) {slot cluster position : Nat}
    (outside : (position < 32 * slot + 20 ∨ 32 * slot + 22 ≤ position) ∧
      (position < 32 * slot + 26 ∨ 32 * slot + 28 ≤ position)) :
    (sector.setCluster slot cluster).bytes position = sector.bytes position := by
  have first := @putWord_other sector (32 * slot + 20) 2 (cluster >>> 16) position outside.1
  by_cases inside : position < 512
  · rw [bytes_ofBytes inside] at first
    rw [setCluster, bytes_ofBytes inside, putWord_outside _ _ (by omega), first]
  · rw [bytes_beyond _ (by omega), bytes_beyond _ (by omega)]

/-- The cluster number only depends on its two fields. -/
theorem slotCluster_congr {left right : Sector} {slot : Nat}
    (same : ∀ index, 20 ≤ index → index < 28 →
      left.bytes (32 * slot + index) = right.bytes (32 * slot + index)) :
    left.slotCluster slot = right.slotCluster slot := by
  have high : word left.bytes (32 * slot + 20) 2 = word right.bytes (32 * slot + 20) 2 := by
    apply word_congr
    intro position above below
    obtain ⟨index, rfl⟩ : ∃ index, position = 32 * slot + index := ⟨position - 32 * slot, by omega⟩
    exact same index (by omega) (by omega)
  have low : word left.bytes (32 * slot + 26) 2 = word right.bytes (32 * slot + 26) 2 := by
    apply word_congr
    intro position above below
    obtain ⟨index, rfl⟩ : ∃ index, position = 32 * slot + index := ⟨position - 32 * slot, by omega⟩
    exact same index (by omega) (by omega)
  rw [slotCluster, slotCluster, high, low]

/-- Two sectors have the same 32 bytes in a slot. -/
def SameSlot (left right : Sector) (slot : Nat) : Prop :=
  ∀ index < 32, left.bytes (32 * slot + index) = right.bytes (32 * slot + index)

namespace SameSlot

theorem refl (sector : Sector) (slot : Nat) : SameSlot sector sector slot := fun _ _ => rfl

theorem trans (first : SameSlot left mid slot) (second : SameSlot mid right slot) :
    SameSlot left right slot :=
  fun index inside => (first index inside).trans (second index inside)

theorem nameByte (same : SameSlot left right slot) (inside : index < 32) :
    left.nameByte slot index = right.nameByte slot index :=
  same index inside

theorem slotFree (same : SameSlot left right slot) : left.slotFree slot = right.slotFree slot := by
  rw [Sector.slotFree, Sector.slotFree, same.nameByte (by decide)]

theorem attributes (same : SameSlot left right slot) :
    left.attributes slot = right.attributes slot :=
  same 11 (by decide)

theorem slotMatches (same : SameSlot left right slot) (name : CString) :
    left.slotMatches name slot = right.slotMatches name slot :=
  strEqualFatFrom_congr (fun index _ below => same index (by omega))

theorem slotCluster (same : SameSlot left right slot) :
    left.slotCluster slot = right.slotCluster slot :=
  slotCluster_congr (fun index _ below => same index (by omega))

end SameSlot

/-- The two halves of a cluster number give it back. -/
theorem slotCluster_setCluster (sector : Sector) {slot cluster : Nat} (inside : slot < 16)
    (small : cluster < 4294967296) : (sector.setCluster slot cluster).slotCluster slot = cluster := by
  have high : cluster >>> 16 = cluster / 65536 := Nat.shiftRight_eq_div_pow cluster 16
  have low : cluster &&& 0xFFFF = cluster % 65536 := Nat.and_two_pow_sub_one_eq_mod cluster 16
  have bound : cluster % 65536 < 2 ^ 16 := Nat.mod_lt _ (by decide)
  rw [slotCluster, setCluster, word_ofBytes (by omega), word_ofBytes (by omega),
    word_putWord_other _ _ (by omega), word_putWord_same, word_putWord_same, high, low,
    ← Nat.shiftLeft_add_eq_or_of_lt (by omega : cluster % 65536 % 256 ^ 2 < 2 ^ 16),
    Nat.shiftLeft_eq]
  omega

theorem setName_nameByte (sector : Sector) {slot index : Nat} (inside : slot < 16) (name : CString)
    (field : index < 8) : (sector.setName slot name).nameByte slot index = (padField 8 name).getD index 0 := by
  rw [nameByte, setName, bytes_ofBytes (by omega), putBytes_inside _ _ (by rw [padField_length]; exact field)]

theorem setName_first (sector : Sector) {slot : Nat} (inside : slot < 16) (first : UInt8)
    (rest : CString) (visible : first ≠ 0) :
    (sector.setName slot (first :: rest)).nameByte slot 0 = first := by
  rw [setName_nameByte sector inside _ (by decide), padField_head 8 (by decide) first rest visible]

theorem putByte_same (sector : Sector) {slot index : Nat} (inside : slot < 16) (field : index < 32)
    (value : UInt8) : (sector.putByte slot index value).bytes (32 * slot + index) = value := by
  have stored := @putBytes_inside sector.bytes (32 * slot + index) 0 [value] (Nat.succ_pos 0)
  rw [putByte, bytes_ofBytes (by omega)]
  exact stored

theorem putByte_deleted (sector : Sector) {slot : Nat} (inside : slot < 16) :
    (sector.putByte slot 0 0xE5).slotFree slot = true := by
  have first := sector.putByte_same inside (by decide : 0 < 32) 0xE5
  rw [Nat.add_zero] at first
  simp [slotFree, nameByte, first]

theorem sameSlot_of_outside {left right : Sector} {slot other : Nat} (different : other ≠ slot)
    (outside : ∀ position, position < 32 * slot ∨ 32 * slot + 32 ≤ position →
      left.bytes position = right.bytes position) : SameSlot left right other :=
  fun index inside => outside _ (by omega)

theorem putByte_sameSlot (sector : Sector) {slot other : Nat} (index : Nat) (value : UInt8)
    (field : index < 32) (different : other ≠ slot) :
    SameSlot (sector.putByte slot index value) sector other :=
  sameSlot_of_outside different (fun _ outside => putByte_other sector value (by omega))

end Sector

/-- The slot of a new file or directory. -/
def createdSlot (name ext : CString) (attributes : UInt8) (buf : Sector) (slot cluster : Nat) : Sector :=
  (newSlot name ext attributes buf slot).setCluster slot cluster

theorem createdSlot_outside (name ext : CString) (attributes : UInt8) (buf : Sector) (cluster : Nat)
    (outside : position < 32 * slot ∨ 32 * slot + 32 ≤ position) :
    (createdSlot name ext attributes buf slot cluster).bytes position = buf.bytes position := by
  rw [createdSlot, newSlot, Sector.setCluster_other _ (by omega), Sector.setSize_other _ (by omega),
    Sector.putByte_other _ _ (by omega), Sector.setExt_other _ _ (by omega),
    Sector.setName_other _ _ (by omega)]

theorem createdSlot_other (name ext : CString) (attributes : UInt8) (buf : Sector)
    {slot other : Nat} (cluster : Nat) (different : other ≠ slot) :
    Sector.SameSlot (createdSlot name ext attributes buf slot cluster) buf other :=
  Sector.sameSlot_of_outside different fun _ outside => createdSlot_outside name ext attributes buf cluster outside

theorem createdSlot_cluster (name ext : CString) (attributes : UInt8) (buf : Sector)
    {slot cluster : Nat} (inside : slot < 16) (small : cluster < 4294967296) :
    (createdSlot name ext attributes buf slot cluster).slotCluster slot = cluster :=
  Sector.slotCluster_setCluster _ inside small

theorem createdSlot_attributes (name ext : CString) (attributes : UInt8) (buf : Sector)
    {slot : Nat} (cluster : Nat) (inside : slot < 16) :
    (createdSlot name ext attributes buf slot cluster).attributes slot = attributes := by
  rw [Sector.attributes, createdSlot, newSlot, Sector.setCluster_other _ (by omega),
    Sector.setSize_other _ (by omega), Sector.putByte_same _ inside (by decide)]

theorem createdSlot_first (first : UInt8) (rest ext : CString) (attributes : UInt8) (buf : Sector)
    {slot : Nat} (cluster : Nat) (inside : slot < 16) (visible : first ≠ 0) :
    (createdSlot (first :: rest) ext attributes buf slot cluster).nameByte slot 0 = first := by
  have named := Sector.setName_first buf inside first rest visible
  rw [Sector.nameByte] at named
  rw [Sector.nameByte, createdSlot, newSlot, Sector.setCluster_other _ (by omega),
    Sector.setSize_other _ (by omega), Sector.putByte_other _ _ (by omega),
    Sector.setExt_other _ _ (by omega), named]

end LivlyOS.Fs
