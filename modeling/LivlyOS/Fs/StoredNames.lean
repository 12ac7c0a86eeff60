import LivlyOS.Fs.Names

namespace LivlyOS.Fs

open LivlyOS.Lib

/-- The loop that stores spaces in the field at `base`, with `remaining` of its bytes to go. -/
def fillSpaces (base : Nat) (bytes : Bytes) : (remaining j : Nat) → Bytes
  | 0, _ => bytes
  | remaining + 1, j => fillSpaces base (Function.update bytes (base + j) 0x20) remaining (j + 1)

/-- The loop that stores the characters of the name, up to its terminator. -/
def copyName (base : Nat) (name : CString) (bytes : Bytes) : (remaining j : Nat) → Bytes
  | 0, _ => bytes
  | remaining + 1, j =>
    if name.at j ≠ 0 then copyName base name (Function.update bytes (base + j) (name.at j)) remaining (j + 1) else bytes

/-- One loop after the other, on a field of `width` bytes. -/
def padLoops (base width : Nat) (text : CString) (bytes : Bytes) : Bytes :=
  copyName base text (fillSpaces base bytes width 0) width 0

theorem fillSpaces_eq (base : Nat) (bytes : Bytes) (remaining j : Nat) :
    fillSpaces base bytes remaining j = putBytes bytes (base + j) (List.replicate remaining 0x20) := by
  induction remaining generalizing bytes j with
  | zero => exact (putBytes_nil bytes _).symm
  | succ remaining ih => rw [fillSpaces, ih, ← Nat.add_assoc, putBytes_cons, List.replicate_succ]

theorem copyName_eq (base : Nat) (name : CString) (bytes : Bytes) (remaining j : Nat) :
    copyName base name bytes remaining j = putBytes bytes (base + j) ((CString.text (name.drop j)).take remaining) := by
  induction remaining generalizing bytes j with
  | zero => rw [copyName, List.take_zero, putBytes_nil]
  | succ remaining ih =>
    rw [copyName, CString.text_drop]
    by_cases ended : name.at j = 0
    · rw [if_neg (not_not_intro ended), if_pos ended, List.take_nil, putBytes_nil]
    · rw [if_pos ended, if_neg ended, ih, ← Nat.add_assoc, putBytes_cons, List.take_succ_cons]

theorem padLoops_eq (base width : Nat) (text : CString) (bytes : Bytes) :
    padLoops base width text bytes = putBytes bytes base (padField width text) := by
  have short : (text.text.take width).length ≤ (List.replicate width (0x20 : UInt8)).length := by
    rw [List.length_replicate]
    exact List.length_take_le _ _
  rw [padLoops, copyName_eq, fillSpaces_eq, Nat.add_zero, List.drop_zero, putBytes_over _ _ short, List.drop_replicate,
    padField_text]

theorem Sector.setName_loops (sector : Sector) (slot : Nat) (name : CString) :
    sector.setName slot name = ofBytes (padLoops (32 * slot) 8 name sector.bytes) := by
  rw [padLoops_eq, setName]

theorem Sector.setExt_loops (sector : Sector) (slot : Nat) (ext : CString) :
    sector.setExt slot ext = ofBytes (padLoops (32 * slot + 8) 3 ext sector.bytes) := by
  rw [padLoops_eq, setExt]

/-- A stored name is taken for exactly its first eight characters. -/
theorem stored_name_matches {stored name : CString} (storedFree : 0x20 ∉ stored.text) (spaceFree : 0x20 ∉ name.text)
    (base : Nat) (bytes : Bytes) :
    strEqualFat (fun j => padLoops base 8 stored bytes (base + j)) name = true ↔ name.text = stored.text.take 8 := by
  have field : ∀ index < 8, padLoops base 8 stored bytes (base + index) = (padField 8 stored).getD index 0 := by
    intro index below
    rw [padLoops_eq, putBytes_inside _ _ (by rw [padField_length]; exact below)]
  rw [strEqualFat_congr field, strEqualFat_iff spaceFree (fun index below => padField_clear stored below),
    shownField_padField storedFree]
  exact eq_comm

/-- `kernelconf` and its first eight characters. -/
theorem stored_name_truncated :
    strEqualFat (fun j => padLoops 0 8 [0x6B, 0x65, 0x72, 0x6E, 0x65, 0x6C, 0x63, 0x6F, 0x6E, 0x66] (fun _ => 0) (0 + j))
        [0x6B, 0x65, 0x72, 0x6E, 0x65, 0x6C, 0x63, 0x6F] = true ↔
      CString.text [0x6B, 0x65, 0x72, 0x6E, 0x65, 0x6C, 0x63, 0x6F] =
        (CString.text [0x6B, 0x65, 0x72, 0x6E, 0x65, 0x6C, 0x63, 0x6F, 0x6E, 0x66]).take 8 :=
  stored_name_matches (by decide) (by decide) 0 fun _ => 0

end LivlyOS.Fs
