import LivlyOS.Fs.Slots
import Mathlib.Data.List.GetD
import Mathlib.Data.List.TakeWhile

namespace LivlyOS.Fs

open LivlyOS.Lib

/-- Printable characters without the space. -/
def CString.Visible (name : CString) : Prop := ∀ byte ∈ name, 0x20 < byte ∧ byte < 0x7F

instance (name : CString) : Decidable name.Visible := inferInstanceAs (Decidable (∀ _ ∈ _, _))

/-- A name field in front of its first space. -/
def shownField (width : Nat) (field : Nat → UInt8) : List UInt8 :=
  ((List.range width).map field).takeWhile (· ≠ 0x20)

/-- The name of an entry as `fat_list_dir` prints it. -/
def Sector.shownName (sector : Sector) (slot : Nat) : List UInt8 := shownField 8 (sector.nameByte slot)

theorem CString.Visible.ne {name : CString} (visible : name.Visible) (member : byte ∈ name) :
    byte ≠ 0 ∧ byte ≠ 0x20 := by
  obtain ⟨low, _⟩ := visible byte member
  constructor
  · rintro rfl
    exact absurd low (by decide)
  · rintro rfl
    exact absurd low (by decide)

theorem CString.at_inside {name : CString} (inside : index < name.length) : name.at index = name[index] :=
  List.getD_eq_getElem _ _ inside

theorem CString.at_beyond {name : CString} (beyond : name.length ≤ index) : name.at index = 0 :=
  List.getD_eq_default _ _ beyond

theorem CString.text_cons (byte : UInt8) (rest : CString) :
    CString.text (byte :: rest) = if byte = 0 then [] else byte :: rest.text := by
  by_cases zero : byte = 0
  · simp [CString.text, zero]
  · simp [CString.text, zero]

theorem CString.text_at {name : CString} (inside : index < name.text.length) :
    name.at index = name.text.getD index 0 ∧ name.at index ≠ 0 := by
  induction name generalizing index with
  | nil => exact absurd inside (Nat.not_lt_zero _)
  | cons byte rest ih =>
    rw [CString.text_cons] at inside ⊢
    split at inside
    · exact absurd inside (Nat.not_lt_zero _)
    · rename_i character
      rw [if_neg character]
      cases index with
      | zero => exact ⟨rfl, character⟩
      | succ index => exact ih (Nat.lt_of_succ_lt_succ inside)

theorem CString.text_end (name : CString) : name.at name.text.length = 0 := by
  induction name with
  | nil => rfl
  | cons byte rest ih =>
    rw [CString.text_cons]
    split
    · rename_i zero
      exact zero
    · exact ih

theorem CString.text_plain (name : CString) : (0 : UInt8) ∉ name.text := by
  intro member
  simpa using List.mem_takeWhile_imp member

theorem CString.text_drop (name : CString) (index : Nat) : CString.text (name.drop index) =
    if name.at index = 0 then [] else name.at index :: CString.text (name.drop (index + 1)) := by
  rcases Nat.lt_or_ge index name.length with inside | beyond
  · rw [List.drop_eq_getElem_cons inside, CString.text_cons, CString.at_inside inside]
  · rw [CString.at_beyond beyond, if_pos rfl, List.drop_eq_nil_of_le beyond]
    rfl

theorem CString.Visible.text {name : CString} (visible : name.Visible) : name.text = name := by
  rw [CString.text, List.takeWhile_eq_self_iff]
  intro byte member
  simpa using (visible.ne member).1

theorem CString.Visible.spaceFree {name : CString} (visible : name.Visible) : 0x20 ∉ name.text := by
  intro member
  rw [visible.text] at member
  exact (visible.ne member).2 rfl

/-- The comparison from one character on, for a name without a space and a field without a NUL. -/
theorem strEqualFatFrom_iff {fatName : Bytes} {name : CString} (spaceFree : 0x20 ∉ CString.text (name.drop index))
    (clear : ∀ position, index ≤ position → position < index + remaining → fatName position ≠ 0) :
    strEqualFatFrom fatName name remaining index = true ↔
      ((List.range' index remaining).map fatName).takeWhile (· ≠ 0x20) = CString.text (name.drop index) := by
  induction remaining generalizing index with
  | zero =>
    rw [strEqualFatFrom, List.range'_zero, List.map_nil, List.takeWhile_nil, decide_eq_true_eq, CString.text_drop]
    split
    · exact iff_of_true ‹_› rfl
    · exact iff_of_false ‹_› (List.cons_ne_nil _ _).symm
  | succ remaining ih =>
    have here := clear index (Nat.le_refl _) (by omega)
    rw [strEqualFatFrom, List.range'_succ, List.map_cons, List.takeWhile_cons]
    rw [CString.text_drop] at spaceFree ⊢
    by_cases ended : name.at index = 0
    · -- the end of the name: only a space may follow
      rw [if_pos ended, ended]
      by_cases space : fatName index = 0x20
      · simp [space]
      · simp [space, here]
    · -- a character of the name: it is compared and the rest decides
      rw [if_neg ended] at spaceFree ⊢
      obtain ⟨character, rest⟩ := not_or.mp (List.mem_cons.not.mp spaceFree)
      rw [if_neg (fun both : _ ∧ _ => ended both.2)]
      by_cases same : fatName index = name.at index
      · rw [if_neg (not_not_intro same), ih rest (fun position low high => clear position (by omega) (by omega)), same,
          if_pos (decide_eq_true (Ne.symm character)), List.cons_inj_right]
      · rw [if_pos same]
        split
        · exact iff_of_false Bool.false_ne_true (fun equal => same (List.cons.inj equal).1)
        · exact iff_of_false Bool.false_ne_true (List.cons_ne_nil _ _).symm

/-- A field without a NUL matches exactly the name it shows. -/
theorem strEqualFat_iff {fatName : Bytes} {name : CString} (spaceFree : 0x20 ∉ name.text)
    (clear : ∀ index < 8, fatName index ≠ 0) :
    strEqualFat fatName name = true ↔ shownField 8 fatName = name.text := by
  have compared := @strEqualFatFrom_iff 0 8 fatName name spaceFree
    (fun position _ below => clear position (by omega))
  rwa [← List.range_eq_range', List.drop_zero] at compared

theorem Sector.slotMatches_iff {sector : Sector} {name : CString} (visible : name.Visible)
    (clear : ∀ index < 8, sector.nameByte slot index ≠ 0) :
    sector.slotMatches name slot = true ↔ sector.shownName slot = name := by
  rw [slotMatches, strEqualFat_iff visible.spaceFree clear, visible.text, shownName]

/-- The stored field: the first characters of the name, then spaces. -/
theorem padField_text (width : Nat) (name : CString) :
    padField width name = name.text.take width ++ List.replicate (width - (name.text.take width).length) 0x20 := by
  have kept : (name.take width).takeWhile (· ≠ 0) = name.text.take width := by
    rw [CString.text, List.take_takeWhile]
  simp only [padField, kept]

theorem shownField_padField {name : CString} (spaceFree : 0x20 ∉ name.text) (width : Nat) :
    shownField width (fun index => (padField width name).getD index 0) = name.text.take width := by
  have field : (List.range width).map (fun index => (padField width name).getD index 0) =
      padField width name := by
    apply List.ext_getElem
    · simp [padField_length]
    · intro index _ inside
      simp [List.getElem?_eq_getElem inside]
  rw [shownField, field, padField_text, List.takeWhile_append_of_pos]
  · cases width - (name.text.take width).length <;> simp [List.replicate_succ]
  · intro byte member
    simpa using fun space : byte = 0x20 => spaceFree (space ▸ List.mem_of_mem_take member)

theorem padField_clear (name : CString) (below : index < width) : (padField width name).getD index 0 ≠ 0 := by
  rw [List.getD_eq_getElem _ _ (by rw [padField_length]; exact below)]
  intro zero
  have member := List.getElem_mem (l := padField width name) (by rw [padField_length]; exact below)
  rw [zero, padField_text, List.mem_append] at member
  rcases member with kept | padding
  · exact name.text_plain (List.mem_of_mem_take kept)
  · rw [List.mem_replicate] at padding
    exact absurd padding.2 (by decide)

theorem createdSlot_nameByte (name ext : CString) (attributes : UInt8) (buf : Sector) (cluster : Nat)
    (inside : slot < 16) (below : index < 8) :
    (createdSlot name ext attributes buf slot cluster).nameByte slot index =
      (padField 8 name).getD index 0 := by
  rw [← Sector.setName_nameByte buf inside name below, Sector.nameByte, Sector.nameByte, createdSlot,
    newSlot, Sector.setCluster_other _ (by omega), Sector.setSize_other _ (by omega),
    Sector.putByte_other _ _ (by omega), Sector.setExt_other _ _ (by omega)]

/-- A new entry shows the first eight characters of its name. -/
theorem createdSlot_matches {stored name : CString} (storedVisible : stored.Visible)
    (visible : name.Visible) (ext : CString) (attributes : UInt8) (buf : Sector) (cluster : Nat)
    (inside : slot < 16) :
    (createdSlot stored ext attributes buf slot cluster).slotMatches name slot = true ↔
      stored.take 8 = name := by
  have bytes : ∀ index < 8, (createdSlot stored ext attributes buf slot cluster).nameByte slot index =
      (padField 8 stored).getD index 0 :=
    fun index below => createdSlot_nameByte stored ext attributes buf cluster inside below
  rw [Sector.slotMatches, strEqualFat_congr bytes,
    strEqualFat_iff visible.spaceFree (fun index below => padField_clear stored below),
    shownField_padField storedVisible.spaceFree, storedVisible.text, visible.text]

end LivlyOS.Fs
