import Mathlib.Algebra.Group.Nat.Defs
import Mathlib.Data.Nat.Basic
import Mathlib.Logic.Function.Basic

/-! Unsigned machine arithmetic on natural numbers and little-endian words in
byte memories. A memory is any function from addresses to bytes. -/

namespace LivlyOS.Lib

/-- Truncation to a 32-bit register. -/
def u32 (value : Nat) : Nat := value % 4294967296

/-- Truncation to a 64-bit register. -/
def u64 (value : Nat) : Nat := value % 18446744073709551616

/-- 32-bit subtraction, wrapping below zero. -/
def sub32 (left right : Nat) : Nat := u32 ((4294967296 - u32 right) + left)

/-- 64-bit subtraction, wrapping below zero. -/
def sub64 (left right : Nat) : Nat := u64 ((18446744073709551616 - u64 right) + left)

theorem u32_lt (value : Nat) : u32 value < 4294967296 := Nat.mod_lt _ (by decide)

theorem u32_of_lt (small : value < 4294967296) : u32 value = value := Nat.mod_eq_of_lt small

theorem u64_lt (value : Nat) : u64 value < 18446744073709551616 := Nat.mod_lt _ (by decide)

theorem u64_of_lt (small : value < 18446744073709551616) : u64 value = value :=
  Nat.mod_eq_of_lt small

theorem sub32_of_le (ordered : right ≤ left) (small : left < 4294967296) :
    sub32 left right = left - right := by
  unfold sub32 u32
  omega

theorem sub64_of_le (ordered : right ≤ left) (small : left < 18446744073709551616) :
    sub64 left right = left - right := by
  unfold sub64 u64
  omega

abbrev Bytes := Nat → UInt8

/-- The little-endian value of `width` bytes starting at `offset`. -/
def word (bytes : Bytes) (offset : Nat) : (width : Nat) → Nat
  | 0 => 0
  | width + 1 => (bytes offset).toNat + 256 * word bytes (offset + 1) width

/-- Store the low `width` bytes of `value`, least significant byte first. -/
def putWord (bytes : Bytes) (offset width value : Nat) : Bytes := fun position =>
  if offset ≤ position ∧ position < offset + width then
    UInt8.ofNat (value / 256 ^ (position - offset))
  else bytes position

/-- Store a run of bytes. -/
def putBytes (bytes : Bytes) (offset : Nat) (run : List UInt8) : Bytes := fun position =>
  if offset ≤ position ∧ position < offset + run.length then run.getD (position - offset) 0
  else bytes position

theorem word_lt (bytes : Bytes) (offset width : Nat) : word bytes offset width < 256 ^ width := by
  induction width generalizing offset with
  | zero => simp [word]
  | succ width ih =>
    have low : (bytes offset).toNat < 256 := UInt8.toNat_lt _
    have high := ih (offset + 1)
    rw [word, Nat.pow_succ]
    omega

theorem word_append (bytes : Bytes) (offset low high : Nat) :
    word bytes offset (low + high) = word bytes offset low + 256 ^ low * word bytes (offset + low) high := by
  induction low generalizing offset with
  | zero => simp [word]
  | succ low ih =>
    rw [Nat.add_right_comm, word, word, ih, Nat.pow_succ', Nat.mul_add, Nat.mul_assoc, Nat.add_assoc,
      Nat.add_assoc, Nat.add_comm 1 low]

theorem word_congr {left right : Bytes} {offset width : Nat}
    (same : ∀ position, offset ≤ position → position < offset + width →
      left position = right position) :
    word left offset width = word right offset width := by
  induction width generalizing offset with
  | zero => rfl
  | succ width ih =>
    have tail : word left (offset + 1) width = word right (offset + 1) width :=
      ih (fun position above below => same position (by omega) (by omega))
    rw [word, word, tail, same offset (Nat.le_refl _) (by omega)]

theorem putWord_outside (bytes : Bytes) {offset width position : Nat} (value : Nat)
    (outside : position < offset ∨ offset + width ≤ position) :
    putWord bytes offset width value position = bytes position := by
  rw [putWord, if_neg (by omega)]

theorem putWord_pointwise {mem mem' : Bytes} (same : mem position = mem' position) (offset width value : Nat) :
    putWord mem offset width value position = putWord mem' offset width value position := by
  rw [putWord, putWord, same]

theorem putBytes_outside (bytes : Bytes) {offset position : Nat} (run : List UInt8)
    (outside : position < offset ∨ offset + run.length ≤ position) :
    putBytes bytes offset run position = bytes position := by
  rw [putBytes, if_neg (by omega)]

theorem putBytes_inside (bytes : Bytes) {offset index : Nat} (run : List UInt8)
    (inside : index < run.length) :
    putBytes bytes offset run (offset + index) = run.getD index 0 := by
  rw [putBytes, if_pos (by omega), Nat.add_sub_cancel_left]

theorem putBytes_nil (bytes : Bytes) (offset : Nat) : putBytes bytes offset [] = bytes :=
  funext fun position => putBytes_outside bytes [] (Nat.lt_or_ge position offset)

theorem putBytes_cons (bytes : Bytes) (offset : Nat) (value : UInt8) (rest : List UInt8) :
    putBytes (Function.update bytes offset value) (offset + 1) rest = putBytes bytes offset (value :: rest) := by
  funext position
  rcases Nat.lt_trichotomy position offset with below | rfl | above
  · rw [putBytes_outside _ _ (.inl (by omega)), putBytes_outside _ _ (.inl below), Function.update_of_ne (by omega)]
  · rw [putBytes_outside _ _ (.inl (by omega)), Function.update_self, putBytes,
      if_pos ⟨Nat.le_refl _, by rw [List.length_cons]; omega⟩, Nat.sub_self, List.getD_cons_zero]
  · obtain ⟨index, rfl⟩ := Nat.exists_eq_add_of_le (Nat.succ_le_of_lt above)
    rcases Nat.lt_or_ge index rest.length with inside | beyond
    · rw [Nat.succ_eq_add_one, putBytes_inside _ _ inside, Nat.add_assoc, Nat.add_comm 1 index,
        putBytes_inside _ _ (by rw [List.length_cons]; omega), List.getD_cons_succ]
    · rw [putBytes_outside _ _ (.inr (by omega)), putBytes_outside _ _ (.inr (by rw [List.length_cons]; omega)),
        Function.update_of_ne (by omega)]

theorem putBytes_over (bytes : Bytes) (offset : Nat) {front run : List UInt8} (short : front.length ≤ run.length) :
    putBytes (putBytes bytes offset run) offset front = putBytes bytes offset (front ++ run.drop front.length) := by
  have length : (front ++ run.drop front.length).length = run.length := by
    rw [List.length_append, List.length_drop]
    omega
  funext position
  by_cases inside : offset ≤ position ∧ position < offset + run.length
  · obtain ⟨index, rfl⟩ := Nat.exists_eq_add_of_le inside.1
    rw [putBytes_inside bytes _ (by omega)]
    rcases Nat.lt_or_ge index front.length with first | later
    · rw [putBytes_inside _ _ first, List.getD_eq_getElem?_getD, List.getD_eq_getElem?_getD, List.getElem?_append_left first]
    · rw [putBytes_outside _ _ (.inr (by omega)), putBytes_inside _ _ (by omega), List.getD_eq_getElem?_getD,
        List.getD_eq_getElem?_getD, List.getElem?_append_right later, List.getElem?_drop, Nat.add_sub_cancel' later]
  · rw [putBytes_outside _ _ (by omega), putBytes_outside _ _ (by omega), putBytes_outside _ _ (by omega)]

/-- Reading a word back gives the stored value, cut to the word's width. -/
theorem word_putWord_same (bytes : Bytes) (offset width value : Nat) :
    word (putWord bytes offset width value) offset width = value % 256 ^ width := by
  induction width generalizing offset value bytes with
  | zero => simp [word, Nat.mod_one]
  | succ width ih =>
    have head : (putWord bytes offset (width + 1) value offset).toNat = value % 256 := by
      rw [putWord, if_pos (by omega)]
      simp
    have tail : word (putWord bytes offset (width + 1) value) (offset + 1) width =
        word (putWord bytes (offset + 1) width (value / 256)) (offset + 1) width := by
      apply word_congr
      intro position above below
      rw [putWord, putWord, if_pos (by omega), if_pos (by omega)]
      have shift : position - offset = (position - (offset + 1)) + 1 := by omega
      rw [shift, Nat.pow_succ', Nat.div_div_eq_div_mul]
    rw [word, head, tail, ih, Nat.pow_succ', Nat.mod_mul]

theorem word_putWord_other (bytes : Bytes) {offset width position size : Nat} (value : Nat)
    (apart : position + size ≤ offset ∨ offset + width ≤ position) :
    word (putWord bytes offset width value) position size = word bytes position size :=
  word_congr (fun _ above below => putWord_outside bytes value (by omega))

theorem word_byte (bytes : Bytes) (offset : Nat) (inside : index < width) :
    word bytes offset width / 256 ^ index % 256 = (bytes (offset + index)).toNat := by
  obtain ⟨rest, rfl⟩ := Nat.exists_eq_add_of_le (Nat.succ_le_of_lt inside)
  have low := word_lt bytes offset index
  have byte := UInt8.toNat_lt (bytes (offset + index))
  rw [Nat.succ_add, ← Nat.add_succ, word_append, Nat.add_mul_div_left _ _ (Nat.pow_pos (by decide)), Nat.div_eq_of_lt low,
    Nat.zero_add, word]
  omega

/-- Storing a word that was read elsewhere copies its bytes. -/
theorem putWord_word (bytes source : Bytes) (offset width position : Nat) (inside : offset ≤ position ∧ position < offset + width) :
    putWord bytes offset width (word source start width) position = source (start + (position - offset)) := by
  rw [putWord, if_pos inside]
  apply UInt8.toNat_inj.mp
  rw [UInt8.toNat_ofNat']
  exact word_byte source start (by omega)

theorem word_eq_zero_iff {bytes : Bytes} {offset width : Nat} :
    word bytes offset width = 0 ↔ ∀ position, offset ≤ position → position < offset + width → bytes position = 0 := by
  induction width generalizing offset with
  | zero =>
    simp only [word, Nat.add_zero, true_iff]
    intro position above below
    omega
  | succ width ih =>
    have head : (bytes offset).toNat = 0 ↔ bytes offset = 0 := UInt8.toNat_inj (b := 0)
    rw [word, Nat.add_eq_zero_iff, head, Nat.mul_eq_zero, or_iff_right (by decide), ih]
    constructor
    · rintro ⟨first, rest⟩ position above below
      by_cases here : position = offset
      · exact here ▸ first
      · exact rest position (by omega) (by omega)
    · intro zero
      exact ⟨zero offset (Nat.le_refl _) (by omega), fun position above below => zero position (by omega) (by omega)⟩

/-- Storing zero changes nothing where there is zero. -/
theorem putWord_zero_eq_iff (bytes : Bytes) (offset width : Nat) :
    putWord bytes offset width 0 = bytes ↔ word bytes offset width = 0 := by
  constructor
  · intro same
    rw [← same, word_putWord_same, Nat.zero_mod]
  · intro zero
    funext position
    unfold putWord
    split
    · rename_i inside
      rw [word_eq_zero_iff.mp zero position inside.1 inside.2, Nat.zero_div]
      rfl
    · rfl

end LivlyOS.Lib
