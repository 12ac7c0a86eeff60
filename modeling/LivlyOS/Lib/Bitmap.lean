import LivlyOS.Lib.Bytes
import Mathlib.Data.Nat.Bitwise

namespace LivlyOS.Lib

def readBit (bytes : Bytes) (index : Nat) : Nat :=
  ((bytes (index / 8)).toNat >>> (index % 8)) &&& 1

/-- The byte with one bit set. -/
def bitMask (index : Nat) : UInt8 := UInt8.ofNat (1 <<< (index % 8))

def setBit (bytes : Bytes) (index : Nat) : Bytes :=
  Function.update bytes (index / 8) (bytes (index / 8) ||| bitMask index)

def clearBit (bytes : Bytes) (index : Nat) : Bytes :=
  Function.update bytes (index / 8) (bytes (index / 8) &&& ~~~ bitMask index)

theorem readBit_eq (bytes : Bytes) (index : Nat) :
    readBit bytes index = ((bytes (index / 8)).toNat.testBit (index % 8)).toNat := by
  rw [readBit, Nat.toNat_testBit, Nat.shiftRight_eq_div_pow, Nat.and_one_is_mod]

theorem bitMask_testBit (index other : Nat) :
    (bitMask index).toNat.testBit (other % 8) = decide (index % 8 = other % 8) := by
  have small : 2 ^ (index % 8) < 256 :=
    Nat.pow_lt_pow_right (by decide) (Nat.mod_lt _ (by decide) : index % 8 < 8)
  have value : (bitMask index).toNat = 2 ^ (index % 8) := by
    rw [bitMask, Nat.one_shiftLeft]
    exact Nat.mod_eq_of_lt small
  rw [value, Nat.testBit_two_pow]

theorem complement_testBit (byte : UInt8) (inside : bit < 8) :
    (~~~ byte).toNat.testBit bit = !byte.toNat.testBit bit := by
  have width := BitVec.getLsbD_not (x := byte.toBitVec) (i := bit)
  rw [decide_eq_true inside, Bool.true_and] at width
  exact width

theorem readBit_setBit (bytes : Bytes) (index other : Nat) :
    readBit (setBit bytes index) other = if other = index then 1 else readBit bytes other := by
  rw [readBit_eq, readBit_eq, setBit]
  by_cases byte : other / 8 = index / 8
  · rw [byte, Function.update_self, UInt8.toNat_or, Nat.testBit_or, bitMask_testBit]
    by_cases bit : other % 8 = index % 8
    · rw [if_pos (by omega), decide_eq_true bit.symm, Bool.or_true, Bool.toNat_true]
    · rw [if_neg (by omega), decide_eq_false (Ne.symm bit), Bool.or_false]
  · rw [Function.update_of_ne byte, if_neg (by omega)]

theorem readBit_clearBit (bytes : Bytes) (index other : Nat) :
    readBit (clearBit bytes index) other = if other = index then 0 else readBit bytes other := by
  rw [readBit_eq, readBit_eq, clearBit]
  by_cases byte : other / 8 = index / 8
  · rw [byte, Function.update_self, UInt8.toNat_and, Nat.testBit_and,
      complement_testBit _ (Nat.mod_lt _ (by decide)), bitMask_testBit]
    by_cases bit : other % 8 = index % 8
    · rw [if_pos (by omega), decide_eq_true bit.symm, Bool.not_true, Bool.and_false, Bool.toNat_false]
    · rw [if_neg (by omega), decide_eq_false (Ne.symm bit), Bool.not_false, Bool.and_true]
  · rw [Function.update_of_ne byte, if_neg (by omega)]

theorem toNat_bool_inj {left right : Bool} (same : left.toNat = right.toNat) : left = right := by
  cases left <;> cases right <;> simp_all

/-- Bit arrays with the same bits are the same bytes. -/
theorem bytes_ext (same : ∀ index, readBit bytes index = readBit bytes' index) : bytes = bytes' := by
  funext place
  apply UInt8.toNat_inj.mp
  apply Nat.eq_of_testBit_eq
  intro bit
  by_cases inside : bit < 8
  · have read := same (8 * place + bit)
    rw [readBit_eq, readBit_eq, (by omega : (8 * place + bit) / 8 = place), (by omega : (8 * place + bit) % 8 = bit)]
      at read
    exact toNat_bool_inj read
  · have wide : 2 ^ 8 ≤ 2 ^ bit := Nat.pow_le_pow_right (by decide) (Nat.not_lt.mp inside)
    rw [Nat.testBit_lt_two_pow (Nat.lt_of_lt_of_le (bytes place).toNat_lt wide),
      Nat.testBit_lt_two_pow (Nat.lt_of_lt_of_le (bytes' place).toNat_lt wide)]

theorem readBit_full (same : bytes (index / 8) = 0xFF) : readBit bytes index = 1 := by
  have inside : index % 8 < 8 := Nat.mod_lt _ (by decide)
  rw [readBit, same]
  generalize index % 8 = bit at inside
  revert bit
  decide

end LivlyOS.Lib
