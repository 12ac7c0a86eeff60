import LivlyOS.Drivers.Ata
import Mathlib.Tactic.IntervalCases

namespace LivlyOS.Fs.Sector

open LivlyOS.Lib

/-- Storing a word of the source takes a copy two bytes further. -/
theorem storeWord_copies {source buf : Sector} (index : Nat)
    (copied : ∀ position : Fin 512, position.val < 2 * index → buf position = source position) :
    ∀ position : Fin 512, position.val < 2 * (index + 1) → buf.storeWord index (source.dataWord index) position = source position := by
  intro position below
  have whole : (source.dataWord index).toNat = word source.bytes (2 * index) 2 :=
    Nat.mod_eq_of_lt (word_lt source.bytes (2 * index) 2)
  have here (sector : Sector) : sector.bytes position = sector position := dif_pos position.isLt
  rw [storeWord, ofBytes, whole]
  by_cases inside : 2 * index ≤ position.val ∧ position.val < 2 * index + 2
  · rw [putWord_word _ _ _ _ _ inside, Nat.add_sub_cancel' inside.1, here]
  · rw [putWord_outside _ _ (by omega), here]
    exact copied position (by omega)

theorem copied_all {source buf : Sector} (copied : ∀ position : Fin 512, position.val < 2 * 256 → buf position = source position) :
    buf = source := funext fun position => copied position position.isLt

end LivlyOS.Fs.Sector

namespace LivlyOS.Drivers

open LivlyOS.Lib LivlyOS.Fs

/-- The registers after some of the writes in front of a command. -/
structure Drive.SetUp (drive : Drive) (lba : UInt32) (done : Nat) : Prop where
  count : 1 ≤ done → drive.sectorCount = 1
  low : 2 ≤ done → drive.lbaLow = (lba &&& 0xFF).toUInt8
  mid : 3 ≤ done → drive.lbaMid = ((lba >>> 8) &&& 0xFF).toUInt8
  high : 4 ≤ done → drive.lbaHigh = ((lba >>> 16) &&& 0xFF).toUInt8
  device : 5 ≤ done → drive.device = ((0xE0 : UInt32) ||| ((lba >>> 24) &&& 0x0F)).toUInt8

theorem toUInt8_byte (lba shift : UInt32) (small : shift.toNat < 32) :
    ((lba >>> shift) &&& 0xFF).toUInt8.toNat = lba.toNat / 2 ^ shift.toNat % 256 := by
  rw [UInt32.toNat_toUInt8, UInt32.toNat_and, UInt32.toNat_shiftRight, Nat.mod_eq_of_lt small, Nat.shiftRight_eq_div_pow]
  change (_ &&& 2 ^ 8 - 1) % _ = _
  rw [Nat.and_two_pow_sub_one_eq_mod, Nat.mod_mod]

theorem toUInt8_device (lba : UInt32) :
    ((0xE0 : UInt32) ||| ((lba >>> 24) &&& 0x0F)).toUInt8.toNat = 224 + lba.toNat / 2 ^ 24 % 16 := by
  have low := Nat.mod_lt (lba.toNat / 2 ^ 24) (by decide : 0 < 16)
  have sum : ∀ low < 16, 224 ||| low = 224 + low := by decide
  rw [UInt32.toNat_toUInt8, UInt32.toNat_or, UInt32.toNat_and, UInt32.toNat_shiftRight]
  change (224 ||| (lba.toNat >>> 24 &&& 2 ^ 4 - 1)) % _ = _
  rw [Nat.and_two_pow_sub_one_eq_mod, Nat.shiftRight_eq_div_pow, sum _ low]
  omega

namespace Drive.SetUp

variable {drive : Drive} {lba : UInt32}

theorem lba_eq (setUp : drive.SetUp lba 5) : drive.lba = ataLba lba.toNat := by
  obtain ⟨_, low, mid, high, device⟩ := setUp
  have first := toUInt8_byte lba 0 (by decide)
  have second := toUInt8_byte lba 8 (by decide)
  have third := toUInt8_byte lba 16 (by decide)
  have last := toUInt8_device lba
  rw [UInt32.shiftRight_zero, ← low (by decide)] at first
  rw [← mid (by decide)] at second
  rw [← high (by decide)] at third
  rw [← device (by decide)] at last
  rw [Drive.lba, ataLba, first, second, third, last]
  change lba.toNat / 2 ^ 0 % 256 + 256 * (lba.toNat / 2 ^ 8 % 256) + 65536 * (lba.toNat / 2 ^ 16 % 256) + _ = _
  omega

theorem addressed (setUp : drive.SetUp lba 5) : drive.addressed = true := by
  have device := toUInt8_device lba
  rw [← setUp.device (by decide)] at device
  refine decide_eq_true ⟨setUp.count (by decide), UInt8.toNat_inj.mp ?_⟩
  rw [UInt8.toNat_div, device]
  change (224 + _) / 16 = 14
  omega

theorem next (setUp : drive.SetUp lba done) (idle : drive.phase = .idle) (early : done < 5) (command : UInt8)
    (write : UInt16 × UInt8) (here : (ataSetup lba command)[done]? = some write) :
    ∃ drive', drive.outb write.1 write.2 = some drive' ∧ drive'.SetUp lba (done + 1) ∧ drive'.phase = .idle ∧
      drive'.disk = drive.disk := by
  obtain ⟨count, low, mid, high, device⟩ := setUp
  interval_cases done <;> cases here <;> rw [outb, idle] <;> refine ⟨_, rfl, ?_, rfl, rfl⟩ <;> constructor <;> intro past <;>
    first
    | rfl
    | exact count (by decide)
    | exact low (by decide)
    | exact mid (by decide)
    | exact high (by decide)
    | exact absurd past (by decide)

theorem none (drive : Drive) (lba : UInt32) : drive.SetUp lba 0 := by
  constructor <;> intro past <;> omega

end Drive.SetUp

end LivlyOS.Drivers
