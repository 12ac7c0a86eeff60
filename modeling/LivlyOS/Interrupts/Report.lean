import LivlyOS.Interrupts.System

namespace LivlyOS.Interrupts

open LivlyOS.Lib LivlyOS.Proc

def charValue (c : UInt8) : Nat := if c < 58 then c.toNat - 48 else c.toNat - 55

/-- The number whose digits stand in every second byte from an address on. -/
def readHex (vga : Bytes) (address : Nat) : (digits : Nat) → (value : Nat) → Nat
  | 0, value => value
  | digits + 1, value => readHex vga (address + 2) digits (16 * value + charValue (vga address))

/-- The characters in every second byte from an address on. -/
def ReadsText (vga : Bytes) : Nat → List UInt8 → Prop
  | _, [] => True
  | address, c :: text => vga address = c ∧ ReadsText vga (address + 2) text

theorem charValue_nibbleChar (value : Nat) (small : value < 16) : charValue (nibbleChar (UInt8.ofNat value)) = value := by
  have all : ∀ value : Fin 16, charValue (nibbleChar (UInt8.ofNat value)) = value := by decide
  exact all ⟨value, small⟩

theorem readHex_eq {vga : Bytes} (val : Nat) {digits : Nat} (address acc : Nat)
    (shown : ∀ k < digits, charValue (vga (address + 2 * k)) = val / 16 ^ (digits - 1 - k) % 16) :
    readHex vga address digits acc = acc * 16 ^ digits + val % 16 ^ digits := by
  induction digits generalizing address acc with
  | zero => rw [readHex, Nat.pow_zero, Nat.mod_one, Nat.mul_one, Nat.add_zero]
  | succ digits ih =>
    have first : charValue (vga address) = val / 16 ^ digits % 16 := shown 0 (Nat.succ_pos digits)
    have rest := ih (address + 2) (16 * acc + charValue (vga address)) (fun k below => by
      have shift : address + 2 + 2 * k = address + 2 * (k + 1) := by omega
      have power : digits - 1 - k = digits + 1 - 1 - (k + 1) := by omega
      rw [shift, power]
      exact shown (k + 1) (by omega))
    rw [readHex, rest, first, Nat.pow_succ, Nat.mod_mul, Nat.add_mul, Nat.mul_comm (16 ^ digits) 16, Nat.mul_comm 16 acc,
      Nat.mul_assoc, Nat.mul_comm (val / 16 ^ digits % 16)]
    omega

section Cells

variable {offset pos : Nat} {color : UInt8} {vga : Bytes}

theorem vgaCell_same (offset pos : Nat) (c color : UInt8) (vga : Bytes) :
    vgaCell offset pos c color vga (offset + 2 * pos) = c := by
  have column : offset + 2 * pos = offset + pos * 2 := by omega
  rw [vgaCell, Function.update_of_ne (by omega), column, Function.update_self]

theorem vgaCell_other (c color : UInt8) (vga : Bytes) {position : Nat}
    (outside : position < offset + 2 * pos ∨ offset + 2 * (pos + 1) ≤ position) :
    vgaCell offset pos c color vga position = vga position := by
  rw [vgaCell, Function.update_of_ne (by omega), Function.update_of_ne (by omega)]

theorem vgaPrint_other (text : List UInt8) {position : Nat}
    (outside : position < offset + 2 * pos ∨ offset + 2 * (pos + text.length) ≤ position) :
    vgaPrint offset pos color text vga position = vga position := by
  induction text generalizing pos vga with
  | nil => rfl
  | cons c text ih =>
    rw [List.length_cons] at outside
    rw [vgaPrint, ih (by omega), vgaCell_other _ _ _ (by omega)]

theorem vgaPrint_reads (text : List UInt8) (pos : Nat) (vga : Bytes) :
    ReadsText (vgaPrint offset pos color text vga) (offset + 2 * pos) text := by
  induction text generalizing pos vga with
  | nil => trivial
  | cons c text ih =>
    refine ⟨?_, ih (pos + 1) _⟩
    rw [vgaPrint, vgaPrint_other _ (.inl (by omega)), vgaCell_same]

/-- The loop writes the columns behind the prefix, and the digits in their order. -/
theorem vgaPrintDigits_spec (digits : Nat) (val : UInt64) (vga : Bytes) {left : Nat} (few : left ≤ digits) (short : digits ≤ 16) :
    (∀ d < left, vgaPrintDigits offset pos digits val color left vga (offset + 2 * (pos + 2 + (digits - 1 - d))) =
        nibbleChar (UInt8.ofNat (val.toNat / 16 ^ d % 16))) ∧
      ∀ position, (position < offset + 2 * (pos + 2 + (digits - left)) ∨ offset + 2 * (pos + 2 + digits) ≤ position) →
        vgaPrintDigits offset pos digits val color left vga position = vga position := by
  induction left generalizing vga with
  | zero => exact ⟨fun _ none => absurd none (Nat.not_lt_zero _), fun _ _ => rfl⟩
  | succ d ih =>
    obtain ⟨later, others⟩ := ih (vgaCell offset (pos + 2 + (digits - 1 - d))
      (nibbleChar ((val >>> UInt64.ofNat (d * 4)) &&& 0xF).toUInt8) color vga) (by omega)
    have nibble : ((val >>> UInt64.ofNat (d * 4)) &&& 0xF).toUInt8 = UInt8.ofNat (val.toNat / 16 ^ d % 16) := by
      have amount : (UInt64.ofNat (d * 4)).toNat = d * 4 :=
        UInt64.toNat_ofNat_of_lt' (by change _ < 18446744073709551616; omega)
      have low : ((val >>> UInt64.ofNat (d * 4)) &&& 0xF).toNat = val.toNat / 16 ^ d % 16 := by
        rw [UInt64.toNat_and, UInt64.toNat_shiftRight, amount, Nat.mod_eq_of_lt (by omega), Nat.shiftRight_eq_div_pow,
          Nat.mul_comm, Nat.pow_mul]
        exact Nat.and_two_pow_sub_one_eq_mod _ 4
      rw [← @UInt64.ofNat_toNat ((val >>> UInt64.ofNat (d * 4)) &&& 0xF), low]
      exact UInt64.toUInt8_ofNat' _
    rw [nibble] at later others
    rw [vgaPrintDigits, nibble]
    refine ⟨fun k below => ?_, fun position outside => ?_⟩
    · rcases Nat.lt_succ_iff_lt_or_eq.mp below with earlier | rfl
      · exact later k earlier
      · rw [others _ (.inl (by omega)), vgaCell_same]
    · rw [others position (by omega), vgaCell_other _ _ _ (by omega)]

theorem vgaPrintHex_other (val : UInt64) {digits position : Nat} (short : digits ≤ 16)
    (outside : position < offset + 2 * pos ∨ offset + 2 * (pos + 2 + digits) ≤ position) :
    vgaPrintHex offset pos val digits color vga position = vga position := by
  rw [vgaPrintHex, (vgaPrintDigits_spec digits val _ (Nat.le_refl _) short).2 position (by omega),
    vgaCell_other _ _ _ (by omega), vgaCell_other _ _ _ (by omega)]

/-- The digits of a number show all of it that they have room for, as long as nothing
else is written over them. -/
theorem vgaPrintHex_reads (offset pos : Nat) (vga : Bytes) (val : UInt64) {digits : Nat} (short : digits ≤ 16) {after : Bytes}
    (kept : ∀ position, offset + 2 * (pos + 2) ≤ position → position < offset + 2 * (pos + 2 + digits) →
      after position = vgaPrintHex offset pos val digits 0x4F vga position) :
    readHex after (offset + 2 * (pos + 2)) digits 0 = val.toNat % 16 ^ digits := by
  rw [readHex_eq val.toNat _ _ fun k below => ?_, Nat.zero_mul, Nat.zero_add]
  have column : offset + 2 * (pos + 2) + 2 * k = offset + 2 * (pos + 2 + (digits - 1 - (digits - 1 - k))) := by omega
  rw [kept _ (by omega) (by omega), column, vgaPrintHex,
    (vgaPrintDigits_spec digits val _ (Nat.le_refl _) short).1 _ (by omega), charValue_nibbleChar _ (Nat.mod_lt _ (by decide))]

theorem ReadsText.congr {left right : Bytes} : {text : List UInt8} → {address : Nat} → ReadsText left address text →
    (∀ position, address ≤ position → position < address + 2 * text.length → right position = left position) →
    ReadsText right address text
  | [], _, _, _ => trivial
  | c :: text, address, reads, same => by
    rw [List.length_cons] at same
    refine ⟨?_, ReadsText.congr reads.2 fun position above below => same position (by omega) (by omega)⟩
    rw [same address (Nat.le_refl _) (by omega)]
    exact reads.1

end Cells

theorem names_short (number : Nat) : (cText (exceptionNames.getD number "")).length ≤ 23 := by
  have all : ∀ name ∈ exceptionNames, name.toList.length ≤ 23 := by decide +kernel
  rw [cText, List.length_map]
  rcases Nat.lt_or_ge number exceptionNames.length with named | none
  · rw [List.getD_eq_getElem _ _ named]
    exact all _ (List.getElem_mem named)
  · rw [List.getD_eq_default _ _ none]
    decide

theorem label_lengths : (cText "!!! EXCEPTION !!!").length = 17 ∧ (cText "RIP:").length = 4 ∧ (cText "ERR:").length = 4 := by
  decide +kernel

section Lines

variable {frame : InterruptFrame} {vga after : Bytes} {position : Nat}

theorem exceptionLine_other (outside : position < 160 ∨ 320 ≤ position) :
    exceptionLine frame vga position = vga position := by
  have name := names_short frame.intNum.toNat
  rw [exceptionLine, vgaPrint_other _ (by omega), vgaPrintHex_other _ (by decide) (by omega)]

theorem labelLine_other {offset digits : Nat} {label : String} (val : UInt64) (short : digits ≤ 16)
    (length : (cText label).length = 4) (outside : position < offset ∨ offset + 160 ≤ position) :
    labelLine offset label val digits vga position = vga position := by
  rw [labelLine, vgaPrintHex_other _ short (by omega), vgaPrint_other _ (by omega)]

theorem exceptionLine_reads (frame : InterruptFrame) (vga after : Bytes) (small : frame.intNum.toNat < 256)
    (kept : ∀ position, position < 320 → after position = exceptionLine frame vga position) :
    readHex after 164 2 0 = frame.intNum.toNat ∧
      ReadsText after 172 (cText (exceptionNames.getD frame.intNum.toNat "")) := by
  have name := names_short frame.intNum.toNat
  constructor
  · refine (vgaPrintHex_reads 160 0 vga frame.intNum (by decide) fun position _ below => ?_).trans (Nat.mod_eq_of_lt small)
    rw [kept position (by omega), exceptionLine, vgaPrint_other _ (by omega)]
  · exact (vgaPrint_reads _ 6 _).congr fun position _ below => kept position (by omega)

theorem labelLine_reads {vga : Bytes} (after : Bytes) {offset digits : Nat} (label : String) (val : UInt64)
    (short : digits ≤ 16)
    (kept : ∀ position, position < offset + 160 → after position = labelLine offset label val digits vga position) :
    readHex after (offset + 12) digits 0 = val.toNat % 16 ^ digits :=
  vgaPrintHex_reads offset 4 _ val short fun position _ below => kept position (by omega)

end Lines

/-- An exception stops the system with a screen that shows the vector, the whole
instruction pointer, the lower half of the error code and the name of the exception;
below the fourth row nothing has changed. -/
theorem exception_report (fuel : Nat) (behind : List Char → Nat → UInt8) (scancode : UInt8) (frame : InterruptFrame)
    (st : Statics) (exception : frame.intNum < 32) :
    ∃ vga, exceptionHandler fuel behind scancode frame st = some (.halted vga) ∧
      readHex vga 164 2 0 = frame.intNum.toNat ∧ readHex vga 332 16 0 = frame.rip.toNat ∧
      readHex vga 492 8 0 = frame.errorCode.toNat % 4294967296 ∧
      ReadsText vga 172 (cText (exceptionNames.getD frame.intNum.toNat "")) ∧
      ∀ position, 640 ≤ position → vga position = st.vga position := by
  have small : frame.intNum.toNat < 32 := UInt64.lt_iff_toNat_lt.mp exception
  obtain ⟨title, rip, err⟩ := label_lengths
  have number := exceptionLine_reads frame (vgaPrint 0 0 0x4F (cText "!!! EXCEPTION !!!") st.vga)
    (exceptionScreen frame st.vga) (by omega) fun position above => by
      unfold exceptionScreen
      rw [labelLine_other _ (by decide) err (by omega), labelLine_other _ (by decide) rip (by omega)]
  have pointer : readHex _ (320 + 12) 16 0 = _ := labelLine_reads (exceptionScreen frame st.vga) "RIP:" frame.rip (Nat.le_refl 16)
    fun position above => by
      unfold exceptionScreen
      rw [labelLine_other _ (by decide) err (by omega)]
  have code : readHex _ (480 + 12) 8 0 = _ := labelLine_reads (exceptionScreen frame st.vga) "ERR:" frame.errorCode (by decide)
    fun position above => rfl
  refine ⟨exceptionScreen frame st.vga, by rw [exceptionHandler, if_pos exception], number.1,
    pointer.trans (Nat.mod_eq_of_lt frame.rip.toNat_lt), code, number.2, fun position below => ?_⟩
  unfold exceptionScreen
  rw [labelLine_other _ (by decide) err (by omega), labelLine_other _ (by decide) rip (by omega),
    exceptionLine_other (by omega), vgaPrint_other _ (by omega)]

theorem exception_report_pageFault : ∃ vga,
    exceptionHandler 0 (fun _ _ => 0) 0 { zeroFrame with intNum := 14, rip := 0xDEADBEEF } System.idleSystem.statics =
      some (.halted vga) ∧ readHex vga 332 16 0 = 0xDEADBEEF := by
  obtain ⟨vga, halted, _, rip, _⟩ := exception_report 0 (fun _ _ => 0) 0 { zeroFrame with intNum := 14, rip := 0xDEADBEEF }
    System.idleSystem.statics (by decide)
  exact ⟨vga, halted, rip⟩

end LivlyOS.Interrupts
