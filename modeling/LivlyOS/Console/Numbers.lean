import LivlyOS.Lib.Loop
import LivlyOS.Lib.Cells
import LivlyOS.Lib.MachineInt
import LivlyOS.Lib.Numeral

namespace LivlyOS.Console

open LivlyOS.Lib

def dezimalZiffer (ziffer : Nat) : UInt8 := UInt8.ofNat (48 + ziffer)

def hexZiffer (ziffer : Nat) : UInt8 := if ziffer < 10 then UInt8.ofNat (48 + ziffer) else UInt8.ofNat (65 + (ziffer - 10))

structure DigitState where
  puffer : Int → UInt8
  laenge : Int
  zahl : Nat

/-- A turn of `while (zahl > 0)`; nothing is the result of a store outside of the buffer. -/
def storeDigit (base : Nat) (ziffer : Nat → UInt8) (st : DigitState) : Turn DigitState (Option DigitState) :=
  if st.zahl > 0 then
    (writeCell 20 st.puffer st.laenge (ziffer (st.zahl % base))).elim (.leave none) fun puffer =>
      .again ⟨puffer, st.laenge + 1, st.zahl / base⟩
  else .leave (some st)

/-- The loop from `laenge - 1` down to 0. -/
def emitDigits (puffer : Int → UInt8) (laenge : Int) (out : List UInt8) : Option (List UInt8) :=
  forDown (laenge - 1) (-1) (fun i out => (readCell 20 puffer i).map fun c => out ++ [c]) out

/-- Both loops, behind the characters that are already out. -/
def printDigits (base : Nat) (ziffer : Nat → UInt8) (out : List UInt8) (zahl fuel : Nat) : Option (List UInt8) :=
  (loop (storeDigit base ziffer) fuel ⟨fun _ => 0, 0, zahl⟩).join.bind fun st => emitDigits st.puffer st.laenge out

/-- The negation of the smallest `int` has no result. -/
def printZahl (zahl : Int32) (fuel : Nat) : Option (List UInt8) :=
  if zahl.toInt = 0 then some [48]
  else if zahl.toInt < 0 then
    (checkInt (-zahl.toInt)).bind fun zahl => printDigits 10 dezimalZiffer [45] zahl.toNat fuel
  else printDigits 10 dezimalZiffer [] zahl.toInt.toNat fuel

def printHex (zahl : UInt64) (fuel : Nat) : Option (List UInt8) :=
  if zahl.toNat = 0 then some [48, 120, 48] else printDigits 16 hexZiffer [48, 120] zahl.toNat fuel

def printUint (zahl : UInt32) (fuel : Nat) : Option (List UInt8) :=
  if zahl.toNat = 0 then some [48] else printDigits 10 dezimalZiffer [] zahl.toNat fuel

/-- A minus sign for negative numbers, and the numeral of the absolute value. -/
def PrintsZahl (zahl : Int32) : Prop :=
  ∃ fuel text, printZahl zahl fuel = some ((if zahl.toInt < 0 then [45] else []) ++ text) ∧
    IsNumeral 10 dezimalZiffer text zahl.toInt.natAbs

def PrintsUint (zahl : UInt32) : Prop :=
  ∃ fuel text, printUint zahl fuel = some text ∧ IsNumeral 10 dezimalZiffer text zahl.toNat

def PrintsHex (zahl : UInt64) : Prop :=
  ∃ fuel text, printHex zahl fuel = some ([48, 120] ++ text) ∧ IsNumeral 16 hexZiffer text zahl.toNat

section

variable {base zahl : Nat} {ziffer : Nat → UInt8} {puffer : Int → UInt8} {laenge : Int}

/-- The loop stores the digits, the lowest first, when they fit in the buffer. -/
theorem storeDigits_spec (large : 1 < base) (zahl : Nat) (ziffer : Nat → UInt8) (puffer : Int → UInt8) (start : 0 ≤ laenge)
    (room : laenge + (Nat.digits base zahl).length ≤ 20) :
    ∃ fuel puffer', loop (storeDigit base ziffer) fuel ⟨puffer, laenge, zahl⟩ =
        some (some ⟨puffer', laenge + (Nat.digits base zahl).length, 0⟩) ∧
      Spells puffer' laenge ((Nat.digits base zahl).map ziffer) ∧ ∀ i, i < laenge → puffer' i = puffer i := by
  induction zahl using Nat.strong_induction_on generalizing puffer laenge with
  | _ zahl ih =>
    by_cases more : zahl > 0
    · have step := Nat.digits_def' large more
      rw [step, List.length_cons] at room
      obtain ⟨fuel, puffer', ran, spells, kept⟩ := ih (zahl / base) (Nat.div_lt_self more large)
        (Function.update puffer laenge (ziffer (zahl % base))) (by omega : 0 ≤ laenge + 1) (by omega)
      have turn : storeDigit base ziffer ⟨puffer, laenge, zahl⟩ =
          .again ⟨Function.update puffer laenge (ziffer (zahl % base)), laenge + 1, zahl / base⟩ := by
        rw [storeDigit, if_pos more, writeCell_eq puffer (by dsimp only; omega)]
        rfl
      refine ⟨fuel + 1, puffer', ?_, ?_, fun i below => ?_⟩
      · rw [loop_again turn, ran, step, List.length_cons, Nat.cast_succ, Int.add_assoc, Int.add_comm 1]
      · rw [step, List.map_cons]
        exact ⟨by rw [kept laenge (by omega), Function.update_self], spells⟩
      · rw [kept i (by omega), Function.update_of_ne (by omega)]
    · have zero : zahl = 0 := Nat.eq_zero_of_not_pos more
      refine ⟨1, puffer, ?_, ?_, fun _ _ => rfl⟩
      · have turn : storeDigit base ziffer ⟨puffer, laenge, zahl⟩ = .leave (some ⟨puffer, laenge, zahl⟩) := if_neg more
        rw [loop_leave turn, zero]
        simp
      · rw [zero, Nat.digits_zero]
        trivial

/-- What is spelt in the buffer comes out backwards. -/
theorem emitDigits_spec {values : List UInt8} (spells : Spells puffer 0 values) (room : values.length ≤ 20)
    (out : List UInt8) : emitDigits puffer values.length out = some (out ++ values.reverse) := by
  induction values using List.reverseRecOn generalizing out with
  | nil => simp [emitDigits, forDown_done]
  | append_singleton values c ih =>
    rw [List.length_append, List.length_singleton] at room ⊢
    obtain ⟨front, last, _⟩ := Spells.append_iff.mp spells
    rw [Int.zero_add] at last
    have rest := ih front (by omega) (out ++ [c])
    unfold emitDigits at rest ⊢
    rw [Nat.cast_succ, Int.add_sub_cancel, forDown_next (by omega), readCell_eq puffer (by omega), last]
    rw [Option.map_some, Option.bind_some, rest, List.reverse_append, List.append_assoc]
    rfl

/-- A number of at most 20 digits is printed as its digits. -/
theorem printDigits_spec (large : 1 < base) (small : zahl < base ^ 20) (ziffer : Nat → UInt8) (out : List UInt8) :
    ∃ fuel, printDigits base ziffer out zahl fuel = some (out ++ ((Nat.digits base zahl).map ziffer).reverse) := by
  have room := (Nat.digits_length_le_iff large zahl).mpr small
  obtain ⟨fuel, puffer, ran, spells, _⟩ :=
    storeDigits_spec large zahl ziffer (fun _ => 0) (Int.le_refl 0) (by omega)
  refine ⟨fuel, ?_⟩
  have emitted := emitDigits_spec spells (by rwa [List.length_map]) out
  rw [List.length_map] at emitted
  rw [printDigits, ran, Option.join_some, Option.bind_some, Int.zero_add]
  exact emitted

/-- Printed behind `out`, a positive number gives its numeral. -/
theorem printDigits_numeral (large : 1 < base) (small : zahl < base ^ 20) (nonzero : zahl ≠ 0) (ziffer : Nat → UInt8)
    (out : List UInt8) :
    ∃ fuel text, printDigits base ziffer out zahl fuel = some (out ++ text) ∧ IsNumeral base ziffer text zahl := by
  obtain ⟨fuel, printed⟩ := printDigits_spec large small ziffer out
  exact ⟨fuel, _, printed, isNumeral_digits large nonzero ziffer⟩

end

theorem printsUint (zahl : UInt32) : PrintsUint zahl := by
  by_cases zero : zahl.toNat = 0
  · exact ⟨0, [48], if_pos zero, zero ▸ isNumeral_zero (by decide) dezimalZiffer⟩
  · have small : zahl.toNat < 10 ^ 20 := Nat.lt_trans zahl.toNat_lt (by decide)
    obtain ⟨fuel, text, printed, numeral⟩ := printDigits_numeral (by decide) small zero dezimalZiffer []
    exact ⟨fuel, text, (if_neg zero).trans printed, numeral⟩

theorem printsHex (zahl : UInt64) : PrintsHex zahl := by
  by_cases zero : zahl.toNat = 0
  · exact ⟨0, [48], if_pos zero, zero ▸ isNumeral_zero (by decide) hexZiffer⟩
  · have small : zahl.toNat < 16 ^ 20 := Nat.lt_trans zahl.toNat_lt (by decide)
    obtain ⟨fuel, text, printed, numeral⟩ := printDigits_numeral (by decide) small zero hexZiffer [48, 120]
    exact ⟨fuel, text, (if_neg zero).trans printed, numeral⟩

theorem printsZahl {zahl : Int32} (negatable : zahl ≠ Int32.minValue) : PrintsZahl zahl := by
  have low := zahl.le_toInt
  have high := zahl.toInt_lt
  have other : zahl.toInt ≠ -2 ^ 31 := fun same => negatable (Int32.toInt_inj.mp same)
  by_cases zero : zahl.toInt = 0
  · refine ⟨0, [48], ?_, ?_⟩
    · rw [printZahl, if_pos zero, if_neg (by omega)]
      rfl
    · rw [zero]
      exact isNumeral_zero (by decide) dezimalZiffer
  · have small : zahl.toInt.natAbs < 10 ^ 20 := by omega
    by_cases negative : zahl.toInt < 0
    · obtain ⟨fuel, text, printed, numeral⟩ := printDigits_numeral (by decide) small (by omega) dezimalZiffer [45]
      refine ⟨fuel, text, ?_, numeral⟩
      rw [printZahl, if_neg zero, if_pos negative, if_pos negative, checkInt_eq ⟨by omega, by omega⟩, Option.bind_some,
        show (-zahl.toInt).toNat = zahl.toInt.natAbs by omega]
      exact printed
    · obtain ⟨fuel, text, printed, numeral⟩ := printDigits_numeral (by decide) small (by omega) dezimalZiffer []
      refine ⟨fuel, text, ?_, numeral⟩
      rw [printZahl, if_neg zero, if_neg negative, if_neg negative, show zahl.toInt.toNat = zahl.toInt.natAbs by omega]
      exact printed

/-- The smallest `int` is not printed: its negation has no result. -/
theorem printZahl_minValue (fuel : Nat) : printZahl Int32.minValue fuel = none := rfl

/-- Every number is printed as its numeral, but the smallest `int`. -/
theorem numbers_printed_iff (d : Int32) (u : UInt32) (x : UInt64) :
    (PrintsZahl d ∧ PrintsUint u ∧ PrintsHex x) ↔ d ≠ Int32.minValue := by
  constructor
  · rintro ⟨⟨fuel, text, printed, _⟩, _⟩ smallest
    rw [smallest, printZahl_minValue] at printed
    cases printed
  · intro negatable
    exact ⟨printsZahl negatable, printsUint u, printsHex x⟩

theorem smallest_int_not_printed : ¬ PrintsZahl Int32.minValue := by
  rintro ⟨fuel, text, printed, _⟩
  rw [printZahl_minValue] at printed
  cases printed

end LivlyOS.Console
