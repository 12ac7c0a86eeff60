import Mathlib.Data.Nat.Digits.Lemmas

namespace LivlyOS.Lib

/-- The text is the canonical numeral of the value: no zero leads, except in the numeral of zero. -/
def IsNumeral (base : Nat) (symbol : Nat → α) (text : List α) (value : Nat) : Prop :=
  ∃ digits : List Nat, text = digits.map symbol ∧ (∀ digit ∈ digits, digit < base) ∧
    Nat.ofDigits base digits.reverse = value ∧ digits ≠ [] ∧ (digits.head? = some 0 → digits = [0])

variable {base value : Nat}

theorem isNumeral_zero (positive : 0 < base) (symbol : Nat → α) : IsNumeral base symbol [symbol 0] 0 := by
  refine ⟨[0], rfl, fun digit member => ?_, rfl, List.cons_ne_nil _ _, fun _ => rfl⟩
  rw [List.mem_singleton.mp member]
  exact positive

theorem isNumeral_digits (large : 1 < base) (nonzero : value ≠ 0) (symbol : Nat → α) :
    IsNumeral base symbol ((Nat.digits base value).map symbol).reverse value := by
  have more : Nat.digits base value ≠ [] := Nat.digits_ne_nil_iff_ne_zero.mpr nonzero
  refine ⟨(Nat.digits base value).reverse, ?_, fun digit member => ?_, ?_, ?_, fun leads => ?_⟩
  · rw [List.map_reverse]
  · exact Nat.digits_lt_base large (List.mem_reverse.mp member)
  · rw [List.reverse_reverse, Nat.ofDigits_digits]
  · rwa [ne_eq, List.reverse_eq_nil_iff]
  · -- the first digit is the last that division gives
    rw [List.head?_reverse, List.getLast?_eq_some_getLast more] at leads
    exact absurd (Option.some.inj leads) (Nat.getLast_digit_ne_zero base nonzero)

end LivlyOS.Lib
