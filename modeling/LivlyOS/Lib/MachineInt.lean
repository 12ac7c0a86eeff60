import Mathlib.Algebra.Ring.Int.Defs

namespace LivlyOS.Lib

def FitsInt (value : Int) : Prop := -2 ^ 31 ≤ value ∧ value < 2 ^ 31

instance (value : Int) : Decidable (FitsInt value) := inferInstanceAs (Decidable (_ ∧ _))

/-- The result of an operation on `int`s, if it has one. -/
def checkInt (value : Int) : Option Int := if FitsInt value then some value else none

theorem checkInt_eq (fits : FitsInt value) : checkInt value = some value := if_pos fits

end LivlyOS.Lib
