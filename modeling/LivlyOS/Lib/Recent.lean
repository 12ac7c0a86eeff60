import Mathlib.Data.Int.ModEq
import Mathlib.Data.List.Basic
import Mathlib.Tactic.Common

/-! The most recent entries of a growing list, kept in a ring of slots. -/

namespace LivlyOS.Lib

/-- Of the entries, latest first, the last `size` ones are in the slots that counting the
entries modulo `size` gave them. -/
def Remembers (size : Nat) (holds : Nat → α → Prop) (entries : List α) : Prop :=
  ∀ k entry, entries[k]? = some entry → k < size → holds ((entries.length - 1 - k) % size) entry

namespace Remembers

theorem nil (size : Nat) (holds : Nat → α → Prop) : Remembers size holds [] := by
  intro k entry present
  cases present

/-- A new entry takes the place of the oldest one. -/
theorem push {holds holds' : Nat → α → Prop} (remembers : Remembers size holds entries)
    (neu : holds' (entries.length % size) entry)
    (others : ∀ slot old, slot ≠ entries.length % size → holds slot old → holds' slot old) :
    Remembers size holds' (entry :: entries) := by
  intro k found present inside
  rw [List.length_cons]
  cases k with
  | zero =>
    cases present
    exact neu
  | succ k =>
    rw [List.getElem?_cons_succ] at present
    have short := (List.getElem?_eq_some_iff.mp present).1
    rw [show entries.length + 1 - 1 - (k + 1) = entries.length - 1 - k by omega]
    apply others _ _ _ (remembers k found present (by omega))
    -- the two are less than a round apart
    intro same
    have apart : entries.length = entries.length - 1 - k + (k + 1) := by omega
    have round : entries.length - 1 - k + 0 ≡ entries.length - 1 - k + (k + 1) [MOD size] := by
      rw [← apart]
      exact same
    have multiple := (Nat.modEq_iff_dvd' (Nat.zero_le (k + 1))).mp (Nat.ModEq.add_left_cancel' _ round)
    exact absurd (Nat.le_of_dvd (by omega) multiple) (by omega)

end Remembers

end LivlyOS.Lib
