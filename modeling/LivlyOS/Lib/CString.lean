import LivlyOS.Lib.Cells

namespace LivlyOS.Lib

variable [OfNat α 0] [DecidableEq α]

/-- Read on from cell `i` up to a zero, through `left` cells at most. -/
def stringFrom (size : Int) (cells : Int → α) : (left : Nat) → (i : Int) → Option (List α)
  | 0, _ => none
  | left + 1, i =>
    (readCell size cells i).bind fun c =>
      if c = 0 then some [] else (stringFrom size cells left (i + 1)).map (c :: ·)

/-- The string at the start of an array, nothing when the array has no zero. -/
def cString (size : Nat) (cells : Int → α) : Option (List α) := stringFrom size cells size 0

theorem stringFrom_spells {cells : Int → α} {text : List α} (spells : Spells cells i text) (nonzero : 0 ∉ text)
    (ended : cells (i + text.length) = 0) (low : 0 ≤ i) (high : i + text.length < size) (enough : text.length < left) :
    stringFrom size cells left i = some text := by
  induction text generalizing i left with
  | nil =>
    obtain ⟨left, rfl⟩ := Nat.exists_eq_succ_of_ne_zero (Nat.ne_of_gt enough)
    simp only [List.length_nil, Int.natCast_zero, Int.add_zero] at ended high
    unfold stringFrom
    rw [readCell_eq cells ⟨low, high⟩, Option.bind_some, if_pos ended]
  | cons c rest ih =>
    obtain ⟨left, rfl⟩ := Nat.exists_eq_succ_of_ne_zero (Nat.ne_of_gt (Nat.zero_lt_of_lt enough))
    obtain ⟨first, later⟩ := spells
    rw [List.mem_cons, not_or] at nonzero
    rw [List.length_cons] at ended high enough
    unfold stringFrom
    rw [readCell_eq cells ⟨low, by omega⟩, Option.bind_some, first, if_neg (Ne.symm nonzero.1)]
    have tail := @ih (i + 1) left later nonzero.2
      (by rw [show i + 1 + (rest.length : Int) = i + (rest.length + 1 : Nat) by omega]; exact ended)
      (by omega) (by omega) (by omega)
    rw [tail, Option.map_some]

/-- An array that spells a text and a zero behind it holds that text. -/
theorem cString_spells {cells : Int → α} {text : List α} (spells : Spells cells 0 text) (nonzero : 0 ∉ text)
    (ended : cells text.length = 0) (fits : text.length < size) : cString size cells = some text := by
  apply stringFrom_spells spells nonzero _ (Int.le_refl 0) _ fits
  · rw [Int.zero_add]
    exact ended
  · omega

theorem stringFrom_length {size : Int} {cells : Int → α} {text : List α}
    (read : stringFrom size cells left i = some text) : text.length < left := by
  induction left generalizing i text with
  | zero => cases read
  | succ left ih =>
    obtain ⟨c, _, rest⟩ := Option.bind_eq_some_iff.mp read
    split at rest
    · cases rest
      exact Nat.succ_pos left
    · obtain ⟨later, tail, rfl⟩ := Option.map_eq_some_iff.mp rest
      exact Nat.succ_lt_succ (ih tail)

theorem cString_length {cells : Int → α} {text : List α} (read : cString size cells = some text) :
    text.length < size := stringFrom_length read

end LivlyOS.Lib
