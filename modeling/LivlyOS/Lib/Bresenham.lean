import Mathlib.Data.Int.GCD
import Mathlib.Tactic.Linarith
import Mathlib.Tactic.LinearCombination
import Mathlib.Tactic.Ring

/-! Lines on a grid by Bresenham's error term, in all octants at once: from the same
error both coordinates decide whether they step. Here in exact integers, for a line from
the origin to a point with coordinates that are not negative. -/

namespace LivlyOS.Lib

/-- The steps done along the two axes, and the error. -/
structure Raster where
  i : Int
  j : Int
  err : Int

namespace Raster

def step (dx dy : Int) (r : Raster) : Raster where
  i := if 2 * r.err > -dy then r.i + 1 else r.i
  j := if 2 * r.err < dx then r.j + 1 else r.j
  err := (r.err - if 2 * r.err > -dy then dy else 0) + if 2 * r.err < dx then dx else 0

/-- Exchange the axes. -/
def swap (r : Raster) : Raster := ⟨r.j, r.i, -r.err⟩

theorem step_swap (dx dy : Int) (r : Raster) : r.swap.step dy dx = (r.step dx dy).swap := by
  have east : 2 * -r.err < dy ↔ 2 * r.err > -dy := by omega
  have north : 2 * -r.err > -dx ↔ 2 * r.err < dx := by omega
  unfold step swap
  simp only [east, north]
  congr 1
  split_ifs <;> ring

end Raster

/-- After a number of turns. -/
def raster (dx dy : Int) : Nat → Raster
  | 0 => ⟨0, 0, dx - dy⟩
  | k + 1 => (raster dx dy k).step dx dy

variable {dx dy : Int} {k : Nat}

theorem raster_swap (dx dy : Int) (k : Nat) : raster dy dx k = (raster dx dy k).swap := by
  induction k with
  | zero => simp [raster, Raster.swap]
  | succ k ih => rw [raster, raster, ih, Raster.step_swap]

/-- The error is the signed distance from the line, up to a constant. -/
theorem raster_err (dx dy : Int) (k : Nat) :
    (raster dx dy k).err = dx * ((raster dx dy k).j + 1) - dy * ((raster dx dy k).i + 1) := by
  induction k with
  | zero => simp [raster]
  | succ k ih =>
    rw [raster]
    unfold Raster.step
    dsimp only
    split_ifs <;> linear_combination ih

theorem raster_step_i (dx dy : Int) (k : Nat) :
    (raster dx dy k).i ≤ (raster dx dy (k + 1)).i ∧ (raster dx dy (k + 1)).i ≤ (raster dx dy k).i + 1 := by
  rw [raster]
  unfold Raster.step
  dsimp only
  split_ifs <;> omega

theorem raster_step_j (dx dy : Int) (k : Nat) :
    (raster dx dy k).j ≤ (raster dx dy (k + 1)).j ∧ (raster dx dy (k + 1)).j ≤ (raster dx dy k).j + 1 := by
  have steps := raster_step_i dy dx k
  rw [raster_swap dx dy, raster_swap dx dy] at steps
  exact steps

theorem raster_mono (dx dy : Int) {k l : Nat} (later : k ≤ l) :
    (raster dx dy k).i ≤ (raster dx dy l).i ∧ (raster dx dy k).j ≤ (raster dx dy l).j := by
  induction later with
  | refl => exact ⟨Int.le_refl _, Int.le_refl _⟩
  | step _ ih => exact ⟨Int.le_trans ih.1 (raster_step_i ..).1, Int.le_trans ih.2 (raster_step_j ..).1⟩

/-- On a flat line every turn steps along the first axis, and the error stays in a band as
wide as twice the longer side. -/
theorem raster_flat (low : 0 ≤ dy) (flat : dy ≤ dx) (positive : 0 < dx) (k : Nat) :
    (raster dx dy k).i = k ∧ dx - 2 * dy ≤ 2 * (raster dx dy k).err ∧
      2 * (raster dx dy k).err < 3 * dx - 2 * dy := by
  induction k with
  | zero =>
    refine ⟨rfl, ?_, ?_⟩ <;> simp only [raster] <;> omega
  | succ k ih =>
    obtain ⟨i, bottom, top⟩ := ih
    have err := raster_err dx dy k
    have east : 2 * (raster dx dy k).err > -dy := by
      rcases Int.lt_or_eq_of_le flat with less | diagonal
      · omega
      · -- on the diagonal the error is a multiple of the side
        rw [i] at err
        generalize (raster dx dy k).err = e at err bottom ⊢
        generalize (raster dx dy k).j = j at err
        by_contra stuck
        have opposite : dy * (2 * (j - k) + 1) = 0 := by
          rw [← diagonal] at err bottom
          linarith
        rcases Int.mul_eq_zero.mp opposite with zero | odd <;> omega
    rw [raster]
    unfold Raster.step
    dsimp only
    rw [if_pos east, if_pos east]
    refine ⟨by rw [i]; omega, ?_, ?_⟩ <;> split_ifs <;> omega

/-- A flat line ends after as many turns as it is wide. -/
theorem raster_flat_end (low : 0 ≤ dy) (flat : dy ≤ dx) (positive : 0 < dx) :
    (raster dx dy dx.toNat).i = dx ∧ (raster dx dy dx.toNat).j = dy := by
  obtain ⟨i, bottom, top⟩ := raster_flat low flat positive dx.toNat
  have err := raster_err dx dy dx.toNat
  rw [Int.toNat_of_nonneg (by omega)] at i
  rw [i] at err
  refine ⟨i, ?_⟩
  generalize (raster dx dy dx.toNat).j = j at err ⊢
  have above : 0 ≤ dx * (2 * (j - dy) + 1) := by linarith
  have below : dx * (2 * (j - dy) - 1) < 0 := by linarith
  have high : 0 ≤ 2 * (j - dy) + 1 := by
    by_contra negative
    exact absurd above (Int.not_le.mpr (Int.mul_neg_of_pos_of_neg positive (Int.not_le.mp negative)))
  have small : 2 * (j - dy) - 1 < 0 := by
    by_contra positive'
    exact absurd below (Int.not_lt.mpr (Int.mul_nonneg (Int.le_of_lt positive) (Int.not_lt.mp positive')))
  omega

/-- The turns that a line takes. -/
def lineTurns (dx dy : Int) : Nat := (max dx dy).toNat

theorem raster_end (wide : 0 ≤ dx) (high : 0 ≤ dy) :
    (raster dx dy (lineTurns dx dy)).i = dx ∧ (raster dx dy (lineTurns dx dy)).j = dy := by
  unfold lineTurns
  rcases Int.lt_trichotomy dy dx with flat | diagonal | steep
  · rw [Int.max_eq_left (Int.le_of_lt flat)]
    exact raster_flat_end high (Int.le_of_lt flat) (by omega)
  · rw [diagonal, Int.max_self]
    by_cases point : dx = 0
    · rw [point]
      exact ⟨rfl, rfl⟩
    · exact raster_flat_end wide (Int.le_refl dx) (by omega)
  · rw [Int.max_eq_right (Int.le_of_lt steep), raster_swap dy dx]
    exact (raster_flat_end wide (Int.le_of_lt steep) (by omega)).symm

theorem raster_before_end (wide : 0 ≤ dx) (high : 0 ≤ dy) (before : k < lineTurns dx dy) :
    ¬ ((raster dx dy k).i = dx ∧ (raster dx dy k).j = dy) := by
  unfold lineTurns at before
  rintro ⟨east, north⟩
  rcases Int.le_total dy dx with flat | steep
  · rw [Int.max_eq_left flat] at before
    have i := (raster_flat high flat (by omega) k).1
    omega
  · rw [Int.max_eq_right steep] at before
    have j := (raster_flat wide steep (by omega) k).1
    rw [raster_swap dx dy] at j
    change (raster dx dy k).j = k at j
    omega

theorem raster_bounds (wide : 0 ≤ dx) (high : 0 ≤ dy) (within : k ≤ lineTurns dx dy) :
    (0 ≤ (raster dx dy k).i ∧ (raster dx dy k).i ≤ dx) ∧ 0 ≤ (raster dx dy k).j ∧ (raster dx dy k).j ≤ dy := by
  have first := raster_mono dx dy (Nat.zero_le k)
  have last := raster_mono dx dy within
  obtain ⟨east, north⟩ := raster_end wide high
  rw [east, north] at last
  exact ⟨⟨first.1, last.1⟩, first.2, last.2⟩

/-- Every point is within half a cell of the line, along the shorter axis. -/
theorem raster_near (wide : 0 ≤ dx) (high : 0 ≤ dy) (k : Nat) :
    |2 * (dx * (raster dx dy k).j - dy * (raster dx dy k).i)| ≤ max dx dy := by
  have err := raster_err dx dy k
  rw [abs_le]
  by_cases point : dx = 0 ∧ dy = 0
  · rw [point.1, point.2]
    simp
  rcases Int.le_total dy dx with flat | steep
  · obtain ⟨_, bottom, top⟩ := raster_flat high flat (by omega) k
    rw [Int.max_eq_left flat]
    constructor <;> linarith
  · obtain ⟨_, bottom, top⟩ := raster_flat wide steep (by omega) k
    rw [raster_swap dx dy] at bottom top
    change dy - 2 * dx ≤ 2 * -(raster dx dy k).err at bottom
    change 2 * -(raster dx dy k).err < 3 * dy - 2 * dx at top
    rw [Int.max_eq_right steep]
    constructor <;> linarith

/-- Twice the largest error of a flat line. -/
def linePeak (dx dy : Int) : Int :=
  2 * (Int.gcd dx dy * ((dx / Int.gcd dx dy - 1) / 2)) + 2 * dx - 2 * dy

theorem raster_le_linePeak (low : 0 ≤ dy) (flat : dy ≤ dx) (positive : 0 < dx) (k : Nat) :
    2 * (raster dx dy k).err ≤ linePeak dx dy := by
  obtain ⟨_, _, top⟩ := raster_flat low flat positive k
  have err := raster_err dx dy k
  generalize (raster dx dy k).err = e at err top ⊢
  generalize (raster dx dy k).i = i at err
  generalize (raster dx dy k).j = j at err
  have divisor : 0 < (Int.gcd dx dy : Int) := Int.natCast_pos.mpr (Int.gcd_pos_of_ne_zero_left dy (by omega))
  unfold linePeak
  obtain ⟨D, hD⟩ := Int.gcd_dvd_left dx dy
  obtain ⟨d, hd⟩ := Int.gcd_dvd_right dx dy
  generalize (Int.gcd dx dy : Int) = g at divisor hD hd ⊢
  rw [show dx / g = D by rw [hD, Int.mul_ediv_cancel_left _ (by omega)]]
  -- the error is a multiple of the divisor, up to the constant
  have multiple : e - dx + dy = g * (D * j - d * i) := by rw [err, hD, hd]; ring
  have below : g * (2 * (D * j - d * i)) < g * D := by linarith
  have bound := Int.lt_of_mul_lt_mul_left below (Int.le_of_lt divisor)
  have reached : g * (D * j - d * i) ≤ g * ((D - 1) / 2) :=
    Int.mul_le_mul_of_nonneg_left (by omega) (Int.le_of_lt divisor)
  omega

/-- Some turn before the end has this error: the residues of the line are all met. -/
theorem raster_eq_linePeak (low : 0 ≤ dy) (flat : dy ≤ dx) (positive : 0 < dx) :
    ∃ k : Nat, (k : Int) < dx ∧ 2 * (raster dx dy k).err = linePeak dx dy := by
  have divisor : 0 < (Int.gcd dx dy : Int) := Int.natCast_pos.mpr (Int.gcd_pos_of_ne_zero_left dy (by omega))
  have bezout := Int.gcd_eq_gcd_ab dx dy
  unfold linePeak
  obtain ⟨D, hD⟩ := Int.gcd_dvd_left dx dy
  generalize Int.gcdA dx dy = a at bezout
  generalize Int.gcdB dx dy = b at bezout
  generalize (Int.gcd dx dy : Int) = g at divisor hD bezout ⊢
  rw [show dx / g = D by rw [hD, Int.mul_ediv_cancel_left _ (by omega)]]
  have parts : 0 < D := by
    by_contra none'
    exact absurd positive (Int.not_lt.mpr (hD ▸ Int.mul_nonpos_of_nonneg_of_nonpos (Int.le_of_lt divisor) (by omega)))
  generalize half : (D - 1) / 2 = T
  have start := Int.emod_nonneg (-b * T) (show dx ≠ 0 by omega)
  have short := Int.emod_lt_of_pos (-b * T) positive
  have round := Int.mul_ediv_add_emod (-b * T) dx
  obtain ⟨k, place⟩ := Int.eq_ofNat_of_zero_le start
  rw [place] at short round
  refine ⟨k, short, ?_⟩
  obtain ⟨i, bottom, top⟩ := raster_flat low flat positive k
  have err := raster_err dx dy k
  rw [i] at err
  generalize (raster dx dy k).err = e at err bottom top ⊢
  generalize (raster dx dy k).j = j at err
  generalize (-b * T) / dx = q at round
  -- the residue and its target differ by a multiple of the width, and by less than it
  have apart : e - dx + dy - g * T = dx * (j - a * T + dy * q) := by linear_combination err - T * bezout - dy * round
  have nonneg : 0 ≤ g * T := Int.mul_nonneg (Int.le_of_lt divisor) (by omega)
  have target : g * (2 * T) ≤ g * (D - 1) := Int.mul_le_mul_of_nonneg_left (by omega) (Int.le_of_lt divisor)
  have expand : g * (D - 1) = dx - g := by rw [hD]; ring
  generalize j - a * T + dy * q = m at apart
  have same : m = 0 := by
    rcases Int.lt_trichotomy m 0 with negative | zero | more
    · have := Int.mul_le_mul_of_nonneg_left (show m ≤ -1 by omega) (Int.le_of_lt positive)
      linarith
    · exact zero
    · have := Int.mul_le_mul_of_nonneg_left (show 1 ≤ m by omega) (Int.le_of_lt positive)
      linarith
  rw [same, Int.mul_zero] at apart
  linarith

end LivlyOS.Lib
