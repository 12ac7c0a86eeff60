import LivlyOS.Console.Framebuffer
import LivlyOS.Lib.Bresenham
import Mathlib.Logic.Relation

/-! The lines of `fb_draw_line`. Its loop is the one in exact integers as long as twice the
error fits in an `int`, and this depends on more than the sides of the line. -/

namespace LivlyOS.Console

open LivlyOS.Lib

/-- What is asked of the points drawn from one end to the other. -/
structure LineDrawn (x0 y0 x1 y1 : Int) (visits : List (Int × Int)) : Prop where
  count : (visits.length : Int) = max |x1 - x0| |y1 - y0| + 1
  first : visits.head? = some (x0, y0)
  last : visits.getLast? = some (x1, y1)
  connected : ∀ k p q, visits[k]? = some p → visits[k + 1]? = some q → |q.1 - p.1| ≤ 1 ∧ |q.2 - p.2| ≤ 1
  near : ∀ p ∈ visits, |2 * ((p.2 - y0) * (x1 - x0) - (p.1 - x0) * (y1 - y0))| ≤ max |x1 - x0| |y1 - y0|

/-- Twice the error of largest size fits; on a steep line it is negative. -/
def ErrorFits (dx dy : Int) : Prop := if dy ≤ dx then linePeak dx dy < 2 ^ 31 else linePeak dy dx ≤ 2 ^ 31

/-- The variables that the loop of `fb_draw_line` comes to. -/
def LineReaches (fb : Framebuffer) (x0 y0 x1 y1 : Int) (color : UInt32) (mem : Bytes) : LineState → Prop :=
  let dx := if x1 > x0 then x1 - x0 else x0 - x1
  let dy := if y1 > y0 then y1 - y0 else y0 - y1
  let sx := if x0 < x1 then 1 else -1
  let sy := if y0 < y1 then 1 else -1
  Relation.ReflTransGen (fun st next => lineTurn fb x1 y1 dx dy sx sy color st = .again next) ⟨x0, y0, dx - dy, mem, []⟩

/-- One side of the line: its length, its direction and where it leads. -/
def Side (start stop len dir : Int) : Prop :=
  0 ≤ len ∧ (dir = 1 ∧ stop = start + len ∨ dir = -1 ∧ stop = start - len)

/-- The point of a turn. -/
def linePoint (x0 y0 dx dy sx sy : Int) (k : Nat) : Int × Int :=
  (x0 + sx * (raster dx dy k).i, y0 + sy * (raster dx dy k).j)

/-- The variables before a turn. -/
structure AtTurn (x0 y0 dx dy sx sy : Int) (k : Nat) (st : LineState) : Prop where
  point : (st.x0, st.y0) = linePoint x0 y0 dx dy sx sy k
  err : st.err = (raster dx dy k).err
  visits : st.visits = (List.range k).map (linePoint x0 y0 dx dy sx sy)

section

variable {start stop len dir : Int}

theorem side_of (start stop : Int) :
    Side start stop (if stop > start then stop - start else start - stop) (if start < stop then 1 else -1) := by
  unfold Side
  split_ifs <;> omega

theorem Side.len_eq (side : Side start stop len dir) : |stop - start| = len := by
  obtain ⟨nonneg, ⟨_, rfl⟩ | ⟨_, rfl⟩⟩ := side
  · rw [show start + len - start = len by omega, abs_of_nonneg nonneg]
  · rw [show start - len - start = -len by omega, abs_neg, abs_of_nonneg nonneg]

theorem Side.vector (side : Side start stop len dir) : stop - start = dir * len := by
  obtain ⟨_, ⟨rfl, rfl⟩ | ⟨rfl, rfl⟩⟩ := side <;> omega

theorem Side.between (side : Side start stop len dir) (fits : FitsInt start ∧ FitsInt stop) (low : 0 ≤ i) (high : i ≤ len) :
    FitsInt (start + dir * i) := by
  obtain ⟨⟨_, _⟩, _, _⟩ := fits
  obtain ⟨_, ⟨rfl, rfl⟩ | ⟨rfl, rfl⟩⟩ := side <;> constructor <;> omega

theorem Side.at_end (side : Side start stop len dir) (i : Int) : start + dir * i = stop ↔ i = len := by
  obtain ⟨_, ⟨rfl, rfl⟩ | ⟨rfl, rfl⟩⟩ := side <;> omega

theorem Side.step (side : Side start stop len dir) (steps : i ≤ i' ∧ i' ≤ i + 1) :
    |start + dir * i' - (start + dir * i)| ≤ 1 := by
  obtain ⟨_, ⟨rfl, _⟩ | ⟨rfl, _⟩⟩ := side <;> rw [abs_le] <;> omega

end

section

variable {fb : Framebuffer} {x0 y0 x1 y1 dx dy sx sy : Int} {color : UInt32} {k : Nat} {st : LineState}

theorem linePoint_end (sideX : Side x0 x1 dx sx) (sideY : Side y0 y1 dy sy) :
    linePoint x0 y0 dx dy sx sy (lineTurns dx dy) = (x1, y1) := by
  obtain ⟨east, north⟩ := raster_end sideX.1 sideY.1
  rw [linePoint, (sideX.at_end _).mpr east, (sideY.at_end _).mpr north]

/-- The points of the exact loop are what is asked for. -/
theorem linePoints_drawn (sideX : Side x0 x1 dx sx) (sideY : Side y0 y1 dy sy) :
    LineDrawn x0 y0 x1 y1 ((List.range (lineTurns dx dy + 1)).map (linePoint x0 y0 dx dy sx sy)) := by
  have wide := sideX.1
  have high := sideY.1
  constructor
  · rw [List.length_map, List.length_range, sideX.len_eq, sideY.len_eq, lineTurns]
    omega
  · rw [List.range_succ_eq_map, List.map_cons, List.head?_cons, linePoint]
    simp [raster]
  · rw [List.range_succ, List.map_append, List.map_singleton, List.getLast?_concat, linePoint_end sideX sideY]
  · intro k p q here next
    rw [List.getElem?_map] at here next
    obtain ⟨i, place, rfl⟩ := Option.map_eq_some_iff.mp here
    obtain ⟨j, place', rfl⟩ := Option.map_eq_some_iff.mp next
    obtain ⟨_, rfl⟩ := List.getElem?_eq_some_iff.mp place
    obtain ⟨_, rfl⟩ := List.getElem?_eq_some_iff.mp place'
    rw [List.getElem_range, List.getElem_range]
    exact ⟨sideX.step (raster_step_i dx dy k), sideY.step (raster_step_j dx dy k)⟩
  · intro p member
    obtain ⟨k, _, rfl⟩ := List.mem_map.mp member
    have near := raster_near wide high k
    rw [sideX.len_eq, sideY.len_eq, sideX.vector, sideY.vector, linePoint]
    have signs : sx * sy = 1 ∨ sx * sy = -1 := by
      obtain ⟨_, ⟨rfl, _⟩ | ⟨rfl, _⟩⟩ := sideX <;> obtain ⟨_, ⟨rfl, _⟩ | ⟨rfl, _⟩⟩ := sideY <;> simp
    have factor : 2 * ((y0 + sy * (raster dx dy k).j - y0) * (sx * dx) - (x0 + sx * (raster dx dy k).i - x0) * (sy * dy)) =
        sx * sy * (2 * (dx * (raster dx dy k).j - dy * (raster dx dy k).i)) := by ring
    dsimp only
    rw [factor]
    rcases signs with same | opposite
    · rw [same, one_mul]
      exact near
    · rw [opposite, neg_one_mul, abs_neg]
      exact near

/-- The pixel of a turn. -/
def afterPixel (fb : Framebuffer) (color : UInt32) (st : LineState) : LineState :=
  { st with mem := fbDrawPixel fb st.x0 st.y0 color st.mem, visits := st.visits ++ [(st.x0, st.y0)] }

theorem AtTurn.visited (turn : AtTurn x0 y0 dx dy sx sy k st) (fb : Framebuffer) (color : UInt32) :
    (afterPixel fb color st).visits = (List.range (k + 1)).map (linePoint x0 y0 dx dy sx sy) := by
  rw [List.range_succ, List.map_append, List.map_singleton, ← turn.visits, ← turn.point]
  rfl

theorem AtTurn.x_eq (turn : AtTurn x0 y0 dx dy sx sy k st) : st.x0 = x0 + sx * (raster dx dy k).i :=
  congrArg Prod.fst turn.point

theorem AtTurn.y_eq (turn : AtTurn x0 y0 dx dy sx sy k st) : st.y0 = y0 + sy * (raster dx dy k).j :=
  congrArg Prod.snd turn.point

theorem AtTurn.last (sideX : Side x0 x1 dx sx) (sideY : Side y0 y1 dy sy)
    (turn : AtTurn x0 y0 dx dy sx sy (lineTurns dx dy) st) :
    lineTurn fb x1 y1 dx dy sx sy color st = .leave (some (afterPixel fb color st)) := by
  have point := turn.point.trans (linePoint_end sideX sideY)
  exact if_pos (Prod.mk.inj point)

theorem AtTurn.unfinished (sideX : Side x0 x1 dx sx) (sideY : Side y0 y1 dy sy) (turn : AtTurn x0 y0 dx dy sx sy k st)
    (before : k < lineTurns dx dy) : ¬ (st.x0 = x1 ∧ st.y0 = y1) := by
  rw [turn.x_eq, turn.y_eq, sideX.at_end, sideY.at_end]
  exact raster_before_end sideX.1 sideY.1 before

theorem lineTurn_unfinished (unfinished : ¬ (st.x0 = x1 ∧ st.y0 = y1)) :
    lineTurn fb x1 y1 dx dy sx sy color st =
      (lineStep dx dy sx sy (afterPixel fb color st)).elim (.leave none) .again := if_neg unfinished

/-- When twice the error does not fit, the turn has no result. -/
theorem AtTurn.overflows (sideX : Side x0 x1 dx sx) (sideY : Side y0 y1 dy sy) (turn : AtTurn x0 y0 dx dy sx sy k st)
    (before : k < lineTurns dx dy) (large : ¬ FitsInt (2 * (raster dx dy k).err)) :
    lineTurn fb x1 y1 dx dy sx sy color st = .leave none := by
  have failed : lineStep dx dy sx sy (afterPixel fb color st) = none := by
    change (checkInt (2 * st.err)).bind _ = none
    rw [turn.err, checkInt, if_neg large]
    rfl
  rw [lineTurn_unfinished (turn.unfinished sideX sideY before), failed]
  rfl

/-- The variables after a turn, without overflow. -/
def movedLine (dx dy sx sy : Int) (st : LineState) : LineState :=
  { st with
    err := (st.err - if 2 * st.err > -dy then dy else 0) + if 2 * st.err < dx then dx else 0
    x0 := if 2 * st.err > -dy then st.x0 + sx else st.x0
    y0 := if 2 * st.err < dx then st.y0 + sy else st.y0 }

theorem lineStep_eq (sides : (0 ≤ dx ∧ 0 ≤ dy) ∧ 2 * (dx + dy) < 2 ^ 31) (fits : FitsInt (2 * st.err))
    (xFits : 2 * st.err > -dy → FitsInt (st.x0 + sx)) (yFits : 2 * st.err < dx → FitsInt (st.y0 + sy)) :
    lineStep dx dy sx sy st = some (movedLine dx dy sx sy st) := by
  obtain ⟨⟨wide, high⟩, sum⟩ := sides
  have bottom := fits.1
  have top := fits.2
  have stepX : lineStepX dy sx (2 * st.err) st = some { st with
      err := st.err - if 2 * st.err > -dy then dy else 0
      x0 := if 2 * st.err > -dy then st.x0 + sx else st.x0 } := by
    unfold lineStepX
    split
    · rw [checkInt_eq ⟨by omega, by omega⟩, checkInt_eq (xFits ‹_›)]
      rfl
    · rw [Int.sub_zero]
  rw [lineStep, checkInt_eq fits, Option.bind_some, stepX, Option.bind_some]
  unfold lineStepY movedLine
  split
  · rw [checkInt_eq ⟨by dsimp only; split <;> omega, by dsimp only; split <;> omega⟩, checkInt_eq (yFits ‹_›)]
    rfl
  · rw [Int.add_zero]

/-- The ends are `int`s, and so is twice the sum of the sides. -/
structure SmallLine (x0 y0 x1 y1 dx dy sx sy : Int) : Prop where
  sideX : Side x0 x1 dx sx
  sideY : Side y0 y1 dy sy
  xs : FitsInt x0 ∧ FitsInt x1
  ys : FitsInt y0 ∧ FitsInt y1
  sum : FitsInt (2 * (dx + dy))

theorem AtTurn.next (small : SmallLine x0 y0 x1 y1 dx dy sx sy) (turn : AtTurn x0 y0 dx dy sx sy k st)
    (fb : Framebuffer) (color : UInt32) (before : k < lineTurns dx dy) (fits : FitsInt (2 * (raster dx dy k).err)) :
    ∃ next, lineTurn fb x1 y1 dx dy sx sy color st = .again next ∧ AtTurn x0 y0 dx dy sx sy (k + 1) next := by
  obtain ⟨sideX, sideY, xs, ys, _, sum⟩ := small
  have wide := sideX.1
  have high := sideY.1
  have bounds := raster_bounds wide high before
  have unfinished := turn.unfinished sideX sideY before
  have shifted : raster dx dy (k + 1) = (raster dx dy k).step dx dy := rfl
  have e2 : 2 * st.err = 2 * (raster dx dy k).err := by rw [turn.err]
  obtain ⟨bottom, top⟩ := fits
  rw [← e2] at bottom top
  have xFits : 2 * st.err > -dy → FitsInt (st.x0 + sx) := by
    intro east
    have i : (raster dx dy (k + 1)).i = (raster dx dy k).i + 1 := by
      rw [shifted]
      exact if_pos (e2 ▸ east)
    have between := sideX.between xs bounds.1.1 bounds.1.2
    rw [i, Int.mul_add, Int.mul_one, ← Int.add_assoc, ← turn.x_eq] at between
    exact between
  have yFits : 2 * st.err < dx → FitsInt (st.y0 + sy) := by
    intro north
    have j : (raster dx dy (k + 1)).j = (raster dx dy k).j + 1 := by
      rw [shifted]
      exact if_pos (e2 ▸ north)
    have between := sideY.between ys bounds.2.1 bounds.2.2
    rw [j, Int.mul_add, Int.mul_one, ← Int.add_assoc, ← turn.y_eq] at between
    exact between
  refine ⟨movedLine dx dy sx sy (afterPixel fb color st), ?_, ?_, ?_, turn.visited fb color⟩
  · have moved : lineStep dx dy sx sy (afterPixel fb color st) = some _ :=
      lineStep_eq ⟨⟨wide, high⟩, sum⟩ ⟨bottom, top⟩ xFits yFits
    rw [lineTurn_unfinished unfinished, moved]
    rfl
  · rw [linePoint, shifted]
    unfold Raster.step movedLine afterPixel
    dsimp only
    rw [← turn.err, turn.x_eq, turn.y_eq]
    congr 1 <;> split_ifs <;> ring
  · rw [shifted]
    unfold Raster.step
    dsimp only
    rw [← turn.err]
    rfl

/-- From a turn on, the loop goes to the end when every error on the way fits. -/
theorem AtTurn.finishes (small : SmallLine x0 y0 x1 y1 dx dy sx sy) {rest : Nat}
    (turn : AtTurn x0 y0 dx dy sx sy k st) (fb : Framebuffer) (color : UInt32) (left : k + rest = lineTurns dx dy)
    (fits : ∀ l, k ≤ l → l < lineTurns dx dy → FitsInt (2 * (raster dx dy l).err)) :
    ∃ final, loop (lineTurn fb x1 y1 dx dy sx sy color) (rest + 1) st = some (some final) ∧
      final.visits = (List.range (lineTurns dx dy + 1)).map (linePoint x0 y0 dx dy sx sy) := by
  induction rest generalizing k st with
  | zero =>
    obtain rfl : k = lineTurns dx dy := left
    exact ⟨_, loop_leave (turn.last small.sideX small.sideY) 0, turn.visited fb color⟩
  | succ rest ih =>
    obtain ⟨next, again, turn'⟩ := turn.next small fb color (by omega) (fits k (Nat.le_refl k) (by omega))
    rw [loop_again again]
    exact ih turn' (by omega) fun l later => fits l (by omega)

/-- It never gets past an error that does not fit. -/
theorem AtTurn.fails (small : SmallLine x0 y0 x1 y1 dx dy sx sy) {l : Nat} (turn : AtTurn x0 y0 dx dy sx sy k st)
    (later : k ≤ l) (before : l < lineTurns dx dy) (large : ¬ FitsInt (2 * (raster dx dy l).err)) (fuel : Nat) :
    (loop (lineTurn fb x1 y1 dx dy sx sy color) fuel st).join = none := by
  induction fuel generalizing k st with
  | zero => rfl
  | succ fuel ih =>
    by_cases fits : FitsInt (2 * (raster dx dy k).err)
    · obtain ⟨next, again, turn'⟩ := turn.next small fb color (by omega) fits
      rw [loop_again again]
      have other : k ≠ l := fun same => large (same ▸ fits)
      exact ih turn' (by omega)
    · rw [loop_leave (turn.overflows small.sideX small.sideY (by omega) fits)]
      rfl

/-- As long as the errors fit, the loop comes to the turn. -/
theorem AtTurn.reached (small : SmallLine x0 y0 x1 y1 dx dy sx sy) (turn : AtTurn x0 y0 dx dy sx sy 0 st)
    (fb : Framebuffer) (color : UInt32) (within : k ≤ lineTurns dx dy)
    (fits : ∀ l, l < k → FitsInt (2 * (raster dx dy l).err)) :
    ∃ last, Relation.ReflTransGen (fun st next => lineTurn fb x1 y1 dx dy sx sy color st = .again next) st last ∧
      AtTurn x0 y0 dx dy sx sy k last := by
  induction k with
  | zero => exact ⟨st, .refl, turn⟩
  | succ k ih =>
    obtain ⟨mid, path, turn'⟩ := ih (Nat.le_of_succ_le within) fun l before => fits l (Nat.lt_succ_of_lt before)
    obtain ⟨last, again, turn''⟩ := turn'.next small fb color within (fits k (Nat.lt_succ_self k))
    exact ⟨last, path.tail again, turn''⟩

/-- So it comes to the first error that does not fit. -/
theorem AtTurn.reaches_overflow (small : SmallLine x0 y0 x1 y1 dx dy sx sy) (turn : AtTurn x0 y0 dx dy sx sy 0 st)
    (fb : Framebuffer) (color : UInt32) (large : ¬∀ k, k < lineTurns dx dy → FitsInt (2 * (raster dx dy k).err)) :
    ∃ last, Relation.ReflTransGen (fun st next => lineTurn fb x1 y1 dx dy sx sy color st = .again next) st last ∧
      ¬(last.x0 = x1 ∧ last.y0 = y1) ∧ ¬FitsInt (2 * last.err) := by
  have overflow : ∃ k, k < lineTurns dx dy ∧ ¬FitsInt (2 * (raster dx dy k).err) := by
    simpa only [not_forall, exists_prop] using large
  obtain ⟨before, first⟩ := Nat.find_spec overflow
  obtain ⟨last, path, turn⟩ := turn.reached small fb color (Nat.le_of_lt before) fun l earlier =>
    not_not.mp fun wrong => Nat.find_min overflow earlier ⟨Nat.lt_trans earlier before, wrong⟩
  refine ⟨last, path, turn.unfinished small.sideX small.sideY before, ?_⟩
  rw [turn.err]
  exact first

theorem errors_fit_iff (wide : 0 ≤ dx) (high : 0 ≤ dy) (sum : 2 * (dx + dy) < 2 ^ 31) :
    (∀ k, k < lineTurns dx dy → FitsInt (2 * (raster dx dy k).err)) ↔ ErrorFits dx dy := by
  unfold ErrorFits lineTurns
  by_cases point : max dx dy = 0
  · have still : (dx, dy) = (0, 0) := Prod.ext (by dsimp only; omega) (by dsimp only; omega)
    cases still
    exact ⟨fun _ => by decide, fun _ k before => absurd before (Nat.not_lt_zero k)⟩
  by_cases flat : dy ≤ dx
  · rw [if_pos flat, Int.max_eq_left flat]
    obtain ⟨k, before, reached⟩ := raster_eq_linePeak high flat (by omega)
    constructor
    · intro fits
      rw [← reached]
      exact (fits k (by omega)).2
    · intro fits l _
      have bottom := (raster_flat high flat (by omega) l).2.1
      have top := raster_le_linePeak high flat (by omega) l
      exact ⟨by omega, by omega⟩
  · have steep : dx ≤ dy := by omega
    rw [if_neg flat, Int.max_eq_right steep]
    have swapped (l : Nat) : (raster dx dy l).err = -(raster dy dx l).err := by
      rw [raster_swap dx dy l]
      exact (Int.neg_neg _).symm
    obtain ⟨k, before, reached⟩ := raster_eq_linePeak wide steep (by omega)
    constructor
    · intro fits
      have bottom := (fits k (by omega)).1
      rw [swapped] at bottom
      omega
    · intro fits l _
      have bottom := (raster_flat wide steep (by omega) l).2.1
      have top := raster_le_linePeak wide steep (by omega) l
      rw [swapped]
      exact ⟨by omega, by omega⟩

theorem fbDrawLine_eq (small : SmallLine x0 y0 x1 y1 (if x1 > x0 then x1 - x0 else x0 - x1)
    (if y1 > y0 then y1 - y0 else y0 - y1) (if x0 < x1 then 1 else -1) (if y0 < y1 then 1 else -1)) (mem : Bytes)
    (fuel : Nat) :
    fbDrawLine fb x0 y0 x1 y1 color mem fuel =
      (loop (lineTurn fb x1 y1 (if x1 > x0 then x1 - x0 else x0 - x1) (if y1 > y0 then y1 - y0 else y0 - y1)
        (if x0 < x1 then 1 else -1) (if y0 < y1 then 1 else -1) color) fuel
        ⟨x0, y0, (if x1 > x0 then x1 - x0 else x0 - x1) - (if y1 > y0 then y1 - y0 else y0 - y1), mem, []⟩).join := by
  have wide := small.sideX.1
  have high := small.sideY.1
  have sum := small.sum.2
  unfold fbDrawLine
  generalize (if x1 > x0 then x1 - x0 else x0 - x1) = dx at *
  generalize (if y1 > y0 then y1 - y0 else y0 - y1) = dy at *
  rw [checkInt_eq ⟨by omega, by omega⟩, checkInt_eq ⟨by omega, by omega⟩]
  change (checkInt (dx - dy)).bind _ = _
  rw [checkInt_eq ⟨by omega, by omega⟩]
  rfl

end

section

variable {x0 y0 x1 y1 : Int} (fb : Framebuffer) (color : UInt32) (mem : Bytes)

theorem smallLine_of (xs : FitsInt x0 ∧ FitsInt x1) (ys : FitsInt y0 ∧ FitsInt y1)
    (sum : FitsInt (2 * (|x1 - x0| + |y1 - y0|))) :
    SmallLine x0 y0 x1 y1 (if x1 > x0 then x1 - x0 else x0 - x1) (if y1 > y0 then y1 - y0 else y0 - y1)
      (if x0 < x1 then 1 else -1) (if y0 < y1 then 1 else -1) := by
  have sideX := side_of x0 x1
  have sideY := side_of y0 y1
  refine ⟨sideX, sideY, xs, ys, ?_⟩
  rw [← sideX.len_eq, ← sideY.len_eq]
  exact sum

theorem firstTurn (x0 y0 dx dy sx sy : Int) (mem : Bytes) : AtTurn x0 y0 dx dy sx sy 0 ⟨x0, y0, dx - dy, mem, []⟩ :=
  ⟨by simp [linePoint, raster], rfl, rfl⟩

/-- A line with an error that does not fit is never finished. -/
theorem fbDrawLine_fails (xs : FitsInt x0 ∧ FitsInt x1) (ys : FitsInt y0 ∧ FitsInt y1)
    (sum : FitsInt (2 * (|x1 - x0| + |y1 - y0|))) (before : k < lineTurns |x1 - x0| |y1 - y0|)
    (large : ¬ FitsInt (2 * (raster |x1 - x0| |y1 - y0| k).err)) (fuel : Nat) :
    fbDrawLine fb x0 y0 x1 y1 color mem fuel = none := by
  have small := smallLine_of xs ys sum
  rw [small.sideX.len_eq, small.sideY.len_eq] at before large
  rw [fbDrawLine_eq small]
  exact (firstTurn x0 y0 _ _ _ _ mem).fails small (Nat.zero_le k) before large fuel

/-- Such a line comes to the first of these errors in front of its end. -/
theorem lineReaches_overflow (xs : FitsInt x0 ∧ FitsInt x1) (ys : FitsInt y0 ∧ FitsInt y1)
    (sum : FitsInt (2 * (|x1 - x0| + |y1 - y0|))) (large : ¬ErrorFits |x1 - x0| |y1 - y0|) :
    ∃ st, LineReaches fb x0 y0 x1 y1 color mem st ∧ ¬(st.x0 = x1 ∧ st.y0 = y1) ∧ ¬FitsInt (2 * st.err) := by
  have small := smallLine_of xs ys sum
  rw [small.sideX.len_eq, small.sideY.len_eq, ← errors_fit_iff small.sideX.1 small.sideY.1 small.sum.2] at large
  exact (firstTurn x0 y0 _ _ _ _ mem).reaches_overflow small fb color large

/-- Lines whose sides fit in an `int` twice over are drawn as asked for exactly when twice the
largest error fits as well; the loop comes to an error that does not fit otherwise. -/
theorem draw_line_iff (xs : FitsInt x0 ∧ FitsInt x1) (ys : FitsInt y0 ∧ FitsInt y1)
    (sum : FitsInt (2 * (|x1 - x0| + |y1 - y0|))) :
    ((∃ fuel final, fbDrawLine fb x0 y0 x1 y1 color mem fuel = some final ∧ LineDrawn x0 y0 x1 y1 final.visits) ↔
      ErrorFits |x1 - x0| |y1 - y0|) ∧
    (¬ErrorFits |x1 - x0| |y1 - y0| → ∃ st, LineReaches fb x0 y0 x1 y1 color mem st ∧
      ¬(st.x0 = x1 ∧ st.y0 = y1) ∧ ¬FitsInt (2 * st.err)) := by
  refine ⟨?_, lineReaches_overflow fb color mem xs ys sum⟩
  have small := smallLine_of xs ys sum
  have sides := errors_fit_iff small.sideX.1 small.sideY.1 small.sum.2
  constructor
  · rintro ⟨fuel, final, drawn, _⟩
    rw [small.sideX.len_eq, small.sideY.len_eq, ← sides, ← small.sideX.len_eq, ← small.sideY.len_eq]
    intro k before
    by_contra large
    rw [fbDrawLine_fails fb color mem xs ys sum before large fuel] at drawn
    cases drawn
  · intro fits
    rw [small.sideX.len_eq, small.sideY.len_eq, ← sides] at fits
    obtain ⟨final, finished, visits⟩ := (firstTurn x0 y0 _ _ _ _ mem).finishes small fb color (Nat.zero_add _) fun l _ => fits l
    have drawn := (fbDrawLine_eq small mem _).trans (congrArg Option.join finished)
    exact ⟨_, final, drawn, by rw [visits]; exact linePoints_drawn small.sideX small.sideY⟩

end

/-- A framebuffer of 8 by 8 pixels, in rows of 64 bytes. -/
def squareFramebuffer : Framebuffer := ⟨0xE0000000, 8, 8, 64, by decide, by decide, by decide, by decide, by decide⟩

theorem draw_line_slope :
    (∃ fuel final, fbDrawLine squareFramebuffer 0 0 5 2 0xFFFFFF (fun _ => 0) fuel = some final ∧
      LineDrawn 0 0 5 2 final.visits) ∧
    ∃ st, LineReaches squareFramebuffer 0 0 840000000 140000001 0xFFFFFF (fun _ => 0) st ∧
      ¬(st.x0 = 840000000 ∧ st.y0 = 140000001) ∧ ¬FitsInt (2 * st.err) := by
  have flat : ErrorFits |5 - 0| |2 - 0| := by
    unfold ErrorFits
    decide +kernel
  have long : ¬ErrorFits |840000000 - 0| |140000001 - 0| := by
    unfold ErrorFits
    decide +kernel
  exact ⟨(draw_line_iff squareFramebuffer 0xFFFFFF _ (by decide) (by decide) (by decide)).1.mpr flat,
    (draw_line_iff squareFramebuffer 0xFFFFFF _ (by decide) (by decide) (by decide)).2 long⟩

/-- The sides of this line fit, but in the fourth turn twice the error does not. -/
theorem long_line_overflows :
    FitsInt (2 * (|840000000 - 0| + |140000001 - 0|)) ∧
      ¬ ∃ fuel final, fbDrawLine squareFramebuffer 0 0 840000000 140000001 0xFFFFFF (fun _ => 0) fuel = some final ∧
        LineDrawn 0 0 840000000 140000001 final.visits := by
  have sum : FitsInt (2 * (|840000000 - 0| + |140000001 - 0|)) := by decide
  refine ⟨sum, ?_⟩
  rintro ⟨fuel, final, drawn, _⟩
  have failed := fbDrawLine_fails (k := 3) squareFramebuffer 0xFFFFFF (fun _ => 0) (by decide) (by decide) sum
    (by decide) (by decide) fuel
  rw [failed] at drawn
  cases drawn

end LivlyOS.Console
