import LivlyOS.Apps.EditorScreen
import LivlyOS.Apps.EditorEffects

namespace LivlyOS.Apps

open LivlyOS.Lib

/-- The character shown in column `x` of row `ty`. -/
def shownChar (ed : EditorState) (ty x : Int) : UInt8 := if x < shownLen ed ty then ed.lines ty x else 32

/-- What a row that is drawn whole holds in column `x`. -/
def rowCell (ed : EditorState) (ty x : Int) : UInt8 × CellColor :=
  (shownChar ed ty x, if x < shownLen ed ty ∧ edIsSelected ed x ty = true then .selected else .normal)

/-- Row `ty` is in the view. -/
def InView (display : Display) (ed : EditorState) (ty : Int) : Prop :=
  ed.viewTop ≤ ty ∧ ty < ed.viewTop + display.viewHeight

/-- The screen shows row `ty` as it is. -/
structure RowDrawn (display : Display) (ed : EditorState) (ty : Int) : Prop where
  fits : shownLen ed ty ≤ 78
  cells : ∀ x, 0 ≤ x → x < display.width → ed.screen (ty - ed.viewTop) x = rowCell ed ty x

/-- The screen shows every row of the view as it is. -/
def Fresh (display : Display) (ed : EditorState) : Prop :=
  ∀ ty, InView display ed ty → ty < 200 → 0 ≤ ty ∧ RowDrawn display ed ty

/-- The rows of the view that the next drawing leaves out are shown as they are. -/
def Pending (display : Display) (ed : EditorState) : Prop :=
  ∀ ty, InView display ed ty → 0 ≤ ty → ty < 200 → ed.lineDirty ty = 0 → ¬InSelection ed ty → RowDrawn display ed ty

theorem Fresh.pending (fresh : Fresh display ed) : Pending display ed :=
  fun ty view _ inside _ _ => (fresh ty view inside).2

/-- The columns from `lo` below `hi` of row `sy` hold the given cells, the rest what it held. -/
structure Painted (screen : Screen) (sy lo hi : Int) (cell : Int → UInt8 × CellColor) (screen' : Screen) : Prop where
  cells : ∀ x, lo ≤ x → x < hi → screen' sy x = cell x
  others : ∀ y x, y ≠ sy ∨ x < lo ∨ hi ≤ x → screen' y x = screen y x

namespace Painted

theorem nothing (screen : Screen) (sy lo : Int) (cell : Int → UInt8 × CellColor) : Painted screen sy lo lo cell screen :=
  ⟨fun _ low high => absurd low (Int.not_le.mpr high), fun _ _ _ => rfl⟩

theorem write (painted : Painted screen sy lo i cell mid) (low : lo ≤ i) :
    Painted screen sy lo (i + 1) cell (writeAt i sy (cell i).1 (cell i).2 mid) where
  cells := by
    intro x left right
    by_cases here : x = i
    · simp [writeAt, here]
    · simpa [writeAt, here] using painted.cells x left (by omega)
  others := by
    intro y x outside
    by_cases row : y = sy
    · subst row
      have here : x ≠ i := by omega
      simpa [writeAt, here] using painted.others y x (by omega)
    · simpa [writeAt, row] using painted.others y x (.inl row)

theorem of_max (painted : Painted screen sy lo (max lo hi) cell screen') : Painted screen sy lo hi cell screen' :=
  ⟨fun x left right => painted.cells x left (by omega), fun y x outside => painted.others y x (by omega)⟩

end Painted

/-- What `ed_render` shows of the character in column `x` of a line. -/
def lineCell (ed : EditorState) (ty x : Int) : UInt8 × CellColor :=
  (ed.lines ty x, if edIsSelected ed x ty then .selected else .normal)

theorem drawLine_result (ran : drawLine ed ty sy len screen = some screen') :
    len ≤ 78 ∧ Painted screen sy 0 len (lineCell ed ty) screen' := by
  have turn : ∀ i (mid next : Screen), 0 ≤ i → i < len → (i ≤ 78 ∧ Painted screen sy 0 i (lineCell ed ty) mid) →
      (do
        let c ← charAt 200 ed.lines ty i
        some (writeAt i sy c (if edIsSelected ed i ty then .selected else .normal) mid)) = some next →
      i + 1 ≤ 78 ∧ Painted screen sy 0 (i + 1) (lineCell ed ty) next := by
    intro i mid next low _ before step
    obtain ⟨c, read, written⟩ := Option.bind_eq_some_iff.mp step
    unfold charAt at read
    split at read
    · rename_i inside
      obtain rfl := Option.some.inj read
      obtain rfl := Option.some.inj written
      exact ⟨inside.2.2, before.2.write low⟩
    · cases read
  have drawn := forUp_result _ turn ⟨by decide, Painted.nothing screen sy 0 _⟩ ran
  exact ⟨by omega, drawn.2.of_max⟩

theorem drawBlanks_result (ran : drawBlanks sy lo hi screen = some screen') :
    Painted screen sy lo hi (fun _ => (32, .normal)) screen' := by
  have turn : ∀ i (mid next : Screen), lo ≤ i → i < hi → Painted screen sy lo i (fun _ => (32, .normal)) mid →
      some (writeAt i sy 32 .normal mid) = some next → Painted screen sy lo (i + 1) (fun _ => (32, .normal)) next := by
    intro i mid next low _ before step
    obtain rfl := Option.some.inj step
    exact before.write low
  exact (forUp_result _ turn (Painted.nothing screen sy lo _) ran).of_max

theorem drawRow_result (line : drawLine ed ty sy (shownLen ed ty) screen = some screen1)
    (blanks : drawBlanks sy (shownLen ed ty) width screen1 = some screen') :
    shownLen ed ty ≤ 78 ∧ (∀ y, y ≠ sy → screen' y = screen y) ∧
      ∀ x, 0 ≤ x → x < width → screen' sy x = rowCell ed ty x := by
  obtain ⟨short, text⟩ := drawLine_result line
  have rest := drawBlanks_result blanks
  refine ⟨short, fun y other => ?_, fun x low high => ?_⟩
  · funext x
    exact (rest.others y x (.inl other)).trans (text.others y x (.inl other))
  · by_cases shown : x < shownLen ed ty
    · rw [rest.others sy x (.inr (.inl shown)), text.cells x low shown]
      simp [rowCell, shownChar, lineCell, shown]
    · rw [rest.cells x (Int.not_lt.mp shown) high]
      simp [rowCell, shownChar, shown]

/-- What one turn of the drawing loop does. -/
structure RowRendered (display : Display) (ed : EditorState) (sy : Int) (view view' : (Int → UInt8) × Screen) : Prop where
  marks : ∀ ty, ty ≠ ed.viewTop + sy → view'.1 ty = view.1 ty
  others : ∀ y, y ≠ sy → view'.2 y = view.2 y
  beyond : 200 ≤ ed.viewTop + sy → view'.2 sy = view.2 sy
  inside : ed.viewTop + sy < 200 → 0 ≤ ed.viewTop + sy
  drawn : ed.viewTop + sy < 200 → view.1 (ed.viewTop + sy) ≠ 0 ∨ InSelection ed (ed.viewTop + sy) →
    shownLen ed (ed.viewTop + sy) ≤ 78 ∧
      ∀ x, 0 ≤ x → x < display.width → view'.2 sy x = rowCell ed (ed.viewTop + sy) x
  left : view.1 (ed.viewTop + sy) = 0 → ¬InSelection ed (ed.viewTop + sy) → view'.2 sy = view.2 sy

theorem renderRow_result (ran : renderRow display ed sy view = some view') : RowRendered display ed sy view view' := by
  obtain ⟨lineDirty, screen⟩ := view
  by_cases beyond : 200 ≤ ed.viewTop + sy
  · have stays : renderRow display ed sy (lineDirty, screen) = some (lineDirty, screen) := if_pos beyond
    obtain rfl := Option.some.inj (stays.symm.trans ran)
    exact ⟨fun _ _ => rfl, fun _ _ => rfl, fun _ => rfl, fun inside => absurd beyond (Int.not_le.mpr inside),
      fun inside => absurd beyond (Int.not_le.mpr inside), fun _ _ => rfl⟩
  · have inside : 0 ≤ ed.viewTop + sy ∧ ed.viewTop + sy < 200 := by
      rw [renderRow, if_neg beyond] at ran
      obtain ⟨_, read, _⟩ := Option.bind_eq_some_iff.mp ran
      exact (readCell_some read).1
    rw [renderRow_eq display inside] at ran
    split at ran
    · rename_i flagged
      obtain ⟨screen1, line, ran⟩ := Option.bind_eq_some_iff.mp ran
      obtain ⟨screen2, blanks, ⟨⟩⟩ := Option.bind_eq_some_iff.mp ran
      obtain ⟨short, others, cells⟩ := drawRow_result line blanks
      refine ⟨fun ty other => Function.update_of_ne other _ _, others, ?_, fun _ => inside.1, fun _ _ => ⟨short, cells⟩, ?_⟩
      · exact fun large => absurd large beyond
      · exact fun clean outside => absurd flagged (not_or.mpr ⟨not_not.mpr clean, outside⟩)
    · rename_i plain
      obtain ⟨⟩ := ran
      exact ⟨fun _ _ => rfl, fun _ _ => rfl, fun _ => rfl, fun _ => inside.1, fun _ flagged => absurd flagged plain,
        fun _ _ => rfl⟩

/-- The rows that are drawn are those of the view that are marked or selected. -/
theorem renderRows_result (ran : forUp 0 display.viewHeight (renderRow display ed) (marks, screen) = some (marks', screen'))
    (low : 0 ≤ sy) (high : sy < display.viewHeight) :
    ∃ view view', RowRendered display ed sy view view' ∧ view.1 (ed.viewTop + sy) = marks (ed.viewTop + sy) ∧
      view.2 sy = screen sy ∧ screen' sy = view'.2 sy := by
  have kept : ∀ i (mid next : (Int → UInt8) × Screen), 0 ≤ i → i < display.viewHeight →
      ((sy < i → ∃ view view', RowRendered display ed sy view view' ∧
          view.1 (ed.viewTop + sy) = marks (ed.viewTop + sy) ∧ view.2 sy = screen sy ∧ mid.2 sy = view'.2 sy) ∧
        (i ≤ sy → mid.1 (ed.viewTop + sy) = marks (ed.viewTop + sy) ∧ mid.2 sy = screen sy)) →
      renderRow display ed i mid = some next →
      (sy < i + 1 → ∃ view view', RowRendered display ed sy view view' ∧
          view.1 (ed.viewTop + sy) = marks (ed.viewTop + sy) ∧ view.2 sy = screen sy ∧ next.2 sy = view'.2 sy) ∧
        (i + 1 ≤ sy → next.1 (ed.viewTop + sy) = marks (ed.viewTop + sy) ∧ next.2 sy = screen sy) := by
    intro i mid next _ _ before step
    have turn := renderRow_result step
    constructor
    · intro behind
      by_cases here : sy = i
      · subst here
        obtain ⟨mark, row⟩ := before.2 (Int.le_refl sy)
        exact ⟨mid, next, turn, mark, row, rfl⟩
      · obtain ⟨view, view', rendered, mark, row, same⟩ := before.1 (by omega)
        exact ⟨view, view', rendered, mark, row, (turn.others sy here).trans same⟩
    · intro ahead
      obtain ⟨mark, row⟩ := before.2 (by omega)
      exact ⟨(turn.marks _ (by omega)).trans mark, (turn.others sy (by omega)).trans row⟩
  have rows := forUp_result _ kept ⟨fun behind => absurd low (Int.not_le.mpr behind), fun _ => ⟨rfl, rfl⟩⟩ ran
  exact rows.1 (by omega)

theorem writeStrAt_row (other : y ≠ row) (x : Int) (text : List UInt8) (screen : Screen) :
    writeStrAt x row text screen y = screen y := by
  induction text generalizing x screen with
  | nil => rfl
  | cons c rest ih =>
    rw [writeStrAt, ih]
    exact Function.update_of_ne other ..

theorem edDrawStatus_row (other : y ≠ display.statusRow) (ed : EditorState) :
    (edDrawStatus display ed).screen y = ed.screen y := by
  unfold edDrawStatus
  split
  · dsimp only
    rw [writeStrAt_row other, writeStrAt_row other]
    exact Function.update_of_ne other ..
  · rfl

theorem edDrawStatusFull_row (other : y ≠ display.statusRow) (ed : EditorState) :
    (edDrawStatusFull display ed).screen y = ed.screen y := by
  unfold edDrawStatusFull
  rw [edDrawStatus_row other]
  dsimp only
  rw [writeStrAt_row other, writeStrAt_row other]

theorem edRender_row (ran : edRender display ed = some ed') (sy : Int) (low : 0 ≤ sy) (high : sy < display.viewHeight) :
    ∃ view view', RowRendered display ed sy view view' ∧ view.1 (ed.viewTop + sy) = ed.lineDirty (ed.viewTop + sy) ∧
      view.2 sy = ed.screen sy ∧ ed'.screen sy = view'.2 sy := by
  obtain ⟨lineDirty, screen, rows, rfl⟩ := edRender_some ran
  obtain ⟨view, view', rendered, mark, row, same⟩ := renderRows_result rows low high
  refine ⟨view, view', rendered, mark, row, Eq.trans ?_ same⟩
  split
  · exact edDrawStatus_row (by unfold Display.statusRow; unfold Display.viewHeight at high; omega) _
  · rfl

theorem Drawn.rowCell_eq {ed ed' : EditorState} (drawn : Drawn ed ed') (ty x : Int) :
    rowCell ed' ty x = rowCell ed ty x := by
  obtain ⟨_, _, _, _, _, _, rfl⟩ := drawn
  rfl

theorem edRender_fresh (pending : Pending display ed) (ran : edRender display ed = some ed') : Fresh display ed' := by
  have drawn := edRender_drawn ran
  have top : ed'.viewTop = ed.viewTop := by
    obtain ⟨_, _, _, _, _, _, rfl⟩ := drawn
    rfl
  have length : ∀ ty, shownLen ed' ty = shownLen ed ty := by
    obtain ⟨_, _, _, _, _, _, rfl⟩ := drawn
    exact fun _ => rfl
  intro ty view inside
  unfold InView at view
  rw [top] at view
  obtain ⟨before, after, rendered, mark, row, same⟩ := edRender_row ran (ty - ed.viewTop) (by omega) (by omega)
  have here : ed.viewTop + (ty - ed.viewTop) = ty := by omega
  have start := rendered.inside
  have redrawn := rendered.drawn
  have left := rendered.left
  rw [here] at start redrawn left mark
  refine ⟨start inside, ?_⟩
  by_cases flagged : before.1 ty ≠ 0 ∨ InSelection ed ty
  · obtain ⟨short, cells⟩ := redrawn inside flagged
    refine ⟨by rw [length]; exact short, fun x low high => ?_⟩
    rw [top, same, cells x low high, drawn.rowCell_eq]
  · obtain ⟨clean, outside⟩ := not_or.mp flagged
    rw [not_not] at clean
    have old := pending ty view (start inside) inside (mark.symm.trans clean) outside
    refine ⟨by rw [length]; exact old.fits, fun x low high => ?_⟩
    rw [top, same, left clean outside, row, old.cells x low high, drawn.rowCell_eq]

/-- A full redraw is a drawing with every row marked, from a screen that is the same in the view. -/
theorem edRenderFull_some (ran : edRenderFull display ed = some full) :
    ∃ ed1, edRender display ed1 = some full ∧ Drawn ed ed1 ∧ (∀ ty, 0 ≤ ty → ty < 200 → ed1.lineDirty ty ≠ 0) ∧
      ∀ y, y < display.viewHeight → ed1.screen y = ed.screen y := by
  simp only [edRenderFull, bind, Option.bind_eq_some_iff] at ran
  obtain ⟨lineDirty, marked, ran⟩ := ran
  have status := edDrawStatusFull_drawn display { ed with
    lineDirty, statusDirty := 1
    screen := writeStrAt 0 display.viewHeight (List.replicate display.width.toNat 45) ed.screen }
  refine ⟨_, ran, Drawn.trans ⟨_, _, _, _, _, _, rfl⟩ status, fun ty low high => ?_, fun y above => ?_⟩
  · have marks : ∀ ed1 : EditorState, (edDrawStatusFull display ed1).lineDirty = ed1.lineDirty := by
      intro ed1
      unfold edDrawStatusFull edDrawStatus
      dsimp only
      split
      · rfl
      · rfl
    rw [marks]
    intro clean
    obtain ⟨_, outside⟩ := markLines_mark marked clean
    omega
  · have line : y ≠ display.viewHeight := Int.ne_of_lt above
    rw [edDrawStatusFull_row line]
    exact writeStrAt_row line ..

/-- After a full redraw the whole view is up to date. -/
theorem edRenderFull_fresh (ran : edRenderFull display ed = some full) : Fresh display full := by
  obtain ⟨ed1, rendered, _, marked, _⟩ := edRenderFull_some ran
  exact edRender_fresh (fun ty _ low high clean _ => absurd clean (marked ty low high)) rendered

theorem edRenderFull_cells (ran : edRenderFull display ed = some full) (low : 0 ≤ y) (high : y < display.viewHeight) :
    (ed.viewTop + y < 200 → ∀ x, 0 ≤ x → x < display.width → full.screen y x = rowCell ed (ed.viewTop + y) x) ∧
      (200 ≤ ed.viewTop + y → full.screen y = ed.screen y) := by
  obtain ⟨ed1, rendered, drawn, marked, same⟩ := edRenderFull_some ran
  obtain ⟨before, after, turn, mark, row, shown⟩ := edRender_row rendered y low high
  have top : ed1.viewTop = ed.viewTop := by
    obtain ⟨_, _, _, _, _, _, rfl⟩ := drawn
    rfl
  have beyond := turn.beyond
  have start := turn.inside
  have redrawn := turn.drawn
  rw [top] at beyond start redrawn mark
  constructor
  · intro inside x left right
    have flagged : before.1 (ed.viewTop + y) ≠ 0 := by
      rw [mark]
      exact marked _ (start inside) inside
    rw [shown, (redrawn inside (.inl flagged)).2 x left right, drawn.rowCell_eq]
  · intro outside
    rw [shown, beyond outside, row, same y high]

/-- What `ed_render_full` would draw for the state, in the rows of the view, is on the screen. -/
def RedrawMatches (display : Display) (ed : EditorState) : Prop :=
  ∃ full, edRenderFull display ed = some full ∧ ∀ x y, 0 ≤ x → x < display.width → 0 ≤ y → y < display.viewHeight →
    ed.screen y x = full.screen y x

theorem Fresh.matches (fresh : Fresh display ed) : RedrawMatches display ed := by
  have fits : ViewFits display ed := by
    intro ty low high inside
    obtain ⟨start, shown⟩ := fresh ty ⟨low, high⟩ inside
    exact ⟨start, shown.fits⟩
  obtain ⟨full, ran, _⟩ := edRenderFull_spec fits
  refine ⟨full, ran, fun x y left right low high => ?_⟩
  obtain ⟨cells, rest⟩ := edRenderFull_cells ran low high
  by_cases inside : ed.viewTop + y < 200
  · have shown := (fresh (ed.viewTop + y) ⟨by omega, by omega⟩ inside).2.cells x left right
    rw [show ed.viewTop + y - ed.viewTop = y by omega] at shown
    rw [shown, cells inside x left right]
  · rw [rest (Int.not_lt.mp inside)]

/-- The view stays where it is only if it shows the cursor. -/
theorem scrolledTop_inView (stays : scrolledTop display ed = ed.viewTop) (rows : 0 < display.viewHeight) :
    InView display ed ed.cursorY := by
  unfold scrolledTop at stays
  unfold InView
  dsimp only at stays
  split at stays
  · split at stays
    · omega
    · omega
  · split at stays
    · omega
    · omega

/-- What follows a key brings the view up to date: it scrolls and draws everything, or it draws
what is marked. -/
theorem edUpdate_fresh (pending : InView display ed ed.cursorY → Pending display ed)
    (ran : edUpdate display ed = some ed') : Fresh display ed' := by
  by_cases rows : 0 < display.viewHeight
  · obtain ⟨ed1, scrolled, rendered⟩ := Option.bind_eq_some_iff.mp ran
    unfold edScrollToCursor at scrolled
    dsimp only at scrolled
    split at scrolled
    · exact edRender_fresh (edRenderFull_fresh scrolled).pending rendered
    · rename_i stays
      rw [not_not] at stays
      obtain ⟨⟩ := scrolled
      have same : { ed with viewTop := scrolledTop display ed } = ed := by rw [stays]
      rw [same] at rendered
      exact edRender_fresh (pending (scrolledTop_inView stays rows)) rendered
  · intro ty view
    unfold InView at view
    omega

end LivlyOS.Apps
