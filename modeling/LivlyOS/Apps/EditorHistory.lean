import LivlyOS.Apps.EditorEffects
import LivlyOS.Apps.EditorText

namespace LivlyOS.Apps

open LivlyOS.Lib

/-- Two states hold the same lines. -/
structure SameText (ed ed' : EditorState) : Prop where
  count : ed'.lineCount = ed.lineCount
  lens : ∀ y, 0 ≤ y → y < ed.lineCount → ed'.lineLen y = ed.lineLen y
  chars : ∀ y x, 0 ≤ y → y < ed.lineCount → 0 ≤ x → x < ed.lineLen y → ed'.lines y x = ed.lines y x

namespace SameText

variable {first second third : EditorState}

theorem refl (ed : EditorState) : SameText ed ed := ⟨rfl, fun _ _ _ => rfl, fun _ _ _ _ _ _ => rfl⟩

theorem trans (one : SameText first second) (two : SameText second third) : SameText first third where
  count := two.count.trans one.count
  lens := fun y low high => (two.lens y low (one.count ▸ high)).trans (one.lens y low high)
  chars := fun y x low high left right =>
    (two.chars y x low (one.count ▸ high) left (one.lens y low high ▸ right)).trans (one.chars y x low high left right)

/-- The lines of the document are all that matters. -/
theorem documentLines (same : SameText first second) : documentLines second = documentLines first := by
  unfold Apps.documentLines
  rw [same.count]
  apply List.map_congr_left
  intro y member
  rw [List.mem_range] at member
  rw [same.lens y (by omega) (by omega)]
  apply List.map_congr_left
  intro x inside
  rw [List.mem_range] at inside
  exact same.chars y x (by omega) (by omega) (by omega) (by omega)

end SameText

/-- Two states that show the same lines hold the same text. -/
theorem Shows.sameText {ed ed' : EditorState} (shows : Shows ed above left right below)
    (shows' : Shows ed' above' left' right' below')
    (same : above' ++ (left' ++ right') :: below' = above ++ (left ++ right) :: below) : SameText ed ed' := by
  have rows := shows.rows
  have rows' := shows'.rows
  rw [same] at rows'
  have size := congrArg List.length same
  have count := shows.count
  have count' := shows'.count
  simp only [List.length_append, List.length_cons] at size
  have each : ∀ y, 0 ≤ y → y < ed.lineCount → ∃ line, RowIs ed.lines ed.lineLen y line ∧ RowIs ed'.lines ed'.lineLen y line := by
    intro y low high
    obtain ⟨index, rfl⟩ := Int.eq_ofNat_of_zero_le low
    have there : index < (above ++ (left ++ right) :: below).length := by
      simp only [List.length_append, List.length_cons]
      omega
    have row := rows.row there
    have row' := rows'.row there
    rw [Int.zero_add] at row row'
    exact ⟨_, row, row'⟩
  refine ⟨by omega, fun y low high => ?_, fun y x low high left right => ?_⟩
  · obtain ⟨line, row, row'⟩ := each y low high
    exact row'.length.trans row.length.symm
  · obtain ⟨line, row, row'⟩ := each y low high
    obtain ⟨index, rfl⟩ := Int.eq_ofNat_of_zero_le left
    have length := row.length
    have inside : index < line.length := by omega
    have here := row.spells.get inside
    have there := row'.spells.get inside
    rw [Int.zero_add] at here there
    exact there.trans here.symm

/-- The text and the cursor are as before. -/
structure Restored (ed ed' : EditorState) : Prop extends SameText ed ed' where
  row : ed'.cursorY = ed.cursorY
  column : ed'.cursorX = ed.cursorX

theorem edTurn_some (ran : edTurn display press ed = some ed') :
    ∃ ed1, edKey press ed = some ed1 ∧ Drawn { ed1 with viewTop := scrolledTop display ed1 } ed' := by
  obtain ⟨ed1, typed, updated⟩ := Option.bind_eq_some_iff.mp ran
  exact ⟨ed1, typed, edUpdate_drawn updated⟩

theorem edTurn_total (display : Display) (press : KeyPress) (typed : edKey press ed = some ed1) (state : Drawable ed1) :
    ∃ ed', edTurn display press ed = some ed' ∧ Drawn { ed1 with viewTop := scrolledTop display ed1 } ed' := by
  obtain ⟨ed', updated⟩ := edUpdate_total display state
  refine ⟨ed', ?_, edUpdate_drawn updated⟩
  rw [edTurn, typed]
  exact updated

theorem Drawn.sameText {ed ed' : EditorState} (drawn : Drawn ed ed') : SameText ed ed' := by
  obtain ⟨_, _, _, _, _, _, rfl⟩ := drawn
  exact ⟨rfl, fun _ _ _ => rfl, fun _ _ _ _ _ _ => rfl⟩

namespace LineRing

variable {ring : LineRing}

theorem saved_count (ring : LineRing) (old : EditorState) (count : 0 ≤ ring.count) (lines : Lines) : (ring.saved old lines).count ≠ 0 := by
  dsimp only [saved]
  split
  · omega
  · omega

/-- The step back leads to the slot that was filled. -/
theorem saved_back_top (old : EditorState) (top : 0 ≤ ring.top ∧ ring.top < 50) (lines : Lines) :
    (ring.saved old lines).back.top = ring.top := by
  dsimp only [saved, back]
  omega

theorem saved_here (ring : LineRing) (old : EditorState) (lines : Lines) : (ring.saved old lines).lens ring.top = old.lineLen old.cursorY ∧
    (ring.saved old lines).cx ring.top = old.cursorX ∧ (ring.saved old lines).cy ring.top = old.cursorY :=
  ⟨Function.update_self .., Function.update_self .., Function.update_self ..⟩

theorem saved_other (old : EditorState) (other : slot ≠ ring.top) (lines : Lines) : (ring.saved old lines).lens slot = ring.lens slot ∧
    (ring.saved old lines).cy slot = ring.cy slot :=
  ⟨Function.update_of_ne other .., Function.update_of_ne other ..⟩

end LineRing

/-- The state after the cursor's line and the cursor of an older state came back. -/
structure PutsBack (old ed ed' : EditorState) : Prop where
  count : ed'.lineCount = ed.lineCount
  row : ed'.cursorY = old.cursorY
  column : ed'.cursorX = old.cursorX
  length : ed'.lineLen old.cursorY = old.lineLen old.cursorY
  chars : ∀ x, 0 ≤ x → x < old.lineLen old.cursorY → ed'.lines old.cursorY x = old.lines old.cursorY x
  others : OtherRows old.cursorY ed.lines ed'.lines ed.lineLen ed'.lineLen

/-- When only the saved line changed and what came later was taken back, it is all as it was. -/
theorem PutsBack.restored_of {old mid ed ed' : EditorState} (back : PutsBack old ed ed') (same : SameText mid ed)
    (count : mid.lineCount = old.lineCount)
    (others : ∀ i, i ≠ old.cursorY → SameRow (old.lines, old.lineLen) (mid.lines, mid.lineLen) i) : Restored old ed' := by
  refine ⟨⟨back.count.trans (same.count.trans count), fun y low high => ?_, fun y x low high left right => ?_⟩,
    back.row, back.column⟩
  · by_cases here : y = old.cursorY
    · rw [here]
      exact back.length
    · rw [(back.others y here).2, same.lens y low (count ▸ high)]
      exact (others y here).2
  · by_cases here : y = old.cursorY
    · subst here
      exact back.chars x left right
    · have inside : x < mid.lineLen y := Int.lt_of_lt_of_le right (Int.le_of_eq (others y here).2.symm)
      rw [(back.others y here).1, same.chars y x low (count ▸ high) left inside]
      exact congrFun (others y here).1 x

/-- When only the saved line changed, it is all as it was. -/
theorem PutsBack.restored {old ed ed' : EditorState} (back : PutsBack old ed ed') (count : ed.lineCount = old.lineCount)
    (others : ∀ i, i ≠ old.cursorY → SameRow (old.lines, old.lineLen) (ed.lines, ed.lineLen) i) : Restored old ed' :=
  back.restored_of (SameText.refl ed) count others

/-- A ring that saved a state puts that state's line back. -/
theorem LineRing.PutBack.of_save {ring ring' : LineRing} {old ed ed' : EditorState} (saved : ring.save old = some ring')
    (row : 0 ≤ old.cursorY ∧ old.cursorY < 200) (short : old.lineLen old.cursorY ≤ 77) (top : 0 ≤ ring.top ∧ ring.top < 50)
    (back : ring'.back.PutBack ed ed') : PutsBack old ed ed' := by
  obtain ⟨lines, ran, _, filled⟩ := LineRing.save_spec row short top
  obtain rfl := Option.some.inj (saved.symm.trans ran)
  have place := LineRing.saved_back_top old top lines
  obtain ⟨⟨lines', lineLen', lineDirty', rfl⟩, length, chars, others⟩ := back
  obtain ⟨lens, cx, cy⟩ : (ring.saved old lines).back.lens (ring.saved old lines).back.top = old.lineLen old.cursorY ∧
      (ring.saved old lines).back.cx (ring.saved old lines).back.top = old.cursorX ∧
      (ring.saved old lines).back.cy (ring.saved old lines).back.top = old.cursorY := by
    rw [place]
    exact LineRing.saved_here ring old lines
  rw [cy] at others
  rw [cy, lens] at length
  refine ⟨rfl, cy, cx, length, fun x low high => ?_, others⟩
  have here := chars x low (lens ▸ high)
  rw [cy, place] at here
  exact here.trans (filled x low (Int.lt_add_one_of_le (Int.le_of_lt high)))

/-- Ctrl+Z puts back the line that was saved last. -/
theorem edDoUndo_save {old ed : EditorState} (saved : old.undo.save old = some ed.undo) (undo : RingOk old.undo rows)
    (row : 0 ≤ old.cursorY ∧ old.cursorY < 200) (short : old.lineLen old.cursorY ≤ 77)
    (redo : 0 ≤ ed.redo.top ∧ ed.redo.top < 50) (cursor : 0 ≤ ed.cursorY ∧ ed.cursorY < 200)
    (cursorLen : ed.lineLen ed.cursorY ≤ 77) :
    ∃ ed', edDoUndo ed = some ed' ∧ PutsBack old ed ed' ∧ ed'.viewTop = ed.viewTop := by
  obtain ⟨lines, ran, _⟩ := LineRing.save_spec row short undo.top
  have ring := Option.some.inj (saved.symm.trans ran)
  have place := LineRing.saved_back_top old undo.top lines
  have nonempty : ed.undo.count ≠ 0 := by
    rw [ring]
    exact LineRing.saved_count old.undo old undo.count.1 lines
  obtain ⟨lines', redone, _⟩ := LineRing.save_spec cursor cursorLen redo
  have kept : ed.undo.back.lens ed.undo.back.top ≤ 77 ∧ 0 ≤ ed.undo.back.cy ed.undo.back.top ∧
      ed.undo.back.cy ed.undo.back.top < 200 := by
    rw [ring, place]
    dsimp only [LineRing.saved, LineRing.back]
    rw [Function.update_self, Function.update_self]
    exact ⟨short, row⟩
  have top : 0 ≤ ed.undo.back.top ∧ ed.undo.back.top < 50 := by
    rw [ring, place]
    exact undo.top
  obtain ⟨ed', restored, back⟩ := LineRing.restore_spec { ed with redo := ed.redo.saved ed lines', undo := ed.undo.back }
    top kept.1 kept.2
  have back' := back.of_save saved row short undo.top
  obtain ⟨_, _, _, rfl⟩ := back.shape
  refine ⟨_, ?_, ⟨back'.count, back'.row, back'.column, back'.length, back'.chars, back'.others⟩, rfl⟩
  rw [edDoUndo, if_neg nonempty, redone]
  exact restored

theorem undoTurn_save (display : Display) {old ed : EditorState} (state : Drawable ed)
    (saved : old.undo.save old = some ed.undo) (undo : RingOk old.undo rows)
    (row : 0 ≤ old.cursorY ∧ old.cursorY < 200) (short : old.lineLen old.cursorY ≤ 77) (redo : 0 ≤ ed.redo.top ∧ ed.redo.top < 50) (cursor : ed.cursorY < 200)
    (cursorLen : ed.lineLen ed.cursorY ≤ 77) :
    ∃ ed', edTurn display { key := 0x86 } ed = some ed' ∧ PutsBack old ed ed' := by
  obtain ⟨ed1, undone, back, view⟩ := edDoUndo_save saved undo row short redo ⟨state.row, cursor⟩ cursorLen
  have state1 : Drawable ed1 := by
    refine ⟨back.row ▸ row.1, view ▸ state.view, fun i low high => ?_⟩
    by_cases same : i = old.cursorY
    · rw [same, back.length]
      exact short
    · rw [(back.others i same).2]
      exact state.lens i low (back.count ▸ high)
  obtain ⟨ed', turned, drawn⟩ := edTurn_total display { key := 0x86 } undone state1
  refine ⟨ed', turned, ?_⟩
  obtain ⟨_, _, _, _, _, _, rfl⟩ := drawn
  exact ⟨back.count, back.row, back.column, back.length, back.chars, back.others⟩

/-- A change of the cursor's line, with one record of the line before. -/
structure LineChanged (ed ed' : EditorState) : Prop where
  saved : ed.undo.save ed = some ed'.undo
  count : ed'.lineCount = ed.lineCount
  others : ∀ i, i ≠ ed.cursorY → SameRow (ed.lines, ed.lineLen) (ed'.lines, ed'.lineLen) i

theorem edInsertChar_changes (state : Editing ed) (inactive : ed.selActive = false) (short : ed.lineLen ed.cursorY < 77)
    (c : UInt8) : ∃ ed', edInsertChar ed c = some ed' ∧ Editing ed' ∧ ed'.selActive = false ∧ LineChanged ed ed' := by
  obtain ⟨above, left, right, below, shows⟩ := state.toStructural.shows
  obtain ⟨ed', ran, state', _, inactive', _⟩ := edInsertChar_spec state shows c
  refine ⟨ed', ran, state', inactive', ?_⟩
  obtain ⟨ed0, cleared, inserted⟩ := edInsertChar_some ran
  rw [edClearSelection_inactive inactive] at cleared
  obtain rfl := Option.some.inj cleared
  cases inserted with
  | full long => omega
  | typed _ saved placed => exact ⟨saved, rfl, fun i other => placeChar_frame other placed⟩

theorem edBackspace_changes (state : Editing ed) (inactive : ed.selActive = false) (inside : 0 < ed.cursorX) :
    ∃ ed', edBackspace ed = some ed' ∧ Editing ed' ∧ ed'.selActive = false ∧ LineChanged ed ed' := by
  obtain ⟨above, left, right, below, shows⟩ := state.toStructural.shows
  obtain ⟨ed', ran, state', _, inactive', _⟩ := edBackspace_spec state inactive shows
  refine ⟨ed', ran, state', inactive', ?_⟩
  obtain ⟨undo, ed0, saved, erased, rfl⟩ := edBackspace_some ran
  cases erased with
  | char _ cut => exact ⟨saved, rfl, fun i other => cutChars_frame other cut⟩
  | line start => exact absurd inside start
  | nothing start => exact absurd inside start

end LivlyOS.Apps
