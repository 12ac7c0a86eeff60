import LivlyOS.Lib.Run
import LivlyOS.Apps.EditorUndo

namespace LivlyOS.Apps

open LivlyOS.Lib

/-- The keys that move the cursor, and those that type or delete characters within its line. -/
def LineKey (press : KeyPress) (ed : EditorState) : Prop :=
  ArrowKey press.key ∨
  ((press.key = 8 ∨ (0x20 ≤ press.key ∧ press.key < 0x80)) ∧ (ed.selActive = false → press.key = 8 → 0 < ed.cursorX) ∧
    (ed.selActive = true → ed.selStartY = ed.cursorY ∧ ed.selStartX ≠ ed.cursorX ∧ DeleteFits ed))

instance (press : KeyPress) (ed : EditorState) : Decidable (LineKey press ed) :=
  inferInstanceAs (Decidable (_ ∨ (_ ∧ _)))

/-- Ctrl+Z and Ctrl+Y. -/
def RedoRestores (display : Display) (ed : EditorState) : Prop :=
  ∃ ed1 ed2, edTurn display { key := 0x86 } ed = some ed1 ∧ edTurn display { key := 0x87 } ed1 = some ed2 ∧ SameText ed ed2

/-- Ctrl+Z and Ctrl+Y restore the text, and one more Ctrl+Z leaves what the first one left. -/
def RedoInverts (display : Display) (ed : EditorState) : Prop :=
  ∃ ed1 ed2 ed3, edTurn display { key := 0x86 } ed = some ed1 ∧ edTurn display { key := 0x87 } ed1 = some ed2 ∧
    edTurn display { key := 0x86 } ed2 = some ed3 ∧ SameText ed ed2 ∧ SameText ed1 ed3

/-- The records are lines of the document, the newest one is not the line as it stands, and if
the one before it is of the same line, it is another one. -/
structure Recorded (ed : EditorState) : Prop extends Editing ed where
  rows : RingOk ed.undo ed.lineCount
  newest : ed.undo.count ≠ 0 → ed.undo.lens ed.undo.back.top ≠ ed.lineLen (ed.undo.cy ed.undo.back.top)
  second : ed.undo.back.count ≠ 0 → ed.undo.count ≠ 0 → ed.undo.cy ed.undo.back.back.top = ed.undo.cy ed.undo.back.top →
    ed.undo.lens ed.undo.back.back.top ≠ ed.undo.lens ed.undo.back.top

section
variable {display : Display} {press : KeyPress} {ed ed1 ed' : EditorState}

theorem Recorded.congr (recorded : Recorded ed) (state : Editing ed') (undo : ed'.undo = ed.undo)
    (lens : ed'.lineLen = ed.lineLen) (count : ed'.lineCount = ed.lineCount) : Recorded ed' where
  toEditing := state
  rows := by
    rw [undo, count]
    exact recorded.rows
  newest := by
    rw [undo, lens]
    exact recorded.newest
  second := by
    rw [undo]
    exact recorded.second

/-- One more record of the cursor's line, whose length changes. -/
theorem Recorded.push (recorded : Recorded ed) (state : Editing ed1) (saved : ed.undo.save ed = some ed1.undo)
    (count : ed1.lineCount = ed.lineCount) (length : ed1.lineLen ed.cursorY ≠ ed.lineLen ed.cursorY) : Recorded ed1 := by
  obtain ⟨lines, ran, _⟩ := LineRing.save_spec recorded.cursorRow recorded.cursorLen.2 recorded.undo.top
  have ring := Option.some.inj (saved.symm.trans ran)
  have top := recorded.undo.top
  have last := LineRing.saved_back_top ed top lines
  have previous : (ed.undo.saved ed lines).back.back.top = ed.undo.back.top := by
    dsimp only [LineRing.saved, LineRing.back]
    omega
  have apart : ed.undo.back.top ≠ ed.undo.top := by
    dsimp only [LineRing.back]
    omega
  obtain ⟨lens, _, cy⟩ := ed.undo.saved_here ed lines
  obtain ⟨lens', cy'⟩ := LineRing.saved_other ed apart lines
  refine ⟨state, ?_, fun _ => ?_, fun more _ same => ?_⟩
  · rw [ring, count]
    exact recorded.rows.saved recorded.toStructural recorded.row.2 lines
  · rw [ring, last, lens, cy]
    exact length.symm
  · rw [ring] at more same ⊢
    rw [last, previous, cy, cy'] at same
    rw [last, previous, lens, lens', ← same]
    apply recorded.newest
    dsimp only [LineRing.saved, LineRing.back] at more
    split at more
    · omega
    · omega

theorem Recorded.shiftArrow (recorded : Recorded ed) (moves : OnlyMoves move) (state : Editing ed1)
    (ran : Apps.shiftArrow move ed = some ed1) : Recorded ed1 := by
  obtain ⟨ed0, lineDirty, moved, _, rfl⟩ := shiftArrow_some ran
  obtain ⟨x, y, flag, rfl⟩ := moves _ _ moved
  unfold startSelection at state ⊢
  split at state
  · rename_i active
    rw [if_pos active]
    exact recorded.congr state rfl rfl rfl
  · rename_i inactive
    rw [if_neg inactive]
    exact recorded.congr state rfl rfl rfl

theorem Recorded.plainArrow (recorded : Recorded ed) (moves : OnlyMoves move) (state : Editing ed1)
    (ran : Apps.plainArrow move ed = some ed1) : Recorded ed1 := by
  obtain ⟨_, _, _, _, _, rfl⟩ := plainArrow_some moves ran
  exact recorded.congr state rfl rfl rfl

/-- Typing adds one to the line, if it adds anything. -/
theorem Recorded.insertChar (recorded : Recorded ed) (ran : edInsertChar ed c = some ed1) : Recorded ed1 := by
  obtain ⟨ed1', ran', state1, _⟩ := edInsertChar_safe recorded.toEditing c
  obtain rfl := Option.some.inj (ran.symm.trans ran')
  obtain ⟨ed0, cleared, inserted⟩ := edInsertChar_some ran
  obtain ⟨_, rfl, _⟩ := edClearSelection_some cleared
  cases inserted with
  | full => exact recorded.congr state1 rfl rfl rfl
  | typed short saved placed =>
    refine recorded.push state1 saved rfl ?_
    have longer := placeChar_length placed
    dsimp only at longer ⊢
    omega

theorem Recorded.backspace (recorded : Recorded ed) (inactive : ed.selActive = false) (inside : 0 < ed.cursorX)
    (ran : edBackspace ed = some ed1) : Recorded ed1 := by
  obtain ⟨above, left, right, below, shows⟩ := recorded.toStructural.shows
  obtain ⟨ed1', ran', state1, _⟩ := edBackspace_spec recorded.toEditing inactive shows
  obtain rfl := Option.some.inj (ran.symm.trans ran')
  obtain ⟨undo, ed0, saved, erased, rfl⟩ := edBackspace_some ran
  cases erased with
  | char _ cut =>
    refine recorded.push state1 saved rfl ?_
    have shorter := (cutChars_length cut).2
    dsimp only at shorter ⊢
    omega
  | line start => exact absurd inside start
  | nothing start => exact absurd inside start

theorem Recorded.deleteSelection (recorded : Recorded ed) (active : ed.selActive = true) (same : ed.selStartY = ed.cursorY)
    (nonempty : ed.selStartX ≠ ed.cursorX) (fits : DeleteFits ed) (ran : edDeleteSelection ed = some ed1) : Recorded ed1 := by
  obtain ⟨ed1', ran', state1, _⟩ := edDeleteSelection_safe recorded.toEditing fun _ => fits
  obtain rfl := Option.some.inj (ran.symm.trans ran')
  have cut := cutInLine_of_some active same ran
  refine recorded.push state1 cut.saved cut.count ?_
  rw [cut.length, restLength]
  omega

theorem arrow_ne (arrow : ArrowKey key) : ¬EditKey key ∧ key ≠ 0x86 ∧ key ≠ 0x85 := by
  rcases arrow with rfl | rfl | rfl | rfl | rfl | rfl | rfl | rfl <;> decide

theorem Recorded.key (recorded : Recorded ed) (line : LineKey press ed) (ran : edKey press ed = some ed1) : Recorded ed1 := by
  rcases line with arrow | ⟨types, erases, deletes⟩
  · obtain ⟨noEdit, noUndo, noPaste⟩ := arrow_ne arrow
    have fits : KeyFits press ed :=
      ⟨fun edits => absurd edits noEdit, fun undo => absurd undo noUndo, fun paste => absurd paste noPaste⟩
    obtain ⟨ed1', ran', state1⟩ := edKey_safe recorded.toEditing press fits
    obtain rfl := Option.some.inj (ran.symm.trans ran')
    obtain ⟨move, moves, plain | shift⟩ := edKey_arrow arrow ed
    · exact recorded.plainArrow moves state1 (plain ▸ ran)
    · exact recorded.shiftArrow moves state1 (shift ▸ ran)
  · cases active : ed.selActive with
    | false =>
      rcases types with backspace | ⟨low, high⟩
      · rw [edKey_backspace backspace, active] at ran
        exact recorded.backspace active (erases active backspace) ran
      · rw [edKey_printable low high, deleteThen, edDeleteSelection_inactive active] at ran
        exact recorded.insertChar ran
    | true =>
      obtain ⟨same, nonempty, fits⟩ := deletes active
      rcases types with backspace | ⟨low, high⟩
      · rw [edKey_backspace backspace, if_pos active] at ran
        exact recorded.deleteSelection active same nonempty fits ran
      · rw [edKey_printable low high] at ran
        obtain ⟨ed0, deleted, inserted⟩ := deleteThen_some ran
        exact (recorded.deleteSelection active same nonempty fits deleted).insertChar inserted

theorem Recorded.turn (recorded : Recorded ed) (line : LineKey press ed) (ran : edTurn display press ed = some ed') :
    Recorded ed' := by
  obtain ⟨ed1, typed, drawn⟩ := edTurn_some ran
  have recorded1 := recorded.key line typed
  have state' := drawn.editing ⟨⟨recorded1.count, recorded1.row, recorded1.column, recorded1.lens⟩,
    scrolledTop_nonneg display recorded1.drawable, recorded1.undo, recorded1.redo, recorded1.selection⟩
  obtain ⟨_, _, _, _, _, _, rfl⟩ := drawn
  exact recorded1.congr state' rfl rfl rfl

/-- A turn with Ctrl+Z, when the row of the record is there. -/
theorem undoTurn_spec (display : Display) (state : Editing ed) (nonempty : ed.undo.count ≠ 0)
    (there : ed.undo.cy ed.undo.back.top < ed.lineCount) :
    ∃ ed1, edTurn display { key := 0x86 } ed = some ed1 ∧ Editing ed1 ∧ ed1.undo = ed.undo.back ∧
      ed.redo.save ed = some ed1.redo ∧ ed1.lineCount = ed.lineCount ∧
      ed1.lineLen (ed.undo.cy ed.undo.back.top) = ed.undo.lens ed.undo.back.top ∧
      OtherRows (ed.undo.cy ed.undo.back.top) ed.lines ed1.lines ed.lineLen ed1.lineLen := by
  obtain ⟨lines, ed1, saved, undone, back⟩ := edDoUndo_eq nonempty state.undo state.redo.top state.cursorRow state.cursorLen.2
  obtain ⟨ed1', undone', state1⟩ := edDoUndo_spec state fun _ => there
  obtain rfl := Option.some.inj (undone.symm.trans undone')
  obtain ⟨ed', turned, drawn⟩ := edTurn_total display { key := 0x86 } undone state1.drawable
  have state' := drawn.editing ⟨⟨state1.count, state1.row, state1.column, state1.lens⟩,
    scrolledTop_nonneg display state1.drawable, state1.undo, state1.redo, state1.selection⟩
  refine ⟨ed', turned, state', ?_⟩
  obtain ⟨⟨_, _, _, rfl⟩, length, _, others⟩ := back
  obtain ⟨_, _, _, _, _, _, rfl⟩ := drawn
  exact ⟨rfl, saved, rfl, length, others⟩

/-- A turn with Ctrl+Y after the state `old` went to the redo ring. -/
theorem redoTurn_spec (display : Display) {old : EditorState} (state : Editing ed) (before : Editing old)
    (saved : old.redo.save old = some ed.redo) :
    ∃ ed1, edTurn display { key := 0x87 } ed = some ed1 ∧ Editing ed1 ∧ ed1.undo = ed.undo ∧ PutsBack old ed ed1 := by
  obtain ⟨lines, ran, _⟩ := LineRing.save_spec before.cursorRow before.cursorLen.2 before.redo.top
  have nonempty : ed.redo.count ≠ 0 := by
    rw [Option.some.inj (saved.symm.trans ran)]
    exact LineRing.saved_count old.redo old before.redo.count.1 lines
  obtain ⟨ed1, redone, back⟩ := edDoRedo_eq nonempty state.redo state.count.2
  obtain ⟨ed1', redone', state1⟩ := edDoRedo_spec state
  obtain rfl := Option.some.inj (redone.symm.trans redone')
  obtain ⟨ed', turned, drawn⟩ := edTurn_total display { key := 0x87 } redone state1.drawable
  have state' := drawn.editing ⟨⟨state1.count, state1.row, state1.column, state1.lens⟩,
    scrolledTop_nonneg display state1.drawable, state1.undo, state1.redo, state1.selection⟩
  have back' := back.of_save saved before.cursorRow before.cursorLen.2 before.redo.top
  refine ⟨ed', turned, state', ?_⟩
  obtain ⟨_, _, _, rfl⟩ := back.shape
  obtain ⟨_, _, _, _, _, _, rfl⟩ := drawn
  exact ⟨rfl, back'.count, back'.row, back'.column, back'.length, back'.chars, back'.others⟩

/-- Ctrl+Z and Ctrl+Y restore the text exactly when the cursor stands in the line that Ctrl+Z
puts back, and the next Ctrl+Z leaves another text than the first one. -/
theorem redo_of_recorded (display : Display) (recorded : Recorded ed) (nonempty : ed.undo.count ≠ 0) :
    ¬RedoInverts display ed ∧ (RedoRestores display ed ↔ ed.cursorY = ed.undo.cy ed.undo.back.top) := by
  have place := recorded.rows.row _ (recorded.rows.live_last nonempty)
  have newest := recorded.newest nonempty
  obtain ⟨ed1, first, state1, undo1, saved, count1, length1, others1⟩ :=
    undoTurn_spec display recorded.toEditing nonempty place.2
  obtain ⟨ed2, second, state2, undo2, back⟩ := redoTurn_spec display state1 recorded.toEditing saved
  have restores : SameText ed ed2 ↔ ed.cursorY = ed.undo.cy ed.undo.back.top := by
    constructor
    · intro same
      by_contra apart
      have kept := (back.others _ (Ne.symm apart)).2
      exact newest (length1.symm.trans (kept.symm.trans (same.lens _ place.1 place.2)))
    · intro here
      rw [← here] at others1
      exact (back.restored count1 others1).toSameText
  refine ⟨?_, ?_⟩
  · rintro ⟨_, _, ed3, first', second', third, same, again⟩
    obtain rfl := Option.some.inj (first.symm.trans first')
    obtain rfl := Option.some.inj (second.symm.trans second')
    have length3 : ed3.lineLen (ed.undo.cy ed.undo.back.top) = ed.undo.lens ed.undo.back.top :=
      (again.lens _ place.1 (count1 ▸ place.2)).trans length1
    have length2 : ed2.lineLen (ed.undo.cy ed.undo.back.top) = ed.lineLen (ed.undo.cy ed.undo.back.top) :=
      same.lens _ place.1 place.2
    have ring : ed2.undo = ed.undo.back := undo2.trans undo1
    by_cases more : ed.undo.back.count ≠ 0
    · have place2 := (recorded.rows.back nonempty).row _ ((recorded.rows.back nonempty).live_last more)
      rw [← ring] at more place2
      obtain ⟨ed3', third', _, _, _, _, length, others⟩ :=
        undoTurn_spec display state2 more (by rw [same.count]; exact place2.2)
      obtain rfl := Option.some.inj (third.symm.trans third')
      by_cases here : ed2.undo.cy ed2.undo.back.top = ed.undo.cy ed.undo.back.top
      · rw [here, length3] at length
        rw [ring] at more here length
        exact recorded.second more nonempty here length.symm
      · have kept := (others _ (Ne.symm here)).2
        exact newest (length3.symm.trans (kept.trans length2))
    · -- nothing is left to undo
      rw [← ring, not_not] at more
      have stays : edDoUndo ed2 = some ed2 := if_pos more
      obtain ⟨ed3', typed, drawn⟩ := edTurn_some third
      obtain rfl := Option.some.inj (stays.symm.trans typed)
      have kept := drawn.sameText.lens (ed.undo.cy ed.undo.back.top) place.1 (by
        change _ < ed2.lineCount
        rw [same.count]
        exact place.2)
      exact newest (length3.symm.trans (kept.trans length2))
  · rw [← restores]
    constructor
    · rintro ⟨_, _, first', second', same⟩
      obtain rfl := Option.some.inj (first.symm.trans first')
      obtain rfl := Option.some.inj (second.symm.trans second')
      exact same
    · exact fun same => ⟨ed1, ed2, first, second, same⟩

end

/-- After any run of cursor moves and changes within lines in an opened file, a Ctrl+Z that has
something to undo is not inverted by Ctrl+Y. -/
theorem redoInverts_never (display : Display) (name file : List UInt8) (start opened ed : EditorState) (keys : List KeyPress)
    (opens : fatEditFile display name file start = some opened)
    (run : Run (fun ed press ed' => edTurn display press ed = some ed') (fun ed press => LineKey press ed) opened keys ed)
    (nonempty : ed.undo.count ≠ 0) :
    ¬RedoInverts display ed ∧ (RedoRestores display ed ↔ ed.cursorY = ed.undo.cy ed.undo.back.top) := by
  obtain ⟨opened', opens', state, empty⟩ := fatEditFile_spec display name file start
  obtain rfl := Option.some.inj (opens.symm.trans opens')
  have recorded : Recorded opened :=
    ⟨state, RingOk.of_empty state.undo.top empty _, fun some => absurd empty some, fun _ some => absurd empty some⟩
  exact redo_of_recorded display (run.invariant Recorded (fun _ _ _ recorded line ran => recorded.turn line ran) recorded) nonempty

/-- A character typed into an empty file. -/
theorem redoInverts_never_typed : ∃ opened ed, fatEditFile ⟨80, 25⟩ [65] [] emptyEditor = some opened ∧
    edTurn ⟨80, 25⟩ { key := 97 } opened = some ed ∧ ed.undo.count ≠ 0 ∧ ¬RedoInverts ⟨80, 25⟩ ed ∧
      (RedoRestores ⟨80, 25⟩ ed ↔ ed.cursorY = ed.undo.cy ed.undo.back.top) := by
  have shape : ((fatEditFile ⟨80, 25⟩ [65] [] emptyEditor).bind fun opened =>
      (edTurn ⟨80, 25⟩ { key := 97 } opened).bind fun ed => some (opened.selActive, ed.undo.count)) = some (false, 1) := by
    decide +kernel
  obtain ⟨opened, opens, rest⟩ := Option.bind_eq_some_iff.mp shape
  obtain ⟨ed, typed, pair⟩ := Option.bind_eq_some_iff.mp rest
  obtain ⟨inactive, count⟩ := Prod.mk.inj (Option.some.inj pair)
  have nonempty : ed.undo.count ≠ 0 := by
    rw [count]
    decide
  have line : LineKey { key := 97 } opened := .inr ⟨.inr (by decide), fun _ backspace => absurd backspace (by decide),
    fun active => absurd (active.symm.trans inactive) (by decide)⟩
  exact ⟨opened, ed, opens, typed, nonempty, redoInverts_never ⟨80, 25⟩ [65] [] emptyEditor opened ed [{ key := 97 }] opens
    (.next line typed .done) nonempty⟩

/-- The same character taken back, put back, and not taken back again. -/
theorem redo_not_taken_back : ∃ opened ed, fatEditFile ⟨80, 25⟩ [65] [] emptyEditor = some opened ∧
    edTurn ⟨80, 25⟩ { key := 97 } opened = some ed ∧ ed.undo.count ≠ 0 ∧ ¬RedoInverts ⟨80, 25⟩ ed := by
  have shape : ((fatEditFile ⟨80, 25⟩ [65] [] emptyEditor).bind fun opened =>
      (edTurn ⟨80, 25⟩ { key := 97 } opened).bind fun ed =>
        (edTurn ⟨80, 25⟩ { key := 0x86 } ed).bind fun ed1 => (edTurn ⟨80, 25⟩ { key := 0x87 } ed1).bind fun ed2 =>
          (edTurn ⟨80, 25⟩ { key := 0x86 } ed2).bind fun ed3 =>
            some (ed.undo.count, ed1.lineCount, ed1.lineLen 0, ed3.lineLen 0)) = some (1, 1, 0, 1) := by
    decide +kernel
  obtain ⟨opened, opens, rest⟩ := Option.bind_eq_some_iff.mp shape
  obtain ⟨ed, typed, rest⟩ := Option.bind_eq_some_iff.mp rest
  obtain ⟨ed1, first, rest⟩ := Option.bind_eq_some_iff.mp rest
  obtain ⟨ed2, second, rest⟩ := Option.bind_eq_some_iff.mp rest
  obtain ⟨ed3, third, rest⟩ := Option.bind_eq_some_iff.mp rest
  simp only [Option.some.injEq, Prod.mk.injEq] at rest
  obtain ⟨count, lines, before, after⟩ := rest
  refine ⟨opened, ed, opens, typed, by omega, ?_⟩
  rintro ⟨_, _, _, first', second', third', _, again⟩
  obtain rfl := Option.some.inj (first.symm.trans first')
  obtain rfl := Option.some.inj (second.symm.trans second')
  obtain rfl := Option.some.inj (third.symm.trans third')
  have same := again.lens 0 (Int.le_refl 0) (by omega)
  omega

end LivlyOS.Apps
