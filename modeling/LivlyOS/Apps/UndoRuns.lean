import LivlyOS.Apps.EditorHistory
import LivlyOS.Apps.EditorRuns
import LivlyOS.Lib.Run

namespace LivlyOS.Apps

open LivlyOS.Lib

/-- The calls of a run in which nothing is selected. `place` stands for any move of the cursor. -/
inductive LineCall where
  | insertChar (c : UInt8)
  | backspace
  | place (x y : Int) (flag : UInt8)

namespace LineCall

def run : LineCall → EditorState → Option EditorState
  | insertChar c, ed => edInsertChar ed c
  | backspace, ed => edBackspace ed
  | place x y flag, ed => some { ed with cursorX := x, cursorY := y, statusDirty := flag }

/-- The line has room for one more character, there is a character before the cursor, or the
place is one in the text. -/
def Effective : LineCall → EditorState → Prop
  | insertChar _, ed => ed.lineLen ed.cursorY < 77
  | backspace, ed => 0 < ed.cursorX
  | place x y _, ed => (0 ≤ y ∧ y < ed.lineCount) ∧ 0 ≤ x ∧ x ≤ ed.lineLen y

def changes : LineCall → Bool
  | insertChar _ => true
  | backspace => true
  | place .. => false

end LineCall

/-- A run of calls that all do something. -/
def LineRun (start : EditorState) (calls : List LineCall) (ed : EditorState) : Prop :=
  Run (fun ed call ed' => call.run ed = some ed') (fun ed call => call.Effective ed) start calls ed

/-- The states before the changes of a run, latest first. -/
def beforeChanges : List LineCall → EditorState → List EditorState
  | [], _ => []
  | call :: calls, ed =>
    let later := match call.run ed with
      | some ed' => beforeChanges calls ed'
      | none => []
    if call.changes then later ++ [ed] else later

/-- Ctrl+Z, a number of times. -/
def undoTimes : Nat → EditorState → Option EditorState
  | 0, ed => some ed
  | k + 1, ed => (undoTimes k ed).bind edDoUndo

namespace LineRing

/-- All that a slot holds. -/
def record (ring : LineRing) (slot : Int) : (Int → UInt8) × Int × Int × Int :=
  (ring.lines slot, ring.lens slot, ring.cx slot, ring.cy slot)

/-- The second ring stands where the first one stood and still has its records up to an age. -/
structure KeepsUpTo (ages : Int) (ring ring' : LineRing) : Prop where
  top : ring'.top = ring.top
  count : ring'.count = min ring.count ages
  records : ∀ age, 1 ≤ age → age ≤ ages →
    ring'.record ((ring.top + 50 - age) % 50) = ring.record ((ring.top + 50 - age) % 50)

variable {ring ring1 ring2 : LineRing} {old ed ed' : EditorState}

theorem KeepsUpTo.refl (ring : LineRing) (count : ring.count ≤ 50) : KeepsUpTo 50 ring ring :=
  ⟨rfl, by omega, fun _ _ _ => rfl⟩

/-- Saving costs the oldest record, and the step back gives the new one up. -/
theorem KeepsUpTo.back (keeps : KeepsUpTo ages ring1 ring2) (ok : RingOk ring rows) (state : Structural old)
    (saved : ring.save old = some ring1) (low : 1 ≤ ages) (high : ages ≤ 50) : KeepsUpTo (ages - 1) ring ring2.back := by
  obtain ⟨lines, ran, others, _⟩ := LineRing.save_spec state.cursorRow state.cursorLen.2 ok.top
  obtain rfl := Option.some.inj (saved.symm.trans ran)
  have top := ok.top
  have count := ok.count
  have top2 : ring2.top = (ring.top + 1) % 50 := keeps.top
  have count2 : ring2.count = min (if ring.count < 50 then ring.count + 1 else ring.count) ages := keeps.count
  refine ⟨?_, ?_, fun age young within => ?_⟩
  · dsimp only [LineRing.back]
    omega
  · dsimp only [LineRing.back]
    split at count2
    · omega
    · omega
  · -- the slot of this age is not the one that was filled
    have apart : (ring.top + 50 - age) % 50 ≠ ring.top := by omega
    have place : ((ring.saved old lines).top + 50 - (age + 1)) % 50 = (ring.top + 50 - age) % 50 := by
      dsimp only [LineRing.saved]
      omega
    have kept := keeps.records (age + 1) (by omega) (by omega)
    rw [place] at kept
    refine kept.trans ?_
    simp only [record, LineRing.saved, others _ apart, Function.update_of_ne apart]

theorem PutBack.congr (back : ring2.PutBack ed ed') (top : ring2.top = ring1.top)
    (record : ring2.record ring1.top = ring1.record ring1.top) : ring1.PutBack ed ed' := by
  simp only [LineRing.record, Prod.mk.injEq] at record
  obtain ⟨lines, lens, cx, cy⟩ := record
  obtain ⟨shape, length, chars, others⟩ := back
  rw [top, cx, cy] at shape
  rw [top, cy, lens] at length
  rw [top, cy, lens, lines] at chars
  rw [top, cy] at others
  exact ⟨shape, length, chars, others⟩

end LineRing

section
variable {old mid ed ed' : EditorState} {call : LineCall} {calls : List LineCall}

/-- A call changes the cursor's line or nothing but the cursor. -/
theorem LineCall.run_spec (state : Editing ed) (inactive : ed.selActive = false) (effective : call.Effective ed) :
    ∃ ed', call.run ed = some ed' ∧ Editing ed' ∧ ed'.selActive = false ∧
      if call.changes then LineChanged ed ed' else SameText ed ed' ∧ ed'.undo = ed.undo := by
  cases call with
  | insertChar c => exact edInsertChar_changes state inactive effective c
  | backspace => exact edBackspace_changes state inactive effective
  | place x y flag =>
    have structural : Structural { ed with cursorX := x, cursorY := y, statusDirty := flag } :=
      ⟨state.count, effective.1, effective.2, state.lens⟩
    refine ⟨_, rfl, ⟨structural, state.view, state.undo, state.redo, fun active => ?_⟩, inactive, ?_, rfl⟩
    · exact absurd (inactive.symm.trans active) (by decide)
    · exact ⟨rfl, fun _ _ _ => rfl, fun _ _ _ _ _ _ => rfl⟩

/-- An arrow key without a selection is such a call. -/
theorem plainArrow_place {move : EditorState → Option EditorState} (only : OnlyMoves move) (moves : MovesAs move onDoc)
    (state : Editing ed) (inactive : ed.selActive = false) :
    ∃ x y flag, (LineCall.place x y flag).Effective ed ∧ plainArrow move ed = (LineCall.place x y flag).run ed := by
  obtain ⟨ed', ran, state'⟩ := plainArrow_safe moves state
  obtain ⟨lineDirty, x, y, flag, cleared, rfl⟩ := plainArrow_some only ran
  rw [edClearSelection_inactive inactive] at cleared
  have kept := (Option.some.inj cleared).symm
  exact ⟨x, y, flag, ⟨state'.row, state'.column⟩,
    ran.trans (congrArg (fun ed => some { ed with cursorX := x, cursorY := y, statusDirty := flag }) kept)⟩

/-- One more Ctrl+Z, when the changes after this one are taken back. -/
theorem LineChanged.undo {ed1 : EditorState} (changed : LineChanged old mid) (state : Editing old) (state1 : Editing ed1)
    (same : SameText mid ed1) (keeps : LineRing.KeepsUpTo ages mid.undo ed1.undo) (low : 1 ≤ ages) (high : ages ≤ 50) :
    ∃ ed2, edDoUndo ed1 = some ed2 ∧ Editing ed2 ∧ Restored old ed2 ∧
      LineRing.KeepsUpTo (ages - 1) old.undo ed2.undo := by
  have kept := keeps.back state.undo state.toStructural changed.saved low high
  have nonempty : ed1.undo.count ≠ 0 := by
    have less : ed1.undo.count - 1 = min old.undo.count (ages - 1) := kept.count
    have count := state.undo.count
    omega
  obtain ⟨lines, ed2, _, undone, back⟩ :=
    edDoUndo_eq nonempty state1.undo state1.redo.top state1.cursorRow state1.cursorLen.2
  have newest : mid.undo.back.PutBack { ed1 with redo := ed1.redo.saved ed1 lines, undo := ed1.undo.back } ed2 :=
    back.congr (congrArg (fun top => (top + 50 - 1) % 50) keeps.top) (keeps.records 1 (Int.le_refl 1) low)
  have puts := newest.of_save changed.saved state.cursorRow state.cursorLen.2 state.undo.top
  have restored := puts.restored_of ⟨same.count, same.lens, same.chars⟩ changed.count changed.others
  obtain ⟨_, _, _, rfl⟩ := back.shape
  obtain ⟨ed2, undone', state2⟩ := edDoUndo_spec state1 fun _ => by
    have row : ed1.undo.cy ed1.undo.back.top = old.cursorY := restored.row
    rw [row, same.count, changed.count]
    exact state.row.2
  obtain rfl := Option.some.inj (undone.symm.trans undone')
  exact ⟨_, undone, state2, restored, kept⟩

/-- After as many Ctrl+Z as there were changes, the text is that of the start. -/
theorem undoTimes_run (state : Editing old) (inactive : old.selActive = false) (run : LineRun old calls ed)
    (few : calls.countP LineCall.changes ≤ 50) :
    ∃ ed', undoTimes (calls.countP LineCall.changes) ed = some ed' ∧ Editing ed' ∧ SameText old ed' ∧
      LineRing.KeepsUpTo (50 - calls.countP LineCall.changes) old.undo ed'.undo := by
  induction run with
  | done => exact ⟨_, rfl, state, SameText.refl _, LineRing.KeepsUpTo.refl _ state.undo.count.2⟩
  | @next old call mid calls ed effective first rest ih =>
    obtain ⟨mid', ran, state1, inactive1, does⟩ := LineCall.run_spec state inactive effective
    obtain rfl := Option.some.inj (first.symm.trans ran)
    rw [List.countP_cons] at few ⊢
    split at does
    · rename_i changes
      rw [if_pos changes] at few ⊢
      obtain ⟨ed1, undone, state2, same, keeps⟩ := ih state1 inactive1 (by omega)
      obtain ⟨ed2, undone2, state2, restored, keeps2⟩ := does.undo state state2 same keeps (by omega) (by omega)
      refine ⟨ed2, ?_, state2, restored.toSameText, ?_⟩
      · rw [undoTimes, undone]
        exact undone2
      · rw [Int.natCast_add, Int.natCast_one, ← Int.sub_sub]
        exact keeps2
    · rename_i stays
      rw [if_neg stays] at few ⊢
      obtain ⟨ed1, undone, state2, same, keeps⟩ := ih state1 inactive1 few
      exact ⟨ed1, undone, state2, does.1.trans same, does.2 ▸ keeps⟩

theorem beforeChanges_length {start : EditorState} (run : LineRun start calls ed) :
    (beforeChanges calls start).length = calls.countP LineCall.changes := by
  induction run with
  | done => rfl
  | @next start call mid calls ed effective first rest ih =>
    have ran : call.run start = some mid := first
    rw [beforeChanges, ran, List.countP_cons]
    split
    · rw [List.length_append, List.length_singleton, ih]
    · exact ih

/-- The recorded states are the ones from which a change and what came after it lead to the end. -/
theorem beforeChanges_run {start : EditorState} (state : Editing start) (inactive : start.selActive = false)
    (run : LineRun start calls ed) (some : (beforeChanges calls start)[k]? = .some old) :
    ∃ later mid, Editing old ∧ LineChanged old mid ∧ Editing mid ∧ mid.selActive = false ∧ LineRun mid later ed ∧
      later.countP LineCall.changes = k := by
  induction run with
  | done => cases some
  | @next start call mid calls ed effective first rest ih =>
    obtain ⟨mid', ran, state1, inactive1, does⟩ := LineCall.run_spec state inactive effective
    obtain rfl := Option.some.inj (first.symm.trans ran)
    rw [beforeChanges, ran] at some
    split at some
    · rename_i changes
      rw [if_pos changes] at does
      rcases Nat.lt_or_ge k (beforeChanges calls mid).length with short | long
      · rw [List.getElem?_append_left short] at some
        exact ih state1 inactive1 some
      · -- the first change of the run
        rw [List.getElem?_append_right long, List.getElem?_singleton] at some
        split at some
        · rename_i last
          obtain rfl := Option.some.inj some
          refine ⟨calls, mid, state, does, state1, inactive1, rest, ?_⟩
          rw [← beforeChanges_length rest]
          omega
        · cases some
    · exact ih state1 inactive1 some

end

/-- Undo of changes within lines is last in, first out, as far as the ring goes: Ctrl+Z pressed
`k` times restores the text and the cursor of the state before the `k`-th last change. -/
theorem undoTimes_restores (start ed : EditorState) (calls : List LineCall) (k : Nat) (state : Editing start)
    (inactive : start.selActive = false) (run : LineRun start calls ed) (low : 1 ≤ k)
    (bound : k ≤ min (calls.countP LineCall.changes) 50) :
    ∃ old ed', (beforeChanges calls start)[k - 1]? = some old ∧ undoTimes k ed = some ed' ∧ Restored old ed' := by
  have length := beforeChanges_length run
  obtain ⟨old, kth⟩ : ∃ old, (beforeChanges calls start)[k - 1]? = some old :=
    ⟨_, List.getElem?_eq_getElem (by omega)⟩
  obtain ⟨later, mid, before, changed, after, inactive1, rest, count⟩ := beforeChanges_run state inactive run kth
  obtain ⟨ed1, undone, state1, same, keeps⟩ := undoTimes_run after inactive1 rest (by omega)
  obtain ⟨ed', undone', _, restored, _⟩ := changed.undo before state1 same keeps (by omega) (by omega)
  refine ⟨old, ed', kth, ?_, restored⟩
  rw [← Nat.sub_add_cancel low, undoTimes, ← count, undone]
  exact undone'

/-- Two characters typed into an empty document, the first one deleted, and Ctrl+Z twice. -/
theorem undoTimes_restores_typed :
    ∃ ed, LineRun emptyEditor [.insertChar 97, .insertChar 98, .place 1 0 1, .backspace] ed ∧ ∃ old ed',
      (beforeChanges [.insertChar 97, .insertChar 98, .place 1 0 1, .backspace] emptyEditor)[2 - 1]? = some old ∧
        undoTimes 2 ed = some ed' ∧ Restored old ed' := by
  have shape : ((edInsertChar emptyEditor 97).bind fun ed1 => (edInsertChar ed1 98).bind fun ed2 =>
      (edBackspace { ed2 with cursorX := 1, cursorY := 0, statusDirty := 1 }).bind fun _ =>
        some (ed1.lineLen ed1.cursorY, ed2.lineCount, ed2.lineLen 0)) = some (1, 1, 2) := by decide +kernel
  obtain ⟨ed1, first, rest⟩ := Option.bind_eq_some_iff.mp shape
  obtain ⟨ed2, second, rest⟩ := Option.bind_eq_some_iff.mp rest
  obtain ⟨ed, third, rest⟩ := Option.bind_eq_some_iff.mp rest
  simp only [Option.some.injEq, Prod.mk.injEq] at rest
  obtain ⟨one, count, two⟩ := rest
  have run : LineRun emptyEditor [.insertChar 97, .insertChar 98, .place 1 0 1, .backspace] ed := by
    refine .next (by decide : (0 : Int) < 77) first (.next ?_ second (.next ?_ rfl (.next ?_ third .done)))
    · exact Int.lt_of_le_of_lt (Int.le_of_eq one) (by decide)
    · refine ⟨⟨Int.le_refl 0, ?_⟩, by decide, ?_⟩
      · omega
      · omega
    · exact (by decide : (0 : Int) < 1)
  exact ⟨ed, run, undoTimes_restores emptyEditor ed _ 2 emptyEditor_editing rfl run (by decide) (by decide)⟩

end LivlyOS.Apps
