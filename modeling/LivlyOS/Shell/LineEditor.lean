import LivlyOS.Lib.Recent
import LivlyOS.Lib.TextBuffer
import LivlyOS.Shell.Dispatch
import LivlyOS.Shell.Shell

/-! Editing the input line and walking through the history, against an editor that is a
text on both sides of the cursor and remembers every line it was given. -/

namespace LivlyOS.Shell

open LivlyOS.Lib

/-- A line around its cursor, the lines that were entered, latest first, and how far back
the history was followed. -/
structure LineEditor where
  line : TextBuffer UInt8
  lines : List (List UInt8)
  depth : Nat

/-- The lines that go to the history. -/
def entered (lines : List (List UInt8)) : List (List UInt8) := lines.filter (· ≠ [])

namespace LineEditor

/-- How far back the history goes. -/
def reach (ref : LineEditor) : Nat := min (entered ref.lines).length 20

/-- The line at a depth of the history; in front of it is the empty line. -/
def recalled (ref : LineEditor) (depth : Nat) : List UInt8 := ([] :: entered ref.lines)[depth]?.getD []

/-- Go to a depth of the history. -/
def goTo (ref : LineEditor) (depth : Nat) : LineEditor := { ref with line := ⟨ref.recalled depth, []⟩, depth }

def enter (ref : LineEditor) : LineEditor where
  line := ⟨[], []⟩
  lines := ref.line.text :: ref.lines
  depth := if ref.line.text = [] then ref.depth else 0

def up (ref : LineEditor) : LineEditor := if ref.depth < ref.reach then ref.goTo (ref.depth + 1) else ref

def down (ref : LineEditor) : LineEditor := if 0 < ref.depth then ref.goTo (ref.depth - 1) else ref

/-- Insert a character while there is room. -/
def type (c : UInt8) (ref : LineEditor) : LineEditor :=
  if ref.line.text.length < maxInput - 1 then { ref with line := ref.line.insert c } else ref

def press (c : UInt8) (ref : LineEditor) : LineEditor :=
  if c = 10 then ref.enter
  else if c = 0x80 then ref.up
  else if c = 0x81 then ref.down
  else if c = 0x82 then { ref with line := ref.line.moveLeft }
  else if c = 0x83 then { ref with line := ref.line.moveRight }
  else if c = 8 then { ref with line := ref.line.erase }
  else if 0x20 ≤ c ∧ c < 0x80 then ref.type c
  else ref

def start : LineEditor := ⟨⟨[], []⟩, [], 0⟩

/-- The editor after a sequence of keys. -/
def run (keys : List UInt8) (ref : LineEditor) : LineEditor := keys.foldl (fun ref c => ref.press c) ref

end LineEditor

/-- The array and its two indices hold a line around its cursor. -/
structure ShowsLine (sh : ShellState) (line : TextBuffer UInt8) : Prop where
  spells : Spells sh.input 0 line.text
  pos : sh.pos = line.text.length
  cur : sh.cur = line.before.length
  isLine : IsLine line.text

/-- The rows of the history hold the latest lines. -/
structure ShowsHistory (sh : ShellState) (lines : List (List UInt8)) : Prop where
  executed : sh.executed = lines
  areLines : ∀ line ∈ lines, IsLine line
  count : sh.historyCount = (entered lines).length
  rows : Remembers 20 (fun slot line => HoldsString (sh.history slot) line) (entered lines)

structure Shows (sh : ShellState) (ref : LineEditor) : Prop where
  line : ShowsLine sh ref.line
  history : ShowsHistory sh ref.lines
  back : sh.historyPos = sh.historyCount - ref.depth
  depth : ref.depth ≤ ref.reach

theorem isLine_nil : IsLine [] := by decide

theorem shellInit_shows (stack : Int → UInt8) : Shows (shellInit stack) .start where
  line := ⟨trivial, rfl, rfl, isLine_nil⟩
  history := ⟨rfl, fun _ member => absurd member List.not_mem_nil, rfl, .nil _ _⟩
  back := rfl
  depth := Nat.le_refl 0

section Keys

variable {sh : ShellState} {ref : LineEditor}

theorem Shows.edit (shows : Shows sh ref) {input : Int → UInt8} {pos cur : Int} {line : TextBuffer UInt8}
    (edited : ShowsLine { sh with input, pos, cur } line) :
    Shows { sh with input, pos, cur } { ref with line } :=
  ⟨edited, ⟨shows.history.executed, shows.history.areLines, shows.history.count, shows.history.rows⟩, shows.back,
    shows.depth⟩

theorem Shows.seek (shows : Shows sh ref) {offset : Nat} (inside : offset ≤ ref.line.text.length)
    (moved : cur = (offset : Int)) : Shows { sh with cur } { ref with line := ref.line.seek offset } := by
  obtain ⟨spells, pos, _, isLine⟩ := shows.line
  apply shows.edit
  constructor
  · rw [TextBuffer.seek_text]
    exact spells
  · rw [TextBuffer.seek_text]
    exact pos
  · have length := ref.line.seek_offset offset
    rw [min_eq_left inside] at length
    exact moved.trans (congrArg Nat.cast length.symm)
  · rw [TextBuffer.seek_text]
    exact isLine

theorem keyLeft_shows (shows : Shows sh ref) : Shows (keyLeft sh) { ref with line := ref.line.moveLeft } := by
  have cur : sh.cur = ref.line.offset := shows.line.cur
  have inside : ref.line.offset ≤ ref.line.text.length := by
    rw [TextBuffer.text, List.length_append]
    exact Nat.le_add_right ..
  unfold keyLeft
  split
  · exact shows.seek (by omega) (by omega)
  · exact shows.seek (by omega) (by omega)

theorem keyRight_shows (shows : Shows sh ref) : Shows (keyRight sh) { ref with line := ref.line.moveRight } := by
  obtain ⟨_, pos, cur, _⟩ := shows.line
  have length : ref.line.text.length = ref.line.before.length + ref.line.after.length := List.length_append
  unfold keyRight
  split
  · exact shows.seek (by rw [TextBuffer.offset]; omega) (by rw [TextBuffer.offset]; omega)
  · -- the cursor is at the end already
    have same : ref.line.moveRight = ref.line := by
      have none : ref.line.after = [] := List.length_eq_zero_iff.mp (by omega)
      unfold TextBuffer.moveRight TextBuffer.seek TextBuffer.offset
      rw [List.take_of_length_le (by omega), List.drop_of_length_le (by omega), TextBuffer.text, none, List.append_nil]
      rw [← none]
    rw [same]
    exact shows

theorem keyBackspace_shows (shows : Shows sh ref) :
    ∃ sh', keyBackspace sh = some sh' ∧ Shows sh' { ref with line := ref.line.erase } := by
  obtain ⟨spells, pos, cur, isLine⟩ := shows.line
  have room := isLine.1
  unfold keyBackspace TextBuffer.erase
  rcases List.eq_nil_or_concat ref.line.before with none | ⟨left, c, shape⟩
  · rw [none, List.length_nil] at cur
    refine ⟨sh, if_neg (by omega), ?_⟩
    rw [none, List.dropLast_nil, ← none]
    exact shows
  · rw [List.concat_eq_append] at shape
    have text : ref.line.text = left ++ c :: ref.line.after := by
      rw [TextBuffer.text, shape, List.append_assoc, List.singleton_append]
    rw [text, List.length_append, List.length_cons] at pos room
    rw [shape, List.length_append, List.length_singleton] at cur
    rw [text, Spells.append_iff, Int.zero_add] at spells
    obtain ⟨before, _, after⟩ := spells
    obtain ⟨input, shifted, moved, kept⟩ := shiftDown_spec maxInput (sh.cur - 1) (sh.pos - 1) sh.input
      (by omega) (by omega) (by omega)
    have spells : Spells (Function.update input (sh.pos - 1) 0) 0 (left ++ ref.line.after) := by
      rw [Spells.append_iff, Int.zero_add]
      constructor
      · apply before.congr
        intro i low high
        rw [Function.update_of_ne (by omega), kept i (by omega)]
      · apply after.move
        intro k low high
        rw [Function.update_of_ne (by omega), moved _ (by omega) (by omega)]
        exact congrArg sh.input (by omega)
    rw [if_pos (by omega), shape, List.dropLast_concat]
    simp only [shifted, writeCell_eq input (show 0 ≤ sh.pos - 1 ∧ sh.pos - 1 < (maxInput : Int) by omega), bind, Option.bind_some]
    refine ⟨_, rfl, shows.edit ⟨spells, ?_, ?_, ?_, ?_⟩⟩
    · rw [TextBuffer.text, List.length_append]
      dsimp only
      omega
    · dsimp only
      omega
    · rw [TextBuffer.text, List.length_append]
      dsimp only
      omega
    · intro other member
      apply isLine.2
      rw [text, List.mem_append, List.mem_cons]
      exact (List.mem_append.mp member).imp id .inr

theorem keyChar_shows (shows : Shows sh ref) {c : UInt8} (printable : 0x20 ≤ c ∧ c < 0x80) :
    ∃ sh', keyChar c sh = some sh' ∧ Shows sh' (ref.type c) := by
  obtain ⟨spells, pos, cur, isLine⟩ := shows.line
  have room := isLine.1
  have length : ref.line.text.length = ref.line.before.length + ref.line.after.length := List.length_append
  unfold keyChar LineEditor.type
  by_cases full : ref.line.text.length < maxInput - 1
  · obtain ⟨input, shifted, moved, kept⟩ := shiftUp_spec maxInput sh.cur sh.pos sh.input
      (by omega) (by omega) (by omega)
    rw [TextBuffer.text, Spells.append_iff, Int.zero_add] at spells
    obtain ⟨before, after⟩ := spells
    have spells : Spells (Function.update input sh.cur c) 0 (ref.line.before ++ [c] ++ ref.line.after) := by
      rw [Spells.append_iff, Spells.append_iff, Int.zero_add, List.length_append, List.length_singleton]
      refine ⟨⟨?_, ?_, trivial⟩, ?_⟩
      · apply before.congr
        intro i low high
        rw [Function.update_of_ne (by omega), kept i (by omega)]
      · rw [← cur, Function.update_self]
      · apply after.move
        intro k low high
        rw [Function.update_of_ne (by omega), moved _ (by omega) (by omega)]
        exact congrArg sh.input (by omega)
    rw [if_pos (by omega), if_pos full]
    simp only [shifted, writeCell_eq input (show 0 ≤ sh.cur ∧ sh.cur < (maxInput : Int) by omega), bind, Option.bind_some]
    refine ⟨_, rfl, shows.edit ⟨spells, ?_, ?_, ?_, ?_⟩⟩
    · simp only [TextBuffer.text, TextBuffer.insert, List.length_append, List.length_singleton]
      omega
    · simp only [TextBuffer.insert, List.length_append, List.length_singleton]
      omega
    · simp only [TextBuffer.text, TextBuffer.insert, List.length_append, List.length_singleton]
      omega
    · intro other member
      simp only [TextBuffer.text, TextBuffer.insert, List.append_assoc, List.singleton_append, List.mem_append,
        List.mem_cons] at member
      rcases member with old | rfl | old
      · exact isLine.2 other (List.mem_append_left _ old)
      · exact printable
      · exact isLine.2 other (List.mem_append_right _ old)
  · refine ⟨sh, if_neg (by omega), ?_⟩
    rw [if_neg full]
    exact shows

/-- The row a depth of the history stands in comes back as the line at that depth. -/
theorem recallLine_shows (history : ShowsHistory sh ref.lines) {depth : Nat} (positive : 0 < depth)
    (within : depth ≤ ref.reach) (back : sh.historyPos = sh.historyCount - depth) :
    ∃ sh', recallLine sh = some sh' ∧ Shows sh' (ref.goTo depth) := by
  obtain ⟨executed, areLines, count, rows⟩ := history
  have short : depth ≤ (entered ref.lines).length := Nat.le_trans within (Nat.min_le_left ..)
  have near : depth ≤ 20 := Nat.le_trans within (Nat.min_le_right ..)
  obtain ⟨line, entry⟩ : ∃ line, (entered ref.lines)[depth - 1]? = some line :=
    ⟨_, List.getElem?_eq_getElem (by omega)⟩
  obtain ⟨spells, ended⟩ := rows (depth - 1) line entry (by omega)
  have isLine : IsLine line := areLines line (List.mem_filter.mp (List.mem_of_getElem? entry)).1
  have fits := isLine.1
  have recalled : ref.recalled depth = line := by
    unfold LineEditor.recalled
    obtain ⟨more, rfl⟩ := Nat.exists_eq_succ_of_ne_zero (Nat.ne_of_gt positive)
    rw [List.getElem?_cons_succ]
    exact congrArg (Option.getD · []) entry
  have slot : sh.historyPos.tmod 20 = (((entered ref.lines).length - 1 - (depth - 1)) % 20 : Nat) := by
    rw [back, count, Int.tmod_eq_emod_of_nonneg (by omega)]
    omega
  obtain ⟨input, copied, same⟩ := copyCells_spec maxInput maxInput
    (sh.history (((entered ref.lines).length - 1 - (depth - 1)) % 20 : Nat)) sh.input (by omega) (Int.le_refl _)
  have spells' : Spells input 0 line := spells.congr fun i low high => same i low (by omega)
  have ended' : input line.length = 0 := (same _ (by omega) (by omega)).trans ended
  refine ⟨{ sh with input, pos := line.length, cur := line.length }, ?_, ?_⟩
  · unfold recallLine
    rw [slot, readCell_eq sh.history (by omega), Option.bind_some, copied, Option.bind_some,
      cString_spells spells' isLine.nonzero ended' fits, Option.map_some]
  · constructor
    · unfold LineEditor.goTo
      rw [recalled]
      have text : (⟨line, []⟩ : TextBuffer UInt8).text = line := List.append_nil line
      constructor
      · rw [text]
        exact spells'
      · rw [text]
      · rfl
      · rw [text]
        exact isLine
    · exact ⟨executed, areLines, count, rows⟩
    · exact back
    · exact within

theorem keyUp_shows (shows : Shows sh ref) : ∃ sh', keyUp sh = some sh' ∧ Shows sh' ref.up := by
  have history := shows.history
  have back := shows.back
  have count := history.count
  have reach : ref.reach = min (entered ref.lines).length 20 := rfl
  unfold keyUp LineEditor.up
  by_cases more : ref.depth < ref.reach
  · rw [if_pos (by omega), if_pos more]
    have kept : ShowsHistory { sh with historyPos := sh.historyPos - 1 } ref.lines :=
      ⟨history.executed, history.areLines, count, history.rows⟩
    apply recallLine_shows kept (Nat.succ_pos _) more
    dsimp only
    omega
  · rw [if_neg (by omega), if_neg more]
    exact ⟨sh, rfl, shows⟩

theorem keyDown_shows (shows : Shows sh ref) : ∃ sh', keyDown sh = some sh' ∧ Shows sh' ref.down := by
  have history := shows.history
  have back := shows.back
  have depth := shows.depth
  have kept : ShowsHistory { sh with historyPos := sh.historyPos + 1 } ref.lines :=
    ⟨history.executed, history.areLines, history.count, history.rows⟩
  unfold keyDown LineEditor.down
  by_cases forward : 0 < ref.depth
  · rw [if_pos (by omega), if_pos forward]
    dsimp only
    split
    · -- the last step ends at the empty line
      have last : ref.depth = 1 := by omega
      obtain ⟨input, copied, _⟩ := copyCells_spec maxInput maxInput (fun _ => (0 : UInt8)) sh.input
        (by omega) (Int.le_refl _)
      rw [copied, last]
      refine ⟨_, rfl, ⟨trivial, rfl, rfl, isLine_nil⟩, ⟨kept.executed, kept.areLines, kept.count, kept.rows⟩, ?_, ?_⟩
      · dsimp only [LineEditor.goTo]
        omega
      · exact Nat.zero_le _
    · apply recallLine_shows kept
      · omega
      · omega
      · dsimp only
        omega
  · rw [if_neg (by omega), if_neg forward]
    exact ⟨sh, rfl, shows⟩

/-- A line that is not empty takes the place of the oldest one of the history. -/
theorem saveLine_shows (history : ShowsHistory sh lines) (holds : HoldsString sh.input line) (isLine : IsLine line) :
    (sh.historyCount < 2 ^ 31 - 1 →
      ∃ rows, saveLine sh = some { sh with
          history := rows, historyCount := sh.historyCount + 1, historyPos := sh.historyCount + 1 } ∧
        Remembers 20 (fun slot line => HoldsString (rows slot) line) (line :: entered lines)) ∧
    (¬sh.historyCount < 2 ^ 31 - 1 → saveLine sh = none) := by
  obtain ⟨_, _, count, rows⟩ := history
  obtain ⟨spells, ended⟩ := holds
  have fits := isLine.1
  have slot : sh.historyCount.tmod 20 = ((entered lines).length % 20 : Nat) := by
    rw [count, Int.tmod_eq_emod_of_nonneg (by omega)]
    omega
  obtain ⟨row, copied, same⟩ := copyCells_spec maxInput maxInput sh.input
    (sh.history ((entered lines).length % 20 : Nat)) (by omega) (Int.le_refl _)
  have inside : 0 ≤ (((entered lines).length % 20 : Nat) : Int) ∧ (((entered lines).length % 20 : Nat) : Int) < 20 := by
    omega
  unfold saveLine
  dsimp only
  rw [slot, readCell_eq sh.history inside, Option.bind_some, copied, Option.bind_some, writeCell_eq sh.history inside,
    Option.bind_some]
  constructor
  · intro few
    rw [if_pos few]
    refine ⟨_, rfl, rows.push ?_ ?_⟩
    · rw [Function.update_self]
      exact ⟨spells.congr fun i low high => same i low (by omega), (same _ (by omega) (by omega)).trans ended⟩
    · intro other old different kept
      rw [Function.update_of_ne (by omega)]
      exact kept
  · exact fun many => if_neg many

/-- A line that is entered has a terminator written behind it. -/
theorem Shows.terminated (shows : Shows sh ref) :
    writeCell maxInput sh.input sh.pos 0 = some (Function.update sh.input sh.pos 0) ∧
      HoldsString (Function.update sh.input sh.pos 0) ref.line.text := by
  obtain ⟨spells, pos, _, isLine⟩ := shows.line
  have fits := isLine.1
  refine ⟨writeCell_eq sh.input (by omega) 0, ?_⟩
  rw [pos]
  exact holdsString_end spells

theorem keyEnter_shows (shows : Shows sh ref) (few : (entered ref.enter.lines).length < 2 ^ 31) :
    ∃ sh', keyEnter sh = some sh' ∧ Shows sh' ref.enter := by
  obtain ⟨written, holds⟩ := shows.terminated
  obtain ⟨⟨_, pos, _, isLine⟩, history, back, depth⟩ := shows
  obtain ⟨executed, areLines, count, rows⟩ := history
  have read := cString_spells holds.1 isLine.nonzero holds.2 isLine.1
  have areLines' : ∀ line ∈ ref.line.text :: ref.lines, IsLine line := by
    intro line member
    rcases List.mem_cons.mp member with rfl | old
    · exact isLine
    · exact areLines line old
  unfold keyEnter
  simp only [written, bind, Option.bind_some]
  by_cases empty : ref.line.text = []
  · have same : entered (ref.line.text :: ref.lines) = entered ref.lines := List.filter_cons_of_neg (by simpa using empty)
    rw [empty, List.length_nil] at pos
    rw [if_neg (by omega), read]
    refine ⟨_, rfl, ⟨trivial, rfl, rfl, isLine_nil⟩, ⟨?_, areLines', ?_, ?_⟩, ?_, ?_⟩
    · exact congrArg (ref.line.text :: ·) executed
    · exact count.trans (congrArg (fun lines : List (List UInt8) => (lines.length : Int)) same.symm)
    · dsimp only [LineEditor.enter]
      rw [same]
      exact rows
    · dsimp only [LineEditor.enter]
      rw [if_pos empty]
      exact back
    · dsimp only [LineEditor.enter, LineEditor.reach]
      rw [if_pos empty, same]
      exact depth
  · have more : entered (ref.line.text :: ref.lines) = ref.line.text :: entered ref.lines :=
      List.filter_cons_of_pos (by simpa using empty)
    have positive := List.length_pos_iff.mpr empty
    have within : (entered (ref.line.text :: ref.lines)).length < 2 ^ 31 := few
    rw [more, List.length_cons] at within
    have kept : ShowsHistory { sh with input := Function.update sh.input sh.pos 0 } ref.lines :=
      ⟨executed, areLines, count, rows⟩
    obtain ⟨rows', saved, remembers⟩ := (saveLine_shows kept holds isLine).1 (by dsimp only; omega)
    rw [if_pos (by omega), saved]
    dsimp only [Option.bind_some]
    rw [read]
    refine ⟨_, rfl, ⟨trivial, rfl, rfl, isLine_nil⟩, ⟨?_, areLines', ?_, ?_⟩, ?_, ?_⟩
    · exact congrArg (ref.line.text :: ·) executed
    · dsimp only [LineEditor.enter]
      rw [more, List.length_cons]
      omega
    · dsimp only [LineEditor.enter]
      rw [more]
      exact remembers
    · dsimp only [LineEditor.enter]
      rw [if_neg empty]
      omega
    · dsimp only [LineEditor.enter]
      rw [if_neg empty]
      exact Nat.zero_le _

end Keys

end LivlyOS.Shell
