import LivlyOS.Console.Console
import LivlyOS.Lib.Run
import LivlyOS.Shell.Shell

namespace LivlyOS.Shell

open LivlyOS.Lib LivlyOS.Console

/-- Print the cells of the input line from `lo` up to `hi`. -/
def printInput (input : Int → UInt8) (lo hi : Int) (vga : VgaState) : Option VgaState :=
  forUp lo hi (fun i vga => (readCell maxInput input i).bind fun c => consolePutchar c vga) vga

/-- What Up and Down print: the line from the prompt on, and blanks up to 60 cells. -/
def drawRecalled (sh : ShellState) (promptCol promptRow : Int) (vga : VgaState) : Option VgaState := do
  let vga ← consoleSetPos promptCol promptRow vga
  let vga ← printInput sh.input 0 sh.pos vga
  let vga ← forUp sh.pos 60 (fun _ => consolePutchar 32) vga
  consoleSetPos (promptCol + sh.cur) promptRow vga

/-- What Backspace prints: the line from the prompt on, and one blank. -/
def drawErased (sh : ShellState) (promptCol promptRow : Int) (vga : VgaState) : Option VgaState := do
  let vga ← consoleSetPos promptCol promptRow vga
  let vga ← printInput sh.input 0 sh.pos vga
  let vga ← consolePutchar 32 vga
  consoleSetPos (promptCol + sh.cur) promptRow vga

/-- What a character prints: the line from the new character on. -/
def drawTyped (sh : ShellState) (promptCol promptRow : Int) (vga : VgaState) : Option VgaState := do
  let vga ← consoleSetPos (promptCol + sh.cur - 1) promptRow vga
  let vga ← printInput sh.input (sh.cur - 1) sh.pos vga
  consoleSetPos (promptCol + sh.cur) promptRow vga

/-- The console calls of one turn of `shell_run`, from the variables before and after it. -/
def drawKey (c : UInt8) (old sh : ShellState) (promptCol promptRow : Int) (vga : VgaState) : Option VgaState :=
  if c = 10 then consolePutchar 10 vga
  else if c = 0x80 then
    if old.historyPos > 0 ∧ old.historyPos > old.historyCount - 20 then drawRecalled sh promptCol promptRow vga else some vga
  else if c = 0x81 then
    if old.historyPos < old.historyCount then drawRecalled sh promptCol promptRow vga else some vga
  else if c = 0x82 then
    if old.cur > 0 then consoleSetPos (promptCol + sh.cur) promptRow vga else some vga
  else if c = 0x83 then
    if old.cur < old.pos then consoleSetPos (promptCol + sh.cur) promptRow vga else some vga
  else if c = 8 then
    if old.cur > 0 then drawErased sh promptCol promptRow vga else some vga
  else if 0x20 ≤ c ∧ c < 0x80 then
    if old.pos < maxInput - 1 then drawTyped sh promptCol promptRow vga else some vga
  else some vga

/-- The cursor is inside the line, and the line inside the array. -/
def CursorFits (sh : ShellState) : Prop := (0 ≤ sh.cur ∧ sh.cur ≤ sh.pos) ∧ sh.pos < maxInput

/-- The shell with its prompt on the screen. -/
structure ShellScreen where
  sh : ShellState
  vga : VgaState
  promptCol : Int
  promptRow : Int

/-- The shell behind its first prompt. -/
def screenInit (stack : Int → UInt8) (vga : VgaState) : ShellScreen := ⟨shellInit stack, vga, vga.col, vga.row⟩

namespace ShellScreen

/-- One turn of `shell_run`. What a command and the next prompt print is left open: the new prompt
is anywhere on the screen. -/
structure Step (st : ShellScreen) (c : UInt8) (st' : ShellScreen) : Prop where
  key : shellKey c st.sh = some st'.sh
  draws : ∃ vga, drawKey c st.sh st'.sh st.promptCol st.promptRow st.vga = some vga ∧ (c ≠ 10 → st'.vga = vga)
  prompt : if c = 10 then st'.vga.OnScreen ∧ st'.promptCol = st'.vga.col ∧ st'.promptRow = st'.vga.row
    else st'.promptCol = st.promptCol ∧ st'.promptRow = st.promptRow

/-- Every cell and every line length that the key's console calls write is inside. -/
def DrawsInside (st : ShellScreen) (c : UInt8) : Prop :=
  ∀ sh', shellKey c st.sh = some sh' → ∃ vga, drawKey c st.sh sh' st.promptCol st.promptRow st.vga = some vga

/-- A character that the line takes has its cell on the screen. -/
def TypesInside (st : ShellScreen) (c : UInt8) : Prop :=
  0x20 ≤ c ∧ c < 0x80 → st.sh.pos < maxInput - 1 → st.promptRow * 80 + (st.promptCol + st.sh.cur) < 2000

/-- The line fits the array, the prompt is on the screen and the cursor is where the line has it. -/
structure Sound (st : ShellScreen) : Prop where
  fits : CursorFits st.sh
  col : 0 ≤ st.promptCol ∧ st.promptCol < 80
  row : 0 ≤ st.promptRow ∧ st.promptRow < 25
  vga : st.vga.row = st.promptRow ∧ st.vga.col = st.promptCol + st.sh.cur

end ShellScreen

theorem printInput_onScreen (onScreen : VgaState.OnScreen vga) (input : Int → UInt8) (lo hi : Int) (low : 0 ≤ lo)
    (high : hi < maxInput) : ∃ vga', printInput input lo hi vga = some vga' ∧ vga'.OnScreen := by
  refine forUp_kept lo hi _ vga VgaState.OnScreen (fun i vga above below shown => ?_) onScreen
  obtain ⟨next, stored, shown'⟩ := shown.putchar (input i)
  refine ⟨next, ?_, shown'⟩
  rw [readCell_eq input (by omega), Option.bind_some, stored]

section

variable {sh : ShellState} {promptCol promptRow : Int}

/-- Going back to the cursor of the line, wherever that is. -/
theorem placeCursor (sh : ShellState) (row : 0 ≤ promptRow ∧ promptRow < 25) (col : 0 ≤ promptCol ∧ promptCol < 80)
    (cur : 0 ≤ sh.cur ∧ sh.cur < maxInput) (vga : VgaState) :
    ∃ vga', consoleSetPos (promptCol + sh.cur) promptRow vga = some vga' ∧
      vga'.row = promptRow ∧ vga'.col = promptCol + sh.cur := by
  have bound : (maxInput : Int) = 10000 := rfl
  exact ⟨_, consoleSetPos_eq row.1 (Int.le_of_lt row.2) (by omega) (by omega) vga, rfl, rfl⟩

/-- Printing the line from the prompt on and then anything that stays on the screen, and going back. -/
theorem redraw_spec (row : 0 ≤ promptRow ∧ promptRow < 25) (col : 0 ≤ promptCol ∧ promptCol < 80)
    (cur : 0 ≤ sh.cur ∧ sh.cur ≤ sh.pos) (pos : sh.pos < maxInput) {blank : VgaState → Option VgaState}
    (blanks : ∀ vga, vga.OnScreen → ∃ vga', blank vga = some vga' ∧ vga'.OnScreen) (vga : VgaState) :
    ∃ vga', ((consoleSetPos promptCol promptRow vga).bind fun vga => (printInput sh.input 0 sh.pos vga).bind fun vga =>
        (blank vga).bind (consoleSetPos (promptCol + sh.cur) promptRow)) = some vga' ∧
      vga'.row = promptRow ∧ vga'.col = promptCol + sh.cur := by
  rw [consoleSetPos_eq row.1 (Int.le_of_lt row.2) col.1 (by omega), Option.bind_some]
  have prompt : VgaState.OnScreen
      { vga with col := promptCol, row := promptRow, cursor := UInt16.ofInt (promptRow * 80 + promptCol) } := ⟨row, col⟩
  obtain ⟨printed, first, onScreen⟩ := printInput_onScreen prompt sh.input 0 sh.pos (Int.le_refl 0) pos
  obtain ⟨blanked, second, _⟩ := blanks printed onScreen
  obtain ⟨vga', placed, where'⟩ := placeCursor sh row col (by omega) blanked
  exact ⟨vga', by rw [first, Option.bind_some, second, Option.bind_some, placed], where'⟩

theorem drawRecalled_spec (row : 0 ≤ promptRow ∧ promptRow < 25) (col : 0 ≤ promptCol ∧ promptCol < 80)
    (cur : 0 ≤ sh.cur ∧ sh.cur ≤ sh.pos) (pos : sh.pos < maxInput) (vga : VgaState) :
    ∃ vga', drawRecalled sh promptCol promptRow vga = some vga' ∧
      vga'.row = promptRow ∧ vga'.col = promptCol + sh.cur :=
  redraw_spec row col cur pos (fun vga onScreen => forUp_kept sh.pos 60 (fun _ => consolePutchar 32) vga
    VgaState.OnScreen (fun _ _ _ _ shown => shown.putchar 32) onScreen) vga

theorem drawErased_spec (row : 0 ≤ promptRow ∧ promptRow < 25) (col : 0 ≤ promptCol ∧ promptCol < 80)
    (cur : 0 ≤ sh.cur ∧ sh.cur ≤ sh.pos) (pos : sh.pos < maxInput) (vga : VgaState) :
    ∃ vga', drawErased sh promptCol promptRow vga = some vga' ∧
      vga'.row = promptRow ∧ vga'.col = promptCol + sh.cur :=
  redraw_spec row col cur pos (fun _ onScreen => onScreen.putchar 32) vga

/-- The first character of a typed key decides: behind it the cursor is on the screen. -/
theorem drawTyped_spec (row : 0 ≤ promptRow ∧ promptRow < 25) (col : 0 ≤ promptCol ∧ promptCol < 80)
    (cur : 1 ≤ sh.cur ∧ sh.cur ≤ sh.pos) (pos : sh.pos < maxInput)
    (inside : promptRow * 80 + (promptCol + sh.cur - 1) < 2000) (vga : VgaState) :
    ∃ vga', drawTyped sh promptCol promptRow vga = some vga' ∧
      vga'.row = promptRow ∧ vga'.col = promptCol + sh.cur := by
  have bound : (maxInput : Int) = 10000 := rfl
  obtain ⟨typed, first, onScreen⟩ := VgaState.putchar_inside { vga with
    col := promptCol + sh.cur - 1, row := promptRow, cursor := UInt16.ofInt (promptRow * 80 + (promptCol + sh.cur - 1)) }
    row ⟨by dsimp only; omega, by dsimp only; omega⟩ inside (sh.input (sh.cur - 1))
  obtain ⟨printed, second, _⟩ := printInput_onScreen onScreen sh.input sh.cur sh.pos (by omega) pos
  obtain ⟨vga', placed, where'⟩ := placeCursor sh row col (by omega) printed
  refine ⟨vga', ?_, where'⟩
  change (consoleSetPos _ _ vga).bind (fun vga => (printInput _ _ _ vga).bind _) = _
  rw [consoleSetPos_eq row.1 (Int.le_of_lt row.2) (by omega) (by omega), Option.bind_some, printInput, forUp_next (by omega),
    readCell_eq sh.input (by omega), Option.bind_some, first, Option.bind_some, Int.sub_add_cancel]
  change (printInput _ _ _ typed).bind _ = _
  rw [second, Option.bind_some, placed]

/-- It is stored outside of the screen memory when its cell is not on the screen. -/
theorem drawTyped_outside (row : 0 ≤ promptRow ∧ promptRow < 25) (col : 0 ≤ promptCol ∧ promptCol < 80)
    (cur : 1 ≤ sh.cur ∧ sh.cur ≤ sh.pos) (pos : sh.pos < maxInput)
    (outside : 2000 ≤ promptRow * 80 + (promptCol + sh.cur - 1)) (plain : sh.input (sh.cur - 1) ≠ 10) (vga : VgaState) :
    drawTyped sh promptCol promptRow vga = none := by
  have bound : (maxInput : Int) = 10000 := rfl
  have missed := VgaState.putchar_outside { vga with
    col := promptCol + sh.cur - 1, row := promptRow, cursor := UInt16.ofInt (promptRow * 80 + (promptCol + sh.cur - 1)) }
    row ⟨by dsimp only; omega, by dsimp only; omega⟩ outside plain
  change (consoleSetPos _ _ vga).bind (fun vga => (printInput _ _ _ vga).bind _) = _
  rw [consoleSetPos_eq row.1 (Int.le_of_lt row.2) (by omega) (by omega), Option.bind_some, printInput, forUp_next (by omega),
    readCell_eq sh.input (by omega), Option.bind_some, missed]
  rfl

end

theorem keyEnter_reset (key : keyEnter sh = some sh') : sh'.pos = 0 ∧ sh'.cur = 0 := by
  unfold keyEnter at key
  obtain ⟨input, _, key⟩ := Option.bind_eq_some_iff.mp key
  dsimp only at key
  split at key
  · obtain ⟨saved, _, key⟩ := Option.bind_eq_some_iff.mp key
    obtain ⟨line, _, key⟩ := Option.bind_eq_some_iff.mp key
    cases key
    exact ⟨rfl, rfl⟩
  · obtain ⟨same, _, key⟩ := Option.bind_eq_some_iff.mp key
    obtain ⟨line, _, key⟩ := Option.bind_eq_some_iff.mp key
    cases key
    exact ⟨rfl, rfl⟩

theorem recallLine_fits (recalled : recallLine sh = some sh') : CursorFits sh' := by
  obtain ⟨row, _, rest⟩ := Option.bind_eq_some_iff.mp recalled
  obtain ⟨input, _, read⟩ := Option.bind_eq_some_iff.mp rest
  obtain ⟨line, text, rfl⟩ := Option.map_eq_some_iff.mp read
  have short := cString_length text
  exact ⟨⟨Int.natCast_nonneg _, Int.le_refl _⟩, Int.ofNat_lt.mpr short⟩

theorem keyDown_fits (more : sh.historyPos < sh.historyCount) (key : keyDown sh = some sh') : CursorFits sh' := by
  unfold keyDown at key
  rw [if_pos more] at key
  dsimp only at key
  split at key
  · obtain ⟨input, _, rfl⟩ := Option.map_eq_some_iff.mp key
    exact ⟨⟨Int.le_refl 0, Int.le_refl 0⟩, (by decide : (0 : Int) < maxInput)⟩
  · exact recallLine_fits key

theorem keyBackspace_fits (fits : CursorFits sh) (behind : sh.cur > 0) (key : keyBackspace sh = some sh') :
    CursorFits sh' := by
  unfold keyBackspace at key
  rw [if_pos behind] at key
  obtain ⟨moved, _, key⟩ := Option.bind_eq_some_iff.mp key
  obtain ⟨input, _, key⟩ := Option.bind_eq_some_iff.mp key
  cases key
  obtain ⟨cur, pos⟩ := fits
  unfold CursorFits
  dsimp only
  omega

/-- A character that the line takes is behind the old cursor. -/
theorem keyChar_spec (fits : CursorFits sh) (room : sh.pos < maxInput - 1) (c : UInt8) :
    ∃ sh', keyChar c sh = some sh' ∧ sh'.pos = sh.pos + 1 ∧ sh'.cur = sh.cur + 1 ∧ sh'.input sh.cur = c := by
  obtain ⟨⟨low, high⟩, pos⟩ := fits
  obtain ⟨input, shifted, _⟩ := shiftUp_spec maxInput sh.cur sh.pos sh.input low high pos
  refine ⟨{ sh with input := Function.update input sh.cur c, pos := sh.pos + 1, cur := sh.cur + 1 }, ?_, rfl, rfl,
    Function.update_self ..⟩
  unfold keyChar
  rw [if_pos room, shifted]
  change (writeCell maxInput input sh.cur c).bind _ = _
  rw [writeCell_eq input ⟨low, by omega⟩]
  rfl

namespace ShellScreen

variable {st st' : ShellScreen} {c : UInt8}

theorem printable_ne (printable : 0x20 ≤ c ∧ c < 0x80) :
    c ≠ 10 ∧ c ≠ 0x80 ∧ c ≠ 0x81 ∧ c ≠ 0x82 ∧ c ≠ 0x83 ∧ c ≠ 8 := by
  obtain ⟨low, high⟩ := printable
  refine ⟨?_, ?_, ?_, ?_, ?_, ?_⟩
  all_goals
    rintro rfl
    first
      | exact absurd low (by decide)
      | exact absurd high (by decide)

/-- The line fits, everything is drawn inside, and the console is where the line has its cursor. -/
def Follows (st : ShellScreen) (sh' : ShellState) (drawn : Option VgaState) : Prop :=
  CursorFits sh' ∧ ∃ vga, drawn = some vga ∧ vga.row = st.promptRow ∧ vga.col = st.promptCol + sh'.cur

theorem Sound.still (sound : Sound st) : Follows st st.sh (some st.vga) := ⟨sound.fits, st.vga, rfl, sound.vga⟩

theorem Sound.place (sound : Sound st) (fits : CursorFits sh') :
    Follows st sh' (consoleSetPos (st.promptCol + sh'.cur) st.promptRow st.vga) :=
  ⟨fits, placeCursor sh' sound.row sound.col ⟨fits.1.1, Int.lt_of_le_of_lt fits.1.2 fits.2⟩ st.vga⟩

theorem Sound.recalled (sound : Sound st) (fits : CursorFits sh') :
    Follows st sh' (drawRecalled sh' st.promptCol st.promptRow st.vga) :=
  ⟨fits, drawRecalled_spec sound.row sound.col fits.1 fits.2 st.vga⟩

theorem Sound.keyUp_follows (sound : Sound st) (key : keyUp st.sh = some sh') :
    Follows st sh' (drawKey 0x80 st.sh sh' st.promptCol st.promptRow st.vga) := by
  change Follows st sh' (if st.sh.historyPos > 0 ∧ st.sh.historyPos > st.sh.historyCount - 20 then _ else _)
  unfold keyUp at key
  split at key
  · rw [if_pos ‹_›]
    exact sound.recalled (recallLine_fits key)
  · rw [if_neg ‹_›]
    cases key
    exact sound.still

theorem Sound.keyDown_follows (sound : Sound st) (key : keyDown st.sh = some sh') :
    Follows st sh' (drawKey 0x81 st.sh sh' st.promptCol st.promptRow st.vga) := by
  change Follows st sh' (if st.sh.historyPos < st.sh.historyCount then _ else _)
  by_cases more : st.sh.historyPos < st.sh.historyCount
  · rw [if_pos more]
    exact sound.recalled (keyDown_fits more key)
  · rw [if_neg more]
    rw [keyDown, if_neg more] at key
    cases key
    exact sound.still

theorem Sound.keyLeft_follows (sound : Sound st) :
    Follows st (keyLeft st.sh) (drawKey 0x82 st.sh (keyLeft st.sh) st.promptCol st.promptRow st.vga) := by
  change Follows st _ (if st.sh.cur > 0 then consoleSetPos (st.promptCol + (keyLeft st.sh).cur) st.promptRow st.vga else _)
  obtain ⟨⟨low, high⟩, pos⟩ := sound.fits
  unfold keyLeft
  split
  · exact sound.place ⟨⟨by dsimp only; omega, by dsimp only; omega⟩, pos⟩
  · exact sound.still

theorem Sound.keyRight_follows (sound : Sound st) :
    Follows st (keyRight st.sh) (drawKey 0x83 st.sh (keyRight st.sh) st.promptCol st.promptRow st.vga) := by
  change Follows st _
    (if st.sh.cur < st.sh.pos then consoleSetPos (st.promptCol + (keyRight st.sh).cur) st.promptRow st.vga else _)
  obtain ⟨⟨low, high⟩, pos⟩ := sound.fits
  unfold keyRight
  split
  · exact sound.place ⟨⟨by dsimp only; omega, by dsimp only; omega⟩, pos⟩
  · exact sound.still

theorem Sound.keyBackspace_follows (sound : Sound st) (key : keyBackspace st.sh = some sh') :
    Follows st sh' (drawKey 8 st.sh sh' st.promptCol st.promptRow st.vga) := by
  change Follows st sh' (if st.sh.cur > 0 then _ else _)
  by_cases behind : st.sh.cur > 0
  · rw [if_pos behind]
    have fits := keyBackspace_fits sound.fits behind key
    exact ⟨fits, drawErased_spec sound.row sound.col fits.1 fits.2 st.vga⟩
  · rw [if_neg behind]
    rw [keyBackspace, if_neg behind] at key
    cases key
    exact sound.still

theorem drawKey_char (printable : 0x20 ≤ c ∧ c < 0x80) (old sh' : ShellState) (promptCol promptRow : Int) (vga : VgaState) :
    drawKey c old sh' promptCol promptRow vga =
      if old.pos < maxInput - 1 then drawTyped sh' promptCol promptRow vga else some vga := by
  obtain ⟨enter, up, down, left, right, back⟩ := printable_ne printable
  unfold drawKey
  rw [if_neg enter, if_neg up, if_neg down, if_neg left, if_neg right, if_neg back, if_pos printable]

theorem shellKey_char (printable : 0x20 ≤ c ∧ c < 0x80) (sh : ShellState) : shellKey c sh = keyChar c sh := by
  obtain ⟨enter, up, down, left, right, back⟩ := printable_ne printable
  unfold shellKey
  rw [if_neg enter, if_neg up, if_neg down, if_neg left, if_neg right, if_neg back, if_pos printable]

theorem Sound.keyChar_follows (sound : Sound st) (printable : 0x20 ≤ c ∧ c < 0x80) (inside : TypesInside st c)
    (key : keyChar c st.sh = some sh') : Follows st sh' (drawKey c st.sh sh' st.promptCol st.promptRow st.vga) := by
  rw [drawKey_char printable]
  by_cases room : st.sh.pos < maxInput - 1
  · obtain ⟨typed, taken, pos, cur, _⟩ := keyChar_spec sound.fits room c
    cases taken.symm.trans key
    obtain ⟨⟨low, high⟩, _⟩ := sound.fits
    have place := inside printable room
    rw [if_pos room]
    refine ⟨⟨⟨by omega, by omega⟩, by omega⟩, ?_⟩
    exact drawTyped_spec sound.row sound.col ⟨by omega, by omega⟩ (by omega) (by omega) st.vga
  · rw [if_neg room]
    rw [keyChar, if_neg room] at key
    cases key
    exact sound.still

/-- What a key other than Enter draws is inside under the condition. -/
theorem Sound.follows (sound : Sound st) (inside : TypesInside st c) (plain : c ≠ 10) (key : shellKey c st.sh = some sh') :
    Follows st sh' (drawKey c st.sh sh' st.promptCol st.promptRow st.vga) := by
  by_cases up : c = 0x80
  · subst up
    exact sound.keyUp_follows key
  by_cases down : c = 0x81
  · subst down
    exact sound.keyDown_follows key
  by_cases left : c = 0x82
  · subst left
    cases key
    exact sound.keyLeft_follows
  by_cases right : c = 0x83
  · subst right
    cases key
    exact sound.keyRight_follows
  by_cases back : c = 8
  · subst back
    exact sound.keyBackspace_follows key
  by_cases printable : 0x20 ≤ c ∧ c < 0x80
  · exact sound.keyChar_follows printable inside (shellKey_char printable st.sh ▸ key)
  · unfold shellKey at key
    rw [if_neg plain, if_neg up, if_neg down, if_neg left, if_neg right, if_neg back, if_neg printable] at key
    cases key
    unfold drawKey
    rw [if_neg plain, if_neg up, if_neg down, if_neg left, if_neg right, if_neg back, if_neg printable]
    exact sound.still

theorem Sound.step (sound : Sound st) (inside : TypesInside st c) (step : Step st c st') : Sound st' := by
  obtain ⟨key, ⟨vga, drawn, shown⟩, prompt⟩ := step
  by_cases enter : c = 10
  · rw [if_pos enter] at prompt
    obtain ⟨onScreen, col, row⟩ := prompt
    subst enter
    obtain ⟨pos, cur⟩ := keyEnter_reset key
    refine ⟨?_, col ▸ onScreen.col, row ▸ onScreen.row, row.symm, by rw [cur, col, Int.add_zero]⟩
    unfold CursorFits
    rw [pos, cur]
    decide
  · rw [if_neg enter] at prompt
    obtain ⟨col, row⟩ := prompt
    obtain ⟨fits, drawn', same, vgaRow, vgaCol⟩ := sound.follows inside enter key
    cases drawn.symm.trans same
    exact ⟨fits, col ▸ sound.col, row ▸ sound.row, by rw [shown enter, row, col]; exact ⟨vgaRow, vgaCol⟩⟩

/-- In a sound state the condition is exactly what the next key needs. -/
theorem Sound.drawsInside_iff (sound : Sound st) (c : UInt8) : DrawsInside st c ↔ TypesInside st c := by
  constructor
  · intro draws printable room
    by_contra outside
    obtain ⟨sh', taken, pos, cur, here⟩ := keyChar_spec sound.fits room c
    obtain ⟨vga, drawn⟩ := draws sh' ((shellKey_char printable st.sh).trans taken)
    obtain ⟨⟨low, high⟩, _⟩ := sound.fits
    have typed : sh'.input (sh'.cur - 1) ≠ 10 := by
      rw [cur, Int.add_sub_cancel, here]
      exact (printable_ne printable).1
    rw [drawKey_char printable, if_pos room, drawTyped_outside sound.row sound.col ⟨by omega, by omega⟩ (by omega)
      (by omega) typed] at drawn
    cases drawn
  · intro inside sh' key
    by_cases enter : c = 10
    · obtain ⟨vga, drawn, _⟩ := VgaState.newline_onScreen st.vga (sound.vga.1 ▸ sound.row)
      exact ⟨vga, (if_pos enter).trans drawn⟩
    · obtain ⟨_, vga, drawn, _⟩ := sound.follows inside enter key
      exact ⟨vga, drawn⟩

theorem screenInit_sound (stack : Int → UInt8) {vga : VgaState} (onScreen : vga.OnScreen) : Sound (screenInit stack vga) where
  fits := (by decide : ((0 : Int) ≤ 0 ∧ (0 : Int) ≤ 0) ∧ (0 : Int) < maxInput)
  col := onScreen.col
  row := onScreen.row
  vga := ⟨rfl, (Int.add_zero _).symm⟩

theorem Sound.typed (sound : Sound st) (printable : 0x20 ≤ c ∧ c < 0x80) (room : st.sh.pos < maxInput - 1)
    (inside : TypesInside st c) :
    ∃ st', Step st c st' ∧ st'.sh.pos = st.sh.pos + 1 ∧ st'.sh.cur = st.sh.cur + 1 ∧
      st'.promptCol = st.promptCol ∧ st'.promptRow = st.promptRow := by
  obtain ⟨sh', taken, pos, cur, _⟩ := keyChar_spec sound.fits room c
  have key := (shellKey_char printable st.sh).trans taken
  have plain := (printable_ne printable).1
  obtain ⟨_, vga, drawn, _⟩ := sound.follows inside plain key
  exact ⟨⟨sh', vga, st.promptCol, st.promptRow⟩, ⟨key, ⟨vga, drawn, fun _ => rfl⟩, (if_neg plain).mpr ⟨rfl, rfl⟩⟩,
    pos, cur, rfl, rfl⟩

end ShellScreen

open ShellScreen

/-- As long as every typed character has its cell on the screen, everything is printed there; and
the next key is exactly when this holds of it. -/
theorem shell_typing_inside {vga : VgaState} (onScreen : vga.OnScreen)
    (run : Run ShellScreen.Step TypesInside (screenInit stack vga) keys st) (c : UInt8) :
    DrawsInside st c ↔ TypesInside st c :=
  (run.invariant Sound (fun _ _ _ sound inside step => sound.step inside step) (screenInit_sound stack onScreen)).drawsInside_iff c

/-- A shell whose prompt ends in the given column of the last row. -/
def lastRowScreen (col : Int) : ShellScreen := screenInit (fun _ => 0) { vgaStart (fun _ => 0) with row := 24, col }

theorem shell_typing_inside_oneKey :
    ∃ st, Run ShellScreen.Step TypesInside (lastRowScreen 7) [97] st ∧ (DrawsInside st 98 ↔ TypesInside st 98) := by
  have onScreen : VgaState.OnScreen { vgaStart (fun _ => 0) with row := 24, col := 7 } := ⟨by decide, by decide⟩
  have inside : TypesInside (lastRowScreen 7) 97 := fun _ _ => by decide
  obtain ⟨st, step, _⟩ := (screenInit_sound (fun _ => 0) onScreen).typed (c := 97) (by decide) (by decide) inside
  have run : Run ShellScreen.Step TypesInside (lastRowScreen 7) [97] st := .next inside step .done
  exact ⟨st, run, shell_typing_inside onScreen run 98⟩

/-- Behind a prompt that ends in column 79 of the last row, the second character is stored behind
the screen memory. -/
theorem typing_leaves_screen :
    ∃ st, Run ShellScreen.Step (fun _ _ => True) (lastRowScreen 79) [97] st ∧ ¬ DrawsInside st 98 := by
  have onScreen : VgaState.OnScreen { vgaStart (fun _ => 0) with row := 24, col := 79 } := ⟨by decide, by decide⟩
  have inside : TypesInside (lastRowScreen 79) 97 := fun _ _ => by decide
  have sound := screenInit_sound (fun _ => 0) onScreen
  obtain ⟨st, step, pos, cur, col, row⟩ := sound.typed (c := 97) (by decide) (by decide) inside
  refine ⟨st, .next trivial step .done, fun draws => ?_⟩
  have cell := ((sound.step inside step).drawsInside_iff 98).mp draws (by decide) (by rw [pos]; decide)
  rw [cur, col, row] at cell
  exact absurd cell (by decide)

end LivlyOS.Shell
