import LivlyOS.Shell.Commands

/-! The input line of the shell and its history. HISTORY_SIZE is 20; what is printed
is left out. -/

namespace LivlyOS.Shell

open LivlyOS.Lib

/-- The variables of `shell_run`, the history, and the strings that went to
`shell_execute`, latest first. -/
structure ShellState where
  input : Int → UInt8
  pos : Int
  cur : Int
  history : Int → Int → UInt8
  historyCount : Int
  historyPos : Int
  executed : List (List UInt8)

/-- Copy the line to the history. An `int` that counts past its end ends the run. -/
def saveLine (sh : ShellState) : Option ShellState :=
  let slot := sh.historyCount.tmod 20
  (readCell 20 sh.history slot).bind fun row =>
    (copyCells maxInput maxInput sh.input row).bind fun row =>
      (writeCell 20 sh.history slot row).bind fun history =>
        if sh.historyCount < 2 ^ 31 - 1 then
          some { sh with history, historyCount := sh.historyCount + 1, historyPos := sh.historyCount + 1 }
        else none

def keyEnter (sh : ShellState) : Option ShellState := do
  let input ← writeCell maxInput sh.input sh.pos 0
  let sh := { sh with input }
  let sh ← if sh.pos > 0 then saveLine sh else some sh
  let line ← cString maxInput sh.input
  some { sh with executed := line :: sh.executed, pos := 0, cur := 0 }

/-- Take the line at `history_pos` and go to its end. -/
def recallLine (sh : ShellState) : Option ShellState :=
  (readCell 20 sh.history (sh.historyPos.tmod 20)).bind fun row =>
    (copyCells maxInput maxInput row sh.input).bind fun input =>
      (cString maxInput input).map fun line => { sh with input, pos := line.length, cur := line.length }

def keyUp (sh : ShellState) : Option ShellState :=
  if sh.historyPos > 0 ∧ sh.historyPos > sh.historyCount - 20 then
    recallLine { sh with historyPos := sh.historyPos - 1 }
  else some sh

def keyDown (sh : ShellState) : Option ShellState :=
  if sh.historyPos < sh.historyCount then
    let sh := { sh with historyPos := sh.historyPos + 1 }
    if sh.historyPos = sh.historyCount then
      (copyCells maxInput maxInput (fun _ => 0) sh.input).map fun input => { sh with input, pos := 0, cur := 0 }
    else recallLine sh
  else some sh

def keyLeft (sh : ShellState) : ShellState := if sh.cur > 0 then { sh with cur := sh.cur - 1 } else sh

def keyRight (sh : ShellState) : ShellState := if sh.cur < sh.pos then { sh with cur := sh.cur + 1 } else sh

def keyBackspace (sh : ShellState) : Option ShellState :=
  if sh.cur > 0 then do
    let input ← shiftDown maxInput (sh.cur - 1) (sh.pos - 1) sh.input
    let input ← writeCell maxInput input (sh.pos - 1) 0
    some { sh with input, pos := sh.pos - 1, cur := sh.cur - 1 }
  else some sh

def keyChar (c : UInt8) (sh : ShellState) : Option ShellState :=
  if sh.pos < maxInput - 1 then do
    let input ← shiftUp maxInput sh.pos sh.cur sh.input
    let input ← writeCell maxInput input sh.cur c
    some { sh with input, pos := sh.pos + 1, cur := sh.cur + 1 }
  else some sh

/-- One turn of the loop of `shell_run`. -/
def shellKey (c : UInt8) (sh : ShellState) : Option ShellState :=
  if c = 10 then keyEnter sh
  else if c = 0x80 then keyUp sh
  else if c = 0x81 then keyDown sh
  else if c = 0x82 then some (keyLeft sh)
  else if c = 0x83 then some (keyRight sh)
  else if c = 8 then keyBackspace sh
  else if 0x20 ≤ c ∧ c < 0x80 then keyChar c sh
  else some sh

/-- The loop over the keys that are typed. -/
def shellRun : List UInt8 → ShellState → Option ShellState
  | [], sh => some sh
  | c :: rest, sh => (shellKey c sh).bind (shellRun rest)

/-- The shell when it starts; the line holds whatever was on the stack. -/
def shellInit (stack : Int → UInt8) : ShellState := ⟨stack, 0, 0, fun _ _ => 0, 0, 0, []⟩

end LivlyOS.Shell
