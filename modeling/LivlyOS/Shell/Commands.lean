import LivlyOS.Lib.CString
import LivlyOS.Proc.Schedular

/-! The commands of the shell: how a line is split into words, which handler they
reach and what that hands on. A string is given by its bytes in front of the
terminator; an array access outside its bounds ends the run with nothing. -/

namespace LivlyOS.Shell

open LivlyOS.Lib LivlyOS.Proc

def maxInput : Nat := 10000

def bytes (text : String) : List UInt8 := text.toList.map fun c : Char => UInt8.ofNat c.toNat

/-- What a handler calls outside the shell. Handlers that look at no argument and
keep no array stand for themselves. -/
inductive Call where
  | help | clear | mem | ps | reboot | dir | test | editorHelp | memmoryTest
  | kprintf (format : String) (args : List (List UInt8))
  | schedularRemove (pid : UInt32)
  | fatWriteFile (name ext : List UInt8)
  | fatCreateDir (name : List UInt8)
  | fatCdRoot
  | fatCdBack
  | fatOpenDir (name : List UInt8)
  | fatDeleteFile (name : List UInt8)
  | fatRenameFile (name neu : List UInt8)
  | fatReadFile (name : List UInt8)
  | fatEditFile (name : List UInt8)
deriving DecidableEq

/-- Usage to check if both strings are equal. -/
def strEqual : (a b : List UInt8) → Bool
  | [], b => b.isEmpty
  | _ :: _, [] => false
  | x :: a, y :: b => if x ≠ y then false else strEqual a b

/-- `str_split` from word `word` of the input and place `j` of the output on. -/
def splitFrom (index : Nat) (input : List UInt8) (word : Nat) (j : Int) (out : Int → UInt8) : Option (Int → UInt8) :=
  match input with
  | [] => writeCell 64 out j 0
  | c :: rest =>
    if c = 32 then
      if word = index then writeCell 64 out j 0 else splitFrom index rest (word + 1) 0 out
    else if word = index then
      if j < 63 then (writeCell 64 out j c).bind (splitFrom index rest word (j + 1))
      else splitFrom index rest word j out
    else splitFrom index rest word j out

/-- Word number `index` of the input goes to an array of 64 bytes. -/
def strSplit (input : List UInt8) (index : Nat) (out : Int → UInt8) : Option (Int → UInt8) :=
  splitFrom index input 0 0 out

/-- `str_copy` from place `i` of an array of `size` bytes on. -/
def copyFrom (size : Int) (src : List UInt8) (i : Int) (dst : Int → UInt8) : Option (Int → UInt8) :=
  match src with
  | [] => writeCell size dst i 0
  | c :: rest => (writeCell size dst i c).bind (copyFrom size rest (i + 1))

def strCopy (size : Int) (src : List UInt8) (dst : Int → UInt8) : Option (Int → UInt8) := copyFrom size src 0 dst

/-- The number a string spells, in one byte. -/
def strToInt (str : List UInt8) : UInt8 := str.foldl (fun ans c => ans * 10 + (c - 48)) 0

def cmdStopProcess (arg : List UInt8) : Call := .schedularRemove (strToInt arg).toUInt32

def cmdCreateFile (arg arg2 : List UInt8) : List Call :=
  if arg = [] ∨ arg2 = [] then
    [.kprintf "Usage: create <name> <ext>\n" [], .kprintf "Example: create hello txt\n" []]
  else [.fatWriteFile arg arg2]

/-- The array `name` holds whatever was on the stack before. -/
def cmdMkdir (name : Int → UInt8) (arg : List UInt8) : Option (List Call) := do
  let name ← strCopy 16 (if arg = [] then bytes "default" else arg) name
  let name ← cString 16 name
  some [.fatCreateDir name]

def cmdCd (arg : List UInt8) : List Call :=
  if arg = [] then [.fatCdRoot]
  else if arg.take 2 = bytes ".." then [.fatCdBack]
  else [.fatOpenDir arg]

def cmdRemoveFile (arg : List UInt8) : List Call :=
  if arg = [] then [.kprintf "Usage: rm <fileName>" []] else [.fatDeleteFile arg]

def cmdRenameFile (arg arg2 : List UInt8) : List Call := [.fatRenameFile arg arg2]

/-- `cmd_cat` up to the call of the file system. -/
def cmdCat (arg : List UInt8) : List Call :=
  if arg = [] then [.kprintf "Usage: cat dateiname\n" []] else [.fatReadFile arg]

/-- The table of commands. The first argument is what the stack of a handler holds
when it starts. -/
def commands : List (String × ((Int → UInt8) → (arg arg2 : List UInt8) → Option (List Call))) :=
  [("help", fun _ _ _ => some [.help]),
   ("clear", fun _ _ _ => some [.clear]),
   ("mem", fun _ _ _ => some [.mem]),
   ("ps", fun _ _ _ => some [.ps]),
   ("reboot", fun _ _ _ => some [.reboot]),
   ("taskkill", fun _ arg _ => some [cmdStopProcess arg]),
   ("ls", fun _ _ _ => some [.dir]),
   ("create", fun _ arg arg2 => some (cmdCreateFile arg arg2)),
   ("test", fun _ _ _ => some [.test]),
   ("mkdir", fun stack arg _ => cmdMkdir stack arg),
   ("cd", fun _ arg _ => some (cmdCd arg)),
   ("editor_help", fun _ _ _ => some [.editorHelp]),
   ("rm", fun _ arg _ => some (cmdRemoveFile arg)),
   ("mv", fun _ arg arg2 => some (cmdRenameFile arg arg2)),
   ("stress_test", fun _ _ _ => some [.memmoryTest]),
   ("cat", fun _ arg _ => some (cmdCat arg))]

def shellExecuteSlash (cmd arg : List UInt8) : List Call :=
  if arg = [] then []
  else if strEqual cmd (bytes "/edit") then [.fatEditFile arg]
  else [.kprintf "Unkown command: %s\n" [cmd]]

/-- A word of the input, through an array of 64 zeros. -/
def wordOf (input : List UInt8) (index : Nat) : Option (List UInt8) :=
  (strSplit input index fun _ => 0).bind (cString 64)

/-- The loop over the table. -/
def dispatch (stack : Int → UInt8) (cmd arg arg2 : List UInt8) : Option (List Call) :=
  match commands.find? fun command => strEqual cmd (bytes command.1) with
  | some command => command.2 stack arg arg2
  | none => some [.kprintf "Unknown command: %s\n" [cmd]]

def shellExecute (stack : Int → UInt8) (input : List UInt8) : Option (List Call) := do
  let cmd ← wordOf input 0
  let arg ← wordOf input 1
  let arg2 ← wordOf input 2
  let _ ← wordOf input 3
  if cmd.head? = some 47 then some (shellExecuteSlash cmd arg) else dispatch stack cmd arg arg2

end LivlyOS.Shell
