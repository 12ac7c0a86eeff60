import LivlyOS.Fs.Walk
import LivlyOS.Lib.Run

namespace LivlyOS.Fs

open LivlyOS.Lib

inductive FsCall where
  | writeFile (name ext : CString)
  | createDir (name : CString)
  | openDir (name : CString)
  | cdBack
  | cdRoot
  | listDir
  | renameFile (name newName : CString)
  | deleteFile (name : CString)
  | readFile (name : CString) (out : Bytes)
  | writeData (name : CString) (buf : Bytes) (size : Nat)

namespace FsCall

/-- The state at the return of a call and, for the creating calls, how they end. -/
def run (fuel : Nat) : FsCall → FatState → Option (Option CreateExit × FatState)
  | writeFile name ext, st => (fatWriteFile fuel name ext st).map (fun result => (some result.1, result.2))
  | createDir name, st => (fatCreateDir fuel name st).map (fun result => (some result.1, result.2))
  | openDir name, st => (fatOpenDir fuel name st).map (fun st => (none, st))
  | cdBack, st => (fatCdBack fuel st).map (fun st => (none, st))
  | cdRoot, st => some (none, fatCdRoot st)
  | listDir, st => (fatListDir fuel st).map (fun st => (none, st))
  | renameFile name newName, st => (fatRenameFile fuel name newName st).map (fun st => (none, st))
  | deleteFile name, st => (fatDeleteFile fuel name st).map (fun st => (none, st))
  | readFile name out, st => (fatReadFile fuel name out st).map (fun result => (none, result.2.2))
  | writeData name buf size, st => (fatWriteData fuel name buf size st).map (fun st => (none, st))

/-- The call returns in the state `st'`. -/
def Returns (st : FatState) (call : FsCall) (st' : FatState) : Prop :=
  ∃ fuel exit, call.run fuel st = some (exit, st')

/-- A call that returned, by the function behind it. -/
inductive Ran (fuel : Nat) (st : FatState) : FsCall → Option CreateExit → FatState → Prop where
  | writeFile (finished : fatWriteFile fuel name ext st = some (exit, st')) :
      Ran fuel st (.writeFile name ext) (some exit) st'
  | createDir (finished : fatCreateDir fuel name st = some (exit, st')) :
      Ran fuel st (.createDir name) (some exit) st'
  | openDir (finished : fatOpenDir fuel name st = some st') : Ran fuel st (.openDir name) none st'
  | cdBack (finished : fatCdBack fuel st = some st') : Ran fuel st .cdBack none st'
  | cdRoot : Ran fuel st .cdRoot none (fatCdRoot st)
  | listDir (finished : fatListDir fuel st = some st') : Ran fuel st .listDir none st'
  | renameFile (finished : fatRenameFile fuel name newName st = some st') :
      Ran fuel st (.renameFile name newName) none st'
  | deleteFile (finished : fatDeleteFile fuel name st = some st') : Ran fuel st (.deleteFile name) none st'
  | readFile (finished : fatReadFile fuel name out st = some (size, out', st')) :
      Ran fuel st (.readFile name out) none st'
  | writeData (finished : fatWriteData fuel name buf size st = some st') :
      Ran fuel st (.writeData name buf size) none st'

theorem run_cases {call : FsCall} (returned : call.run fuel st = some (exit, st')) : Ran fuel st call exit st' := by
  cases call with
  | cdRoot =>
    cases returned
    exact .cdRoot
  | _ =>
    obtain ⟨result, finished, same⟩ := Option.map_eq_some_iff.mp returned
    cases same
    constructor
    exact finished

end FsCall

end LivlyOS.Fs
