import LivlyOS.Apps.EditorRuns
import LivlyOS.Fs.CopyOut
import LivlyOS.Fs.Listing

/-! The buffer of EDITOR_MAX_LINES * EDITOR_LINE_LEN bytes into which `cat` and the
editor read a file; a read behind its end gives nothing. -/

namespace LivlyOS.Apps

open LivlyOS.Lib LivlyOS.Fs

/-- `EDITOR_MAX_LINES * EDITOR_LINE_LEN`. -/
def bufferSize : Nat := 200 * 78

/-- `buf[i]`. -/
def bufferByte (buf : Bytes) (i : Nat) : Option UInt8 := if i < bufferSize then some (buf i) else none

/-- The printing loop of `cat` with `remaining` bytes to go. -/
def catLoop (buf : Bytes) : (remaining i : Nat) → FatState → Option FatState
  | 0, _, st => some st
  | remaining + 1, i, st => do
    let byte ← bufferByte buf i
    catLoop buf remaining (i + 1) (st.kprintf (byteText byte))

/-- `cat`; `buf` is what `kmalloc` returned, with any contents. -/
def cmdCat (fuel : Nat) (arg : CString) (buf : Bytes) (st : FatState) : Option FatState :=
  if arg.at 0 = 0 then some (st.kprintf "Usage: cat dateiname\n")
  else do
    let (size, buf, st) ← fatReadFile fuel arg buf st
    if size = 0 then some (st.kprintf "Datei leer oder nicht gefunden\n")
    else do
      let st ← catLoop buf size 0 st
      some (st.kprintf "\n")

/-- The loop of `ed_buf_to_lines` at `buf[i]`, `remaining` bytes in front of `size`. -/
def bufferToLines (buf : Bytes) : (remaining i : Nat) → EditorState → Int → Option EditorState
  | 0, _, ed, x => endLine ed x
  | remaining + 1, i, ed, x => do
    let byte ← bufferByte buf i
    if byte = 10 then do
      let ed ← endLine ed x
      if 200 ≤ ed.lineCount then some ed else bufferToLines buf remaining (i + 1) ed 0
    else if x < 78 - 1 then do
      let lines ← setChar 200 ed.lines ed.lineCount x byte
      bufferToLines buf remaining (i + 1) { ed with lines } (x + 1)
    else bufferToLines buf remaining (i + 1) ed x

/-- The reads of `ed_buf_to_lines` stay inside the buffer for any editor state. -/
def LinesInside (buf : Bytes) (size : Nat) : Prop :=
  ∀ ed : EditorState, (bufferToLines buf size 0 { ed with lineCount := 0 } 0).isSome = true

theorem bufferByte_inside (buf : Bytes) (inside : i < bufferSize) : bufferByte buf i = some (buf i) :=
  if_pos inside

theorem catLoop_console (buf : Bytes) (st : FatState) (inside : i + remaining ≤ bufferSize) :
    ∃ console, catLoop buf remaining i st = some { st with console } := by
  induction remaining generalizing i st with
  | zero => exact ⟨st.console, rfl⟩
  | succ remaining ih =>
    rw [catLoop, bufferByte_inside buf (by omega), Option.bind_eq_bind, Option.bind_some]
    exact ih (st.kprintf (byteText (buf i))) (by omega)

/-- Reading a file with its readers stays inside the buffer: `fat_read_file` keeps
what lies behind it, whatever the buffer held before. -/
def StaysInside (fuel : Nat) (name : CString) (st : FatState) : Prop :=
  ∀ out, ∃ size out' after, fatReadFile fuel name out st = some (size, out', after) ∧
    (∀ position, bufferSize ≤ position → out' position = out position) ∧
    (catLoop out' size 0 after).isSome = true ∧ LinesInside out' size

theorem StaysInside.cmdCat_isSome (stays : StaysInside fuel name st) (named : name.at 0 ≠ 0) (buf : Bytes) :
    (cmdCat fuel name buf st).isSome = true := by
  obtain ⟨size, out', after, read, _, printed, _⟩ := stays buf
  obtain ⟨last, printed⟩ := Option.isSome_iff_exists.mp printed
  rw [cmdCat, if_neg named, read, Option.bind_eq_bind, Option.bind_some]
  dsimp only
  split
  · rfl
  · rw [printed]
    rfl

/-- The file fits into the buffer: its size and its whole chain. -/
def FitsBuffer (boot : FAT32BootSector) (disk : Disk) (hit : Hit) : Prop :=
  hit.buf.slotSize hit.slot ≤ bufferSize ∧
    ∀ files, FatChain boot disk (hit.buf.slotCluster hit.slot) files →
      files.length * boot.clusterSize ≤ bufferSize

/-- Clusters of 32 sectors, four of them. -/
def wideBoot : FAT32BootSector where
  sectorsPerCluster := 32
  reservedSectors := 1
  fatCount := 1
  totalSectors32 := 130
  fatSize32 := 1
  rootCluster := 2

/-- One turn of the reading loop into a buffer of `limit` bytes; a write behind its end gives nothing. -/
def boundedTurn (limit : Nat) (rd : ReadState) : Turn ReadState (Option (Bytes × FatState)) :=
  match readTurn rd with
  | .leave result => .leave (some result)
  | .again next => if rd.offset + rd.st.boot.clusterSize ≤ limit then .again next else .leave none

/-- `fat_read_file` into such a buffer. -/
def fatReadInto (limit fuel : Nat) (name : CString) (out : Bytes) (st : FatState) : Option (Nat × Bytes × FatState) :=
  match locate fuel name st with
  | none => none
  | some (none, st) => some (0, out, st.kprintf "nicht gefunden\n")
  | some (some hit, st) =>
    let size := hit.buf.slotSize hit.slot
    if size = 0 then some (0, out, st)
    else (loop (boundedTurn limit) fuel ⟨hit.buf.slotCluster hit.slot, 0, out, st⟩).join.map fun read =>
      (size, read.1, read.2)

/-- `cmd_cat` with a name: what it reads, and the state behind its last message. `buf` is what `kmalloc` returned;
the command does not ask whether that is a null pointer, with which it is left out here. -/
def catFile (fuel : Nat) (name : CString) (buf : Option Bytes) (st : FatState) : Option (List UInt8 × FatState) := do
  let (size, buf, st) ← fatReadInto bufferSize fuel name (← buf) st
  if size = 0 then some ([], st.kprintf "Datei leer oder nicht gefunden\n")
  else do
    let st ← catLoop buf size 0 st
    some ((List.range size).map buf, st.kprintf "\n")

/-- The file of this name, if there is one, is empty or fits into the buffer. -/
def CatFits (name : CString) (st : FatState) : Prop :=
  ∀ dirs hit, FatChain st.boot st.disk st.cwdCluster dirs →
    firstHit st.boot st.disk (Sector.slotMatches name) dirs = some hit →
      hit.buf.slotSize hit.slot = 0 ∨ FitsBuffer st.boot st.disk hit

/-- In a chain that fits no turn comes to the end of the buffer. -/
theorem boundedLoop_eq {st : FatState} (lagging : Lagging st) (loaded : Loaded st mid)
    (chain : FatChain st.boot st.disk current clusters) (fits : offset + clusters.length * st.boot.clusterSize ≤ limit)
    (small : limit < 4294967296) (out : Bytes) (fuel : Nat) :
    loop (boundedTurn limit) fuel ⟨current, offset, out, mid⟩ = (loop readTurn fuel ⟨current, offset, out, mid⟩).map some := by
  have wraps : ∀ count offset, offset + count * 512 ≤ limit → offsetBehind count offset = offset + count * 512 := by
    intro count
    induction count with
    | zero => exact fun offset _ => rfl
    | succ count ih =>
      intro offset bound
      rw [offsetBehind, u32_of_lt (by omega), ih _ (by omega)]
      omega
  refine loop_map some (fun rd => Loaded st rd.st ∧ (endOfChain ≤ rd.fileCluster ∨ ∃ clusters,
    FatChain st.boot st.disk rd.fileCluster clusters ∧ rd.offset + clusters.length * st.boot.clusterSize ≤ limit))
    ?_ ?_ ⟨loaded, .inr ⟨clusters, chain, fits⟩⟩ fuel
  · rintro rd next ⟨loaded, place⟩ turn
    rw [readTurn] at turn
    split at turn
    · cases turn
    · rename_i going
      obtain ⟨clusters, chain, fits⟩ := place.resolve_left going
      cases turn
      refine ⟨loaded.next rd.fileCluster, ?_⟩
      rcases chain.follow lagging loaded with ⟨stop, _⟩ | ⟨rest, rfl, _, tail⟩
      · exact .inl stop
      · refine .inr ⟨rest, tail, ?_⟩
        rw [List.length_cons, Nat.add_mul, Nat.one_mul] at fits
        rw [readSectors_copies, loaded.kept.boot]
        dsimp only
        rw [FAT32BootSector.clusterSize] at fits ⊢
        rw [wraps _ _ (by omega)]
        omega
  · rintro rd ⟨loaded, place⟩
    rw [boundedTurn]
    cases turn : readTurn rd with
    | leave result => rfl
    | again next =>
      rw [readTurn] at turn
      split at turn
      · cases turn
      · rename_i going
        obtain ⟨clusters, chain, fits⟩ := place.resolve_left going
        have some := Nat.mul_le_mul_right st.boot.clusterSize chain.chain.length_pos
        dsimp only
        rw [loaded.kept.boot, if_pos (by omega)]
        rfl

/-- A file that is not there reads as an empty one. -/
theorem fatReadFile_missing (lagging : Lagging st) (directory : FatChain st.boot st.disk st.cwdCluster dirs)
    (missing : firstHit st.boot st.disk (Sector.slotMatches name) dirs = none)
    (read : fatReadFile fuel name out st = some (size, bytes, after)) : size = 0 := by
  rw [fatReadFile] at read
  split at read
  · cases read
  · cases read
    rfl
  · rename_i located
    cases missing.symm.trans (locate_result lagging directory located).1

section Cat

variable {st : FatState} {name : CString} {dirs : List Nat} (lagging : Lagging st)
  (directory : FatChain st.boot st.disk st.cwdCluster dirs) (fits : CatFits name st)
include lagging directory fits

/-- A file that fits is read as into a buffer without end. -/
theorem fatReadInto_eq (regular : ∀ hit, firstHit st.boot st.disk (Sector.slotMatches name) dirs = some hit →
      hit.buf.slotSize hit.slot ≠ 0 → ∃ files, FatChain st.boot st.disk (hit.buf.slotCluster hit.slot) files)
    (fuel : Nat) (out : Bytes) : fatReadInto bufferSize fuel name out st = fatReadFile fuel name out st := by
  rw [fatReadInto, fatReadFile]
  cases located : locate fuel name st with
  | none => rfl
  | some result =>
    obtain ⟨found, mid⟩ := result
    cases found with
    | none => rfl
    | some hit =>
      obtain ⟨found, loaded⟩ := locate_result lagging directory located
      dsimp only
      split
      · rfl
      · rename_i nonempty
        obtain ⟨files, file⟩ := regular hit found nonempty
        have bound := ((fits dirs hit directory found).resolve_left nonempty).2 files file
        rw [boundedLoop_eq lagging loaded file (by rw [Nat.zero_add]; exact bound) (by decide) out fuel]
        cases loop readTurn fuel ⟨hit.buf.slotCluster hit.slot, 0, out, mid⟩ with
        | none => rfl
        | some read => rfl

/-- So `cmd_cat` hands out what `fat_read_file` reads, and changes nothing else but the screen. -/
theorem catFile_eq (regular : ∀ hit, firstHit st.boot st.disk (Sector.slotMatches name) dirs = some hit →
      hit.buf.slotSize hit.slot ≠ 0 → ∃ files, FatChain st.boot st.disk (hit.buf.slotCluster hit.slot) files)
    (read : fatReadFile fuel name out st = some (size, out', after)) :
    ∃ console, catFile fuel name (some out) st = some ((List.range size).map out', { after with console }) := by
  have short : size ≤ bufferSize := by
    cases found : firstHit st.boot st.disk (Sector.slotMatches name) dirs with
    | none => exact Nat.le_trans (Nat.le_of_eq (fatReadFile_missing lagging directory found read)) (Nat.zero_le _)
    | some hit =>
      rw [fatReadFile_size lagging directory found read]
      rcases fits dirs hit directory found with empty | ⟨bound, _⟩
      · exact Nat.le_trans (Nat.le_of_eq empty) (Nat.zero_le _)
      · exact bound
  rw [catFile, Option.bind_eq_bind, Option.bind_some, fatReadInto_eq lagging directory fits regular, read,
    Option.bind_eq_bind, Option.bind_some]
  dsimp only
  split
  · rename_i empty
    rw [empty]
    exact ⟨_, rfl⟩
  · have inside : 0 + size ≤ bufferSize := by omega
    obtain ⟨console, printed⟩ := catLoop_console out' after inside
    rw [printed]
    exact ⟨_, rfl⟩

end Cat

theorem fatReadInto_mono (finished : fatReadInto limit fuel name out st = some result) (enough : fuel ≤ more) :
    fatReadInto limit more name out st = some result := by
  rw [fatReadInto] at finished ⊢
  split at finished
  · cases finished
  · rename_i located
    rw [locate, loop_mono located enough]
    exact finished
  · rename_i located
    rw [locate, loop_mono located enough]
    simp only at finished ⊢
    split at finished
    · rw [if_pos ‹_›]
      exact finished
    · rw [if_neg ‹_›]
      obtain ⟨read, joined, rfl⟩ := Option.map_eq_some_iff.mp finished
      rw [loop_mono (Option.join_eq_some_iff.mp joined) enough, Option.join_some, Option.map_some]

theorem catFile_mono (finished : catFile fuel name buf st = some result) (enough : fuel ≤ more) :
    catFile more name buf st = some result := by
  cases buf with
  | none => cases finished
  | some buf =>
    obtain ⟨read, returned, printed⟩ := Option.bind_eq_some_iff.mp finished
    exact Option.bind_eq_some_iff.mpr ⟨read, fatReadInto_mono returned enough, printed⟩

end LivlyOS.Apps
