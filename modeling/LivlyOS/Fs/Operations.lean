import LivlyOS.Fs.Directory

/-! The public operations of `fat.c`. Each takes fuel for its loops and returns
nothing when a loop needs more. The sector buffers are local: every one is
filled by a read before it is used. -/

namespace LivlyOS.Fs

open LivlyOS.Lib

/-- A `kprintf("%c", ..)` for each character in front of the first space. -/
def charTexts (width : Nat) (char : Nat → UInt8) : List String :=
  (((List.range width).map char).takeWhile (· ≠ 0x20)).map
    (fun byte => String.singleton (Char.ofNat byte.toNat))

def sizeText (size : Nat) : String :=
  if size < 1024 then "    " ++ toString size ++ " B"
  else if size < 1024 * 1024 then "    " ++ toString (size / 1024) ++ " KB"
  else if size < 1024 * 1024 * 1024 then "    " ++ toString (size / (1024 * 1024)) ++ " MB"
  else "    " ++ toString (size / (1024 * 1024 * 1024)) ++ " GB"

/-- The output of `fat_list_dir` for one entry. -/
def listSlot (buf : Sector) (slot : Nat) : List String :=
  if buf.attributes slot = 0x10 then
    "[DIR] " :: (charTexts 8 (buf.nameByte slot) ++ ["\n"])
  else
    charTexts 8 (buf.nameByte slot) ++ ["."] ++
      charTexts 3 (fun index => buf.nameByte slot (8 + index)) ++
      [sizeText (buf.slotSize slot), "\n"]

/-- Output for the slots of one sector and whether a 0x00 slot ended the list. -/
def listSlots (buf : Sector) : (slots : List Nat) → List String × Bool
  | [] => ([], false)
  | slot :: rest =>
    if buf.nameByte slot 0 = 0x00 then ([], true)
    else
      let shown :=
        if buf.nameByte slot 0 = 0xE5 ∨ buf.nameByte slot 0 < 0x20 ∨ buf.nameByte slot 0 = 0x2E
        then [] else listSlot buf slot
      let more := listSlots buf rest
      (shown ++ more.1, more.2)

def listSectors (disk : Disk) (sektor : Nat) : (count s : Nat) → List String × Bool
  | 0, _ => ([], false)
  | count + 1, s =>
    let text := listSlots (ataReadSector disk (u32 (sektor + s))) (List.range 16)
    if text.2 then text
    else
      let more := listSectors disk sektor count (s + 1)
      (text.1 ++ more.1, more.2)

def listTurn : Nat × FatState → Turn (Nat × FatState) FatState
  | (current, st) =>
    if endOfChain ≤ current then .leave st
    else
      let text := listSectors st.disk (st.boot.clusterSector current) st.boot.spc 0
      let st := { st with console := st.console ++ text.1 }
      if text.2 then .leave st else .again (fatNextCluster current st)

def fatListDir (fuel : Nat) (st : FatState) : Option FatState :=
  loop listTurn fuel (st.cwdCluster, st)

inductive DuplicateScan where
  | duplicate
  | endMark
  | absent
deriving DecidableEq

/-- The duplicate check inside one sector: a 0x00 slot ends it, deleted slots
are skipped. -/
def duplicateInSlots (name : CString) (buf : Sector) : (slots : List Nat) → DuplicateScan
  | [] => .absent
  | slot :: rest =>
    if buf.nameByte slot 0 = 0x00 then .endMark
    else if buf.nameByte slot 0 = 0xE5 then duplicateInSlots name buf rest
    else if buf.slotMatches name slot then .duplicate
    else duplicateInSlots name buf rest

def duplicateInSector (name : CString) (buf : Sector) : DuplicateScan :=
  duplicateInSlots name buf (List.range 16)

/-- `fat_write_file` checks the first sector of each cluster and goes on behind
an end mark. -/
def fileDuplicateTurn (name : CString) : Nat × FatState → Turn (Nat × FatState) (Bool × FatState)
  | (chk, st) =>
    if endOfChain ≤ chk then .leave (false, st)
    else if duplicateInSector name (ataReadSector st.disk (st.boot.clusterSector chk)) = .duplicate
    then .leave (true, st)
    else .again (fatNextCluster chk st)

def duplicateInSectors (name : CString) (disk : Disk) (sektor : Nat) : (count s : Nat) → DuplicateScan
  | 0, _ => .absent
  | count + 1, s =>
    match duplicateInSector name (ataReadSector disk (u32 (sektor + s))) with
    | .absent => duplicateInSectors name disk sektor count (s + 1)
    | ended => ended

/-- `fat_create_dir` checks every sector and stops at the end mark. -/
def dirDuplicateTurn (name : CString) : Nat × FatState → Turn (Nat × FatState) (Bool × FatState)
  | (chk, st) =>
    if endOfChain ≤ chk then .leave (false, st)
    else
      match duplicateInSectors name st.disk (st.boot.clusterSector chk) st.boot.spc 0 with
      | .duplicate => .leave (true, st)
      | .endMark => .leave (false, st)
      | .absent => .again (fatNextCluster chk st)

/-- How a creating call ends. -/
inductive CreateExit where
  | duplicate
  | full
  | created (cluster : Nat)
deriving DecidableEq

/-- One turn of the slot search of `fat_write_file` and `fat_create_dir`, which
extends the directory when its last cluster is full. -/
def placeTurn (fill : Nat → Hit → FatState → CreateExit × FatState) (fullText : String) :
    Nat × FatState → Turn (Nat × FatState) (CreateExit × FatState)
  | (current, st) =>
    match findInCluster Sector.slotFree st current with
    | some hit => .leave (fill current hit st)
    | none =>
      let link := fatNextCluster current st
      if endOfChain ≤ link.1 then
        let extended := fatExtendChain current link.2
        if endOfChain ≤ extended.1 then .leave (.full, extended.2.kprintf fullText)
        else .again extended
      else .again link

/-- The new entry, complete up to its first cluster. -/
def newSlot (name ext : CString) (attributes : UInt8) (buf : Sector) (slot : Nat) : Sector :=
  ((((buf.setName slot name).setExt slot ext).putByte slot 11 attributes).setSize slot 0)

/-- Reserve one cluster, store it in the slot and write the sector. -/
def placeSlot (name ext : CString) (attributes : UInt8) (hit : Hit) (st : FatState) :
    Nat × FatState :=
  let buf := newSlot name ext attributes hit.buf hit.slot
  let cluster := fatAllocCluster 1 st
  (cluster.1, { cluster.2 with
    disk := ataWriteSector cluster.2.disk hit.lba (buf.setCluster hit.slot cluster.1) })

def fillFile (name ext : CString) (_current : Nat) (hit : Hit) (st : FatState) :
    CreateExit × FatState :=
  let placed := placeSlot name ext 0x20 hit st
  (.created placed.1, placed.2)

def fatWriteFile (fuel : Nat) (name ext : CString) (st : FatState) :
    Option (CreateExit × FatState) :=
  match loop (fileDuplicateTurn name) fuel (st.cwdCluster, st) with
  | none => none
  | some (true, st) => some (.duplicate, st.kprintf "Datei existiert bereits\n")
  | some (false, st) =>
    loop (placeTurn (fillFile name ext) "Kein Platz im Root-Directory\n") fuel (st.cwdCluster, st)

/-- The sector `fat_init_dir_cluster` builds: `.` and `..`, then zeros. -/
def dirSector (cluster parentCluster : Nat) : Sector :=
  let dot := (((Sector.zero.setName 0 [0x2E]).setExt 0 []).putByte 0 11 0x10).setCluster 0 cluster
  (((dot.setName 1 [0x2E, 0x2E]).setExt 1 []).putByte 1 11 0x10).setCluster 1 parentCluster

def fatInitDirCluster (cluster parentCluster : Nat) (st : FatState) : FatState :=
  { st with
    disk := ataWriteSector st.disk (st.boot.clusterSector cluster) (dirSector cluster parentCluster) }

def fillDir (name : CString) (current : Nat) (hit : Hit) (st : FatState) : CreateExit × FatState :=
  let placed := placeSlot name [] 0x10 hit st
  (.created placed.1, fatInitDirCluster placed.1 current placed.2)

def fatCreateDir (fuel : Nat) (name : CString) (st : FatState) : Option (CreateExit × FatState) :=
  let st := { st with
    console := st.console ++ (((name.take 8).takeWhile (· ≠ 0)).map
      (fun byte => String.singleton (Char.ofNat byte.toNat)) ++ ["\n"]) }
  match loop (dirDuplicateTurn name) fuel (st.cwdCluster, st) with
  | none => none
  | some (true, st) => some (.duplicate, st.kprintf "Datei existiert bereits\n")
  | some (false, st) =>
    loop (placeTurn (fillDir name) "Kein Platz mehr Übrig\n") fuel (st.cwdCluster, st)

/-- `str_end`: append the name and a slash behind the first NUL of the path. -/
def strEnd (name : CString) (path : Bytes) : Bytes :=
  match (List.range 256).find? (fun index => path index = 0) with
  | some index => putBytes path index (name.text ++ [0x2F, 0])
  | none => path

/-- The slot `fat_open_dir` looks for. -/
def Sector.slotIsDirNamed (name : CString) (buf : Sector) (slot : Nat) : Bool :=
  buf.attributes slot = 0x10 && buf.slotMatches name slot

/-- The sectors of one cluster in `fat_open_dir`: a match moves the current
directory and only leaves the slot loop of its sector. -/
def openInSectors (name : CString) (sektor : Nat) : (count s : Nat) → Bool → FatState → Bool × FatState
  | 0, _, found, st => (found, st)
  | count + 1, s, found, st =>
    let buf := ataReadSector st.disk (u32 (sektor + s))
    match findInSector (Sector.slotIsDirNamed name) buf with
    | some slot =>
      openInSectors name sektor count (s + 1) true
        { st with cwdCluster := buf.slotCluster slot, cwdPath := strEnd name st.cwdPath }
    | none => openInSectors name sektor count (s + 1) found st

def openTurn (name : CString) : Nat × FatState → Turn (Nat × FatState) (Bool × FatState)
  | (current, st) =>
    if endOfChain ≤ current then .leave (false, st)
    else
      let opened := openInSectors name (st.boot.clusterSector current) st.boot.spc 0 false st
      let link := fatNextCluster current opened.2
      if opened.1 then .leave (true, link.2) else .again link

def fatOpenDir (fuel : Nat) (name : CString) (st : FatState) : Option FatState :=
  match loop (openTurn name) fuel (st.cwdCluster, st) with
  | none => none
  | some (true, st) => some st
  | some (false, st) =>
    some (st.kprintf ("Ordner nicht gefunden: " ++
      String.ofList (name.text.map (fun byte => Char.ofNat byte.toNat)) ++ "\n"))

def fatCdRoot (st : FatState) : FatState :=
  { st with
    cwdCluster := st.boot.rootCluster.toNat
    cwdPath := putBytes st.cwdPath 0 [0] }

/-- `while(cwd_path[i] != '\0') i++;` -/
def pathEndTurn (path : Bytes) (index : Nat) : Turn Nat Nat :=
  if path index ≠ 0 then .again (index + 1) else .leave index

/-- `while(i > 0 && cwd_path[i] != '/') i--;` -/
def backToSlash (path : Bytes) : Nat → Nat
  | 0 => 0
  | index + 1 => if path (index + 1) ≠ 0x2F then backToSlash path index else index + 1

/-- The path edit of `fat_cd_back`, given the index of the terminator. -/
def pathBack (path : Bytes) (terminator : Nat) : Bytes :=
  let i := terminator - 1
  let i := if 0 < i ∧ path i = 0x2F then i - 1 else i
  putBytes path (backToSlash path i + 1) [0]

def fatCdBack (fuel : Nat) (st : FatState) : Option FatState :=
  if st.cwdCluster = st.boot.rootCluster.toNat then
    some (st.kprintf "Bereits im root Verzeichnis\n")
  else
    let buf := ataReadSector st.disk (st.boot.clusterSector st.cwdCluster)
    let parent := buf.slotCluster 1
    let parent := if parent = 0 then st.boot.rootCluster.toNat else parent
    match loop (pathEndTurn st.cwdPath) fuel 0 with
    | none => none
    | some terminator =>
      some { st with cwdCluster := parent, cwdPath := pathBack st.cwdPath terminator }

/-- One turn of the loop that frees a chain: the link is read through the
cache, the entry is cleared in the sector on disk. -/
def freeTurn : Nat × FatState → Turn (Nat × FatState) FatState
  | (fileCluster, st) =>
    if endOfChain ≤ fileCluster then .leave st
    else
      let link := fatNextCluster fileCluster st
      let fatSector := link.2.boot.fatSector fileCluster
      let fbuf := ataReadSector link.2.disk fatSector
      .again (link.1, { link.2 with
        disk := ataWriteSector link.2.disk fatSector (fbuf.setEntry (entryIndex fileCluster) 0) })

/-- The slot loop of `fat_delete_file`: every matching slot of the sector goes. -/
def deleteSlots (fuel : Nat) (name : CString) (lba : Nat) :
    (slots : List Nat) → Sector → FatState → Option FatState
  | [], _, st => some st
  | slot :: rest, buf, st =>
    if buf.slotMatches name slot then
      let fileCluster := buf.slotCluster slot
      let buf := buf.putByte slot 0 0xE5
      match loop freeTurn fuel (fileCluster, { st with disk := ataWriteSector st.disk lba buf }) with
      | none => none
      | some st => deleteSlots fuel name lba rest buf st
    else deleteSlots fuel name lba rest buf st

def fatDeleteFile (fuel : Nat) (name : CString) (st : FatState) : Option FatState :=
  match locate fuel name st with
  | none => none
  | some (none, st) => some (st.kprintf "Datei nicht gefunden :(\n")
  | some (some hit, st) => deleteSlots fuel name hit.lba (List.range 16) hit.buf st

def fatRenameFile (fuel : Nat) (name newName : CString) (st : FatState) : Option FatState :=
  match locate fuel name st with
  | none => none
  | some (none, st) => some (st.kprintf "nicht gefunden :(n")
  | some (some hit, st) =>
    some { st with disk := ataWriteSector st.disk hit.lba (hit.buf.setName hit.slot newName) }

/-- Copy one sector to `buf[offset + j]`; the index is a `uint32_t`. -/
def copyOut (sector : Sector) (offset : Nat) (out : Bytes) : (count : Nat) → Bytes
  | 0 => out
  | count + 1 =>
    Function.update (copyOut sector offset out count) (u32 (offset + count)) (sector.bytes count)

/-- The sectors of one cluster in the reading loop of `fat_read_file`. -/
def readSectors (disk : Disk) (sektor : Nat) :
    (count s offset : Nat) → Bytes → Nat × Bytes
  | 0, _, offset, out => (offset, out)
  | count + 1, s, offset, out =>
    readSectors disk sektor count (s + 1) (u32 (offset + 512))
      (copyOut (ataReadSector disk (u32 (sektor + s))) offset out 512)

structure ReadState where
  fileCluster : Nat
  offset : Nat
  out : Bytes
  st : FatState

def readTurn (rd : ReadState) : Turn ReadState (Bytes × FatState) :=
  if endOfChain ≤ rd.fileCluster then .leave (rd.out, rd.st)
  else
    let copied := readSectors rd.st.disk (rd.st.boot.clusterSector rd.fileCluster)
      rd.st.boot.spc 0 rd.offset rd.out
    let link := fatNextCluster rd.fileCluster rd.st
    .again ⟨link.1, copied.1, copied.2, link.2⟩

/-- `fat_read_file(name, out, &size)`: the size, the buffer, the state. -/
def fatReadFile (fuel : Nat) (name : CString) (out : Bytes) (st : FatState) :
    Option (Nat × Bytes × FatState) :=
  match locate fuel name st with
  | none => none
  | some (none, st) => some (0, out, st.kprintf "nicht gefunden\n")
  | some (some hit, st) =>
    let fileCluster := hit.buf.slotCluster hit.slot
    let size := hit.buf.slotSize hit.slot
    if size = 0 then some (0, out, st)
    else
      match loop readTurn fuel ⟨fileCluster, 0, out, st⟩ with
      | none => none
      | some (out, st) => some (size, out, st)

/-- The bytes of `buf` from `offset` on, padded with zeros behind `size`. -/
def dataSector (buf : Bytes) (size offset : Nat) : Sector := fun j =>
  if u32 (offset + j) < size then buf (u32 (offset + j)) else 0

/-- The sectors of one cluster in the writing loop of `fat_write_data`. -/
def writeSectors (buf : Bytes) (size sektor : Nat) : (count s offset : Nat) → Disk → Nat × Disk
  | 0, _, offset, disk => (offset, disk)
  | count + 1, s, offset, disk =>
    if size ≤ offset then (offset, disk)
    else
      writeSectors buf size sektor count (s + 1) (u32 (offset + 512))
        (ataWriteSector disk (u32 (sektor + s)) (dataSector buf size offset))

structure WriteState where
  fileCluster : Nat
  offset : Nat
  st : FatState

def writeTurn (buf : Bytes) (size : Nat) (wr : WriteState) : Turn WriteState FatState :=
  if endOfChain ≤ wr.fileCluster then .leave wr.st
  else
    let written := writeSectors buf size (wr.st.boot.clusterSector wr.fileCluster)
      wr.st.boot.spc 0 wr.offset wr.st.disk
    let st := { wr.st with disk := written.2 }
    if written.1 < size then
      let extended := fatExtendChain wr.fileCluster st
      .again ⟨extended.1, written.1, extended.2⟩
    else .leave st

/-- `fat_write_data`. A missing file leaves `file_cluster` at 0 and goes on to
the writing loop like a file that was found. -/
def fatWriteData (fuel : Nat) (name : CString) (buf : Bytes) (size : Nat) (st : FatState) :
    Option FatState :=
  match locate fuel name st with
  | none => none
  | some (none, st) =>
    loop (writeTurn buf size) fuel ⟨0, 0, st.kprintf "Nicht genügend Speicherplatz!\n"⟩
  | some (some hit, st) =>
    let fileCluster := hit.buf.slotCluster hit.slot
    let sector := hit.buf.setSize hit.slot size
    loop (writeTurn buf size) fuel
      ⟨fileCluster, 0, { st with disk := ataWriteSector st.disk hit.lba sector }⟩

end LivlyOS.Fs
