import LivlyOS.Fs.Fat
import LivlyOS.Lib.Loop

namespace LivlyOS.Fs

open LivlyOS.Lib

/-- A `char *` argument: the bytes behind the pointer, zero beyond the list. -/
abbrev CString := List UInt8

def CString.at (name : CString) (index : Nat) : UInt8 := name.getD index 0

/-- The bytes of a string in front of its terminator. -/
def CString.text (name : CString) : List UInt8 := name.takeWhile (· ≠ 0)

namespace Sector

/-- `eintraege[slot].name[index]`; the extension follows at index 8. -/
def nameByte (sector : Sector) (slot index : Nat) : UInt8 := sector.bytes (32 * slot + index)

def attributes (sector : Sector) (slot : Nat) : UInt8 := sector.bytes (32 * slot + 11)

/-- `((uint32_t)cluster_high << 16) | cluster_low`. -/
def slotCluster (sector : Sector) (slot : Nat) : Nat :=
  word sector.bytes (32 * slot + 20) 2 <<< 16 ||| word sector.bytes (32 * slot + 26) 2

def slotSize (sector : Sector) (slot : Nat) : Nat := word sector.bytes (32 * slot + 28) 4

/-- Never used (0x00) or deleted (0xE5). -/
def slotFree (sector : Sector) (slot : Nat) : Bool :=
  sector.nameByte slot 0 = 0x00 || sector.nameByte slot 0 = 0xE5

def putByte (sector : Sector) (slot index : Nat) (value : UInt8) : Sector :=
  ofBytes (putBytes sector.bytes (32 * slot + index) [value])

def setSize (sector : Sector) (slot size : Nat) : Sector :=
  ofBytes (putWord sector.bytes (32 * slot + 28) 4 size)

/-- `cluster_high = cluster >> 16; cluster_low = cluster & 0xFFFF;` -/
def setCluster (sector : Sector) (slot cluster : Nat) : Sector :=
  ofBytes (putWord (putWord sector.bytes (32 * slot + 20) 2 (cluster >>> 16))
    (32 * slot + 26) 2 (cluster &&& 0xFFFF))

end Sector

/-- The two padding loops: `width` spaces, then the characters of the string
that fit in front of its terminator. -/
def padField (width : Nat) (text : CString) : List UInt8 :=
  let kept := (text.take width).takeWhile (· ≠ 0)
  kept ++ List.replicate (width - kept.length) 0x20

namespace Sector

def setName (sector : Sector) (slot : Nat) (name : CString) : Sector :=
  ofBytes (putBytes sector.bytes (32 * slot) (padField 8 name))

def setExt (sector : Sector) (slot : Nat) (ext : CString) : Sector :=
  ofBytes (putBytes sector.bytes (32 * slot + 8) (padField 3 ext))

end Sector

/-- The loop of `str_equal_fat` with `remaining` of the 8 characters to go. -/
def strEqualFatFrom (fatName : Bytes) (name : CString) : (remaining index : Nat) → Bool
  | 0, index => name.at index = 0
  | remaining + 1, index =>
    if fatName index = 0x20 ∧ name.at index = 0 then true
    else if fatName index ≠ name.at index then false
    else strEqualFatFrom fatName name remaining (index + 1)

def strEqualFat (fatName : Bytes) (name : CString) : Bool := strEqualFatFrom fatName name 8 0

/-- `str_equal_fat((char*)eintraege[slot].name, name)`. -/
def Sector.slotMatches (name : CString) (sector : Sector) (slot : Nat) : Bool :=
  strEqualFat (sector.nameByte slot) name

/-- The first of the 16 slots of a sector with a property. -/
def findInSector (wanted : Sector → Nat → Bool) (sector : Sector) : Option Nat :=
  (List.range 16).find? (wanted sector)

/-- A directory slot: the sector number, the sector read from there, the slot. -/
structure Hit where
  lba : Nat
  buf : Sector
  slot : Nat

/-- The loop over the sectors of one cluster, `count` of them from `s` on. -/
def findInSectors (wanted : Sector → Nat → Bool) (disk : Disk) (sektor : Nat) :
    (count s : Nat) → Option Hit
  | 0, _ => none
  | count + 1, s =>
    let lba := u32 (sektor + s)
    let buf := ataReadSector disk lba
    match findInSector wanted buf with
    | some slot => some ⟨lba, buf, slot⟩
    | none => findInSectors wanted disk sektor count (s + 1)

def findInCluster (wanted : Sector → Nat → Bool) (st : FatState) (cluster : Nat) : Option Hit :=
  findInSectors wanted st.disk (st.boot.clusterSector cluster) st.boot.spc 0

/-- One turn of the search loop shared by `fat_read_file`, `fat_write_data`,
`fat_rename_file` and `fat_delete_file`. -/
def locateTurn (name : CString) :
    Nat × FatState → Turn (Nat × FatState) (Option Hit × FatState)
  | (current, st) =>
    match findInCluster (Sector.slotMatches name) st current with
    | some hit => .leave (some hit, st)
    | none =>
      let link := fatNextCluster current st
      if endOfChain ≤ link.1 then .leave (none, link.2) else .again link

/-- The first slot of the current directory whose name matches. -/
def locate (fuel : Nat) (name : CString) (st : FatState) : Option (Option Hit × FatState) :=
  loop (locateTurn name) fuel (st.cwdCluster, st)

end LivlyOS.Fs
