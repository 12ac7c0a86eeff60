import LivlyOS.Fs.ChainWalk
import LivlyOS.Fs.FileData

namespace LivlyOS.Fs

open LivlyOS.Lib

/-- Sectors copied one behind the other; the offset is a `uint32_t`. -/
def copySectors : (sectors : List Sector) → (offset : Nat) → Bytes → Bytes
  | [], _, out => out
  | sector :: rest, offset, out => copySectors rest (u32 (offset + 512)) (copyOut sector offset out 512)

/-- The sectors of one cluster from `s` on. -/
def sectorsFrom (disk : Disk) (sektor count s : Nat) : List Sector :=
  (List.range' s count).map (fun t => ataReadSector disk (u32 (sektor + t)))

theorem sectorsFrom_succ (disk : Disk) (sektor count s : Nat) :
    sectorsFrom disk sektor (count + 1) s =
      ataReadSector disk (u32 (sektor + s)) :: sectorsFrom disk sektor count (s + 1) := by
  rw [sectorsFrom, List.range'_succ, List.map_cons, sectorsFrom]

/-- The offset behind a number of sectors. -/
def offsetBehind : (count : Nat) → (offset : Nat) → Nat
  | 0, offset => offset
  | count + 1, offset => offsetBehind count (u32 (offset + 512))

theorem readSectors_copies (disk : Disk) (sektor count s offset : Nat) (out : Bytes) :
    readSectors disk sektor count s offset out =
      (offsetBehind count offset, copySectors (sectorsFrom disk sektor count s) offset out) := by
  induction count generalizing s offset out with
  | zero => rfl
  | succ count ih =>
    rw [readSectors, ih, sectorsFrom_succ, copySectors, offsetBehind]

end LivlyOS.Fs
