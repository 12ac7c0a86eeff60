import LivlyOS.Fs.ChainWalk
import LivlyOS.Fs.MissingFile
import LivlyOS.Fs.Saving

namespace LivlyOS.Fs

open LivlyOS.Lib

theorem Search.read (search : Search boot disk wanted first (.found cluster hit)) :
    hit.buf = ataReadSector disk hit.lba := by
  obtain ⟨s, _, lba, buf, _⟩ := search.place
  rw [buf, lba, clusterData]

section Full

variable {st : FatState} (wf : st.boot.WellFormed) (full : freeClusters st.boot st.disk = ∅)
include wf full

end Full

/-- The first free slot already holds, byte for byte, the entry for the name
with the cluster 0. Only a name that begins with the deletion mark allows it. -/
def EntryPresent (name ext : CString) (attributes : UInt8) (hit : Hit) : Prop :=
  createdSlot name ext attributes hit.buf hit.slot 0 = hit.buf

theorem EntryPresent.deleted {first : UInt8} {rest ext : CString} {hit : Hit}
    (present : EntryPresent (first :: rest) ext attributes hit) (inside : hit.slot < 16)
    (free : hit.buf.slotFree hit.slot = true) (visible : first ≠ 0) : first = 0xE5 := by
  have stored := createdSlot_first first rest ext attributes hit.buf 0 inside visible
  rw [present] at stored
  simpa [Sector.slotFree, stored, visible] using free

end LivlyOS.Fs
