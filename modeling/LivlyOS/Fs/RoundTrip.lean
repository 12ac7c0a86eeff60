import LivlyOS.Fs.FileData
import LivlyOS.Fs.Image

namespace LivlyOS.Fs

open LivlyOS.Lib

section DirectorySector

variable {boot : FAT32BootSector} (wf : boot.WellFormed)
include wf

/-- Rewriting a directory sector leaves the FAT alone. -/
theorem HitIn.fatEntry (place : HitIn boot disk wanted clusters hit cluster s)
    (data : boot.DataCluster cluster) (buf : Sector) (inRange : other < boot.totalClusters + 2) :
    fatEntry boot (ataWriteSector disk hit.lba buf) other = Fs.fatEntry boot disk other := by
  rw [place.lba]
  exact fatEntry_congr wf.layout (fun _ fat => readFat_writeData wf disk buf data place.inside fat) inRange

/-- Storing a size in the first matching slot keeps it the first match. -/
theorem firstHit_setSize (directory : ∀ cluster ∈ clusters, boot.DataCluster cluster)
    (place : HitIn boot disk (Sector.slotMatches name) clusters hit cluster s)
    (same : ∀ cluster ∈ clusters, ∀ t < boot.spc, clusterData boot disk' cluster t =
      clusterData boot (ataWriteSector disk hit.lba (hit.buf.setSize hit.slot size)) cluster t) :
    firstHit boot disk' (Sector.slotMatches name) clusters =
      (firstHit boot disk (Sector.slotMatches name) clusters).map (Hit.reload disk') := by
  apply firstHit_congr
  intro other member t inside
  rw [same other member t inside, place.lba,
    clusterData_write wf disk _ (directory cluster place.member) (directory other member) place.inside inside]
  split
  · rename_i here
    rw [here.1, here.2, ← place.buf]
    apply findInSector_congr
    intro slot below
    exact slotMatches_congr (fun _ short => Sector.nameByte_setSize hit.buf below short)
  · rfl

end DirectorySector

/-- The disk after `fat_write_data` stored the new size in the directory slot. -/
def sizedDisk (disk : Disk) (hit : Hit) (size : Nat) : Disk :=
  ataWriteSector disk hit.lba (hit.buf.setSize hit.slot size)

/-- `fat_write_data` on a file that exists: the slot gets the size, the chain the bytes. -/
theorem fatWriteData_found (wf : st.boot.WellFormed) (coherent : Coherent st)
    (directory : FatChain st.boot st.disk st.cwdCluster dirs)
    (found : firstHit st.boot st.disk (Sector.slotMatches name) dirs = some hit)
    (file : FatChain st.boot st.disk (hit.buf.slotCluster hit.slot) files)
    (fits : files.length * st.boot.clusterSize < 4294967296) (buf : Bytes) (positive : 1 ≤ size)
    (small : size + st.boot.clusterSize ≤ 4294967296)
    (needed : size ≤ (turns + 1) * st.boot.clusterSize)
    (room : turns ≤ (freeClusters st.boot st.disk).card)
    (enough : dirs.length ≤ fuel) (turnsEnough : turns < fuel) :
    ∃ st' clusters, fatWriteData fuel name buf size st = some st' ∧ Coherent st' ∧ Kept st st' ∧
      Written st.boot buf size 0 (sizedDisk st.disk hit size) st'.disk
        (hit.buf.slotCluster hit.slot) files clusters := by
  obtain ⟨owner, s, place⟩ := firstHit_some found
  have ownerData := directory.data owner place.member
  obtain ⟨⟨_, _, _, _, nr, cached, dirty, console⟩, searched, loaded⟩ :=
    locate_eq (coherent.lagging wf.layout) directory enough name
  have coherent₁ := coherent.loaded loaded
  obtain ⟨⟨rfl, rfl, rfl⟩, rfl, -, -⟩ := loaded
  have entries : ∀ cluster, cluster < st.boot.totalClusters + 2 →
      fatEntry st.boot (sizedDisk st.disk hit size) cluster = fatEntry st.boot st.disk cluster :=
    fun _ inRange => place.fatEntry wf ownerData _ inRange
  have free : freeClusters st.boot (sizedDisk st.disk hit size) = freeClusters st.boot st.disk :=
    freeClusters_congr entries
  have coherent₂ := coherent₁.rewrite (sizedDisk st.disk hit size) (by
    intro lba fat
    simp only at fat
    rw [sizedDisk, place.lba, readFat_writeData wf st.disk _ ownerData place.inside fat])
  have file₂ := file.congr (fun cluster member => entries cluster (file.data cluster member).2)
  obtain ⟨st', clusters, result, coherent', kept', contents⟩ := @writeLoop
    { st with
      disk := sizedDisk st.disk hit size, cachedFatSectorNr := nr, cachedFatBuf := cached,
      fatCacheDirty := dirty, console := console }
    (hit.buf.slotCluster hit.slot) files size 0 fuel wf coherent₂ buf file₂ small positive
    (by rw [Nat.zero_add]; exact fits) turns (by rw [Nat.zero_add]; exact needed)
    (by rw [free]; exact room) turnsEnough
  refine ⟨st', clusters, ?_, coherent', ⟨kept'.boot, kept'.cwdCluster, kept'.cwdPath⟩, contents⟩
  rw [fatWriteData, searched, found]
  exact result

theorem fatReadFile_found (wf : st.boot.WellFormed) (lagging : Lagging st)
    (directory : FatChain st.boot st.disk st.cwdCluster dirs)
    (found : firstHit st.boot st.disk (Sector.slotMatches name) dirs = some hit)
    (file : FatChain st.boot st.disk (hit.buf.slotCluster hit.slot) files)
    (fits : files.length * st.boot.clusterSize < 4294967296)
    (positive : hit.buf.slotSize hit.slot ≠ 0)
    (enough : dirs.length ≤ fuel) (filesEnough : files.length < fuel) (out : Bytes) :
    ∃ out' st', fatReadFile fuel name out st = some (hit.buf.slotSize hit.slot, out', st') ∧
      ∀ position < files.length * st.boot.clusterSize,
        out' position = chainByte st.boot st.disk files position := by
  obtain ⟨st₁, searched, loaded⟩ := locate_eq lagging directory enough name
  have read := @readLoop st₁ (hit.buf.slotCluster hit.slot) files 0 fuel out
  rw [loaded.kept.boot, loaded.disk, Nat.zero_add] at read
  obtain ⟨out', st', result, _, contents⟩ := read wf (lagging.loaded loaded) file fits filesEnough
  refine ⟨out', st', ?_, ?_⟩
  · simp only [fatReadFile, searched, found, positive, result, ↓reduceIte]
  · intro position below
    have byte := contents position below
    rwa [Nat.zero_add] at byte

/-- After `fat_write_data` stored `size` bytes in a regular file,
`fat_read_file` returns the size and the bytes. -/
theorem fatReadFile_fatWriteData {st : FatState} {name : CString} {dirs files : List Nat} {hit : Hit}
    {size : Nat} (wf : st.boot.WellFormed) (coherent : Coherent st)
    (directory : FatChain st.boot st.disk st.cwdCluster dirs)
    (found : firstHit st.boot st.disk (Sector.slotMatches name) dirs = some hit)
    (file : FatChain st.boot st.disk (hit.buf.slotCluster hit.slot) files)
    (fits : files.length * st.boot.clusterSize < 4294967296)
    (apart : ∀ cluster ∈ files, cluster ∉ dirs) (buf : Bytes) (positive : 1 ≤ size)
    (small : size + st.boot.clusterSize ≤ 4294967296)
    (room : (size + st.boot.clusterSize - 1) / st.boot.clusterSize - 1 ≤
      (freeClusters st.boot st.disk).card) :
    ∃ enough, ∀ fuel, enough ≤ fuel → ∃ written, fatWriteData fuel name buf size st = some written ∧
      ∀ out, ∃ out' read, fatReadFile fuel name out written = some (size, out', read) ∧
        ∀ index < size, out' index = buf index := by
  have clusterPos : 0 < st.boot.clusterSize := Nat.mul_pos wf.spc_pos (by decide)
  have needed : size ≤ ((size + st.boot.clusterSize - 1) / st.boot.clusterSize - 1 + 1) *
      st.boot.clusterSize := by
    have whole := @Nat.lt_div_mul_add (size - 1) _ clusterPos
    have shift : size + st.boot.clusterSize - 1 = size - 1 + st.boot.clusterSize := by omega
    rw [shift, Nat.add_div_right _ clusterPos, Nat.succ_sub_one, Nat.add_mul, Nat.one_mul]
    omega
  generalize (size + st.boot.clusterSize - 1) / st.boot.clusterSize - 1 = turns at needed room
  refine ⟨dirs.length + turns + 4294967296, fun fuel enough => ?_⟩
  obtain ⟨st', clusters, stored, coherent', kept, written⟩ := fatWriteData_found wf coherent directory
    found file fits buf positive small needed room (by omega : dirs.length ≤ fuel) (by omega)
  refine ⟨st', stored, fun out => ?_⟩
  obtain ⟨owner, s, place⟩ := firstHit_some found
  have ownerData := directory.data owner place.member
  have slotInside := (findInSector_some place.found).1
  have entries : ∀ cluster ∈ dirs, fatEntry st.boot (sizedDisk st.disk hit size) cluster =
      fatEntry st.boot st.disk cluster :=
    fun cluster member => place.fatEntry wf ownerData _ (directory.data cluster member).2
  have used : ∀ cluster ∈ dirs, fatEntry st.boot (sizedDisk st.disk hit size) cluster ≠ 0 := by
    intro cluster member
    rw [entries cluster member]
    exact directory.entry_ne_zero member
  have outside : ∀ cluster ∈ dirs, cluster ∉ files := fun cluster member other =>
    apart cluster other member
  have directory' := directory.congr (fun cluster member =>
    (written.entries cluster (directory.data cluster member).2 (outside cluster member)
      (used cluster member)).trans (entries cluster member))
  have contents : ∀ cluster ∈ dirs, ∀ t < st.boot.spc, clusterData st.boot st'.disk cluster t =
      clusterData st.boot (sizedDisk st.disk hit size) cluster t := fun cluster member =>
    written.frame cluster (directory.data cluster member) (outside cluster member) (used cluster member)
  have found' := firstHit_setSize wf directory.data place contents
  have buf' : (hit.reload st'.disk).buf = hit.buf.setSize hit.slot size := by
    have sector := contents owner place.member s place.inside
    rw [Hit.reload, place.lba]
    refine sector.trans ?_
    rw [sizedDisk, place.lba, clusterData_write wf _ _ ownerData ownerData place.inside place.inside,
      if_pos ⟨rfl, rfl⟩]
  have cluster' : (hit.reload st'.disk).buf.slotCluster (hit.reload st'.disk).slot =
      hit.buf.slotCluster hit.slot := by
    rw [buf']
    exact Sector.slotCluster_setSize hit.buf slotInside
  have size' : (hit.reload st'.disk).buf.slotSize (hit.reload st'.disk).slot = size := by
    rw [buf']
    exact Sector.slotSize_setSize hit.buf slotInside (by omega)
  have short := written.fits
  have long := written.long
  have single : clusters.length * 1 ≤ clusters.length * st.boot.clusterSize :=
    Nat.mul_le_mul_left _ clusterPos
  rw [found] at found'
  obtain ⟨boot, cwd, path⟩ := kept
  have lagging' := coherent'.lagging (by rw [boot]; exact wf.layout)
  rw [← boot] at wf directory' found'
  rw [← cwd] at directory'
  have chain := written.chain
  rw [← cluster', ← boot] at chain
  obtain ⟨out', read, result, bytes⟩ := fatReadFile_found wf lagging' directory' found' chain
    (by rw [boot]; omega) (by rw [size']; omega) (by omega : dirs.length ≤ fuel) (by omega) out
  rw [size'] at result
  refine ⟨out', read, result, ?_⟩
  intro index below
  rw [bytes index (by rw [boot]; omega), boot, written.contents index (by omega), Nat.zero_add]

/-- The file `A` in cluster 3, its entry in the first slot of the root directory. -/
def oneFileVolume : Disk :=
  image sampleBoot (assigned 0 [(0, 0x0FFFFFF8), (1, 0x0FFFFFFF), (2, 0x0FFFFFFF), (3, 0x0FFFFFFF)])
    (fun cluster _ =>
      if cluster = 2 then (newSlot [0x41] [] 0x20 Sector.zero 0).setCluster 0 3 else Sector.zero)

theorem fatReadFile_fatWriteData_oneFile :
    ∃ enough, ∀ fuel, enough ≤ fuel → ∃ written,
      fatWriteData fuel [0x41] UInt8.ofNat 1000 (mounted oneFileVolume) = some written ∧
        ∀ out, ∃ out' read, fatReadFile fuel [0x41] out written = some (1000, out', read) ∧
          ∀ index < 1000, out' index = UInt8.ofNat index := by
  have boot : (mounted oneFileVolume).boot = sampleBoot := (mounted_image _ _ _).1
  obtain ⟨hit, found, first⟩ : ∃ hit, firstHit (mounted oneFileVolume).boot
      (mounted oneFileVolume).disk (Sector.slotMatches [0x41]) [2] = some hit ∧
      hit.buf.slotCluster hit.slot = 3 := Option.map_eq_some_iff.mp (by decide +kernel)
  have directory : FatChain (mounted oneFileVolume).boot (mounted oneFileVolume).disk 2 [2] :=
    ⟨.last (nextOf_last (by decide +kernel)), by rw [boot]; decide⟩
  have file : FatChain (mounted oneFileVolume).boot (mounted oneFileVolume).disk 3 [3] :=
    ⟨.last (nextOf_last (by decide +kernel)), by rw [boot]; decide⟩
  exact fatReadFile_fatWriteData (by rw [boot]; exact sampleBoot_wellFormed) (mounted_coherent _)
    directory found (by rw [first]; exact file) (by rw [boot]; decide)
    (by decide) UInt8.ofNat (by decide) (by rw [boot]; decide) (by decide +kernel)

end LivlyOS.Fs
