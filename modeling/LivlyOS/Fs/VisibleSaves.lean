import LivlyOS.Fs.Saving
import LivlyOS.Fs.VisibleRoom

namespace LivlyOS.Fs

open LivlyOS.Lib

/-- The writing loop of `fat_write_data` over a lagging cache: with enough visible clusters it
stores the buffer along a chain that starts at the same cluster. -/
theorem writeLoop_visible (wf : st.boot.WellFormed) (lagging : Lagging st) (buf : Bytes)
    (chain : FatChain st.boot st.disk current clusters)
    (small : size + st.boot.clusterSize ≤ 4294967296) (fits : clusters.length * st.boot.clusterSize < 4294967296)
    (room : size ≤ ((visibleFree st).card + 1) * st.boot.clusterSize) (enough : (visibleFree st).card < fuel) :
    ∃ st' clusters', loop (writeTurn buf size) fuel ⟨current, 0, st⟩ = some st' ∧
      Lagging st' ∧ Kept st st' ∧ Written st.boot buf size 0 st.disk st'.disk current clusters clusters' := by
  obtain ⟨fuel, rfl⟩ : ∃ more, fuel = more + 1 := ⟨fuel - 1, by omega⟩
  have data := chain.first_data
  have low := data_lt_endOfChain wf data
  have rewritten : Lagging { st with disk := writtenDisk st.boot buf size 0 current st.disk } :=
    lagging.rewrite wf.layout _ (writtenDisk_offFat wf buf st.disk data)
  obtain ⟨rest, whole⟩ := chain.chain.cons
  have single : 1 * st.boot.clusterSize ≤ clusters.length * st.boot.clusterSize :=
    Nat.mul_le_mul_right _ (by simp [whole])
  by_cases last : size ≤ st.boot.clusterSize
  · have leave := writeTurn_leave buf current low st (by omega) (by omega : size ≤ 0 + _)
    exact ⟨_, clusters, loop_leave leave fuel, rewritten, ⟨rfl, rfl, rfl⟩,
      .last wf buf chain (by omega) (by omega) (by omega)⟩
  · -- the first extension makes the cache coherent, and the rest is the plain loop
    have again := writeTurn_again buf current low st (by omega) (by omega : 0 + _ < size)
    have used : fatEntry st.boot (writtenDisk st.boot buf size 0 current st.disk) current ≠ 0 := by
      rw [fatEntry_writtenDisk wf buf st.disk data data.2]
      exact chain.entry_ne_zero chain.chain.first_mem
    have free : freeClusters st.boot (writtenDisk st.boot buf size 0 current st.disk) = freeClusters st.boot st.disk :=
      freeClusters_writtenDisk wf buf st.disk data
    have visible := visibleFree_rewrite st free
    have some : (visibleFree st).Nonempty := by
      rw [← Finset.card_pos]
      by_contra none
      have none : (visibleFree st).card = 0 := by omega
      rw [none] at room
      omega
    obtain ⟨after, step, left⟩ := @fatExtendChain_visible
      { st with disk := writtenDisk st.boot buf size 0 current st.disk } current rewritten wf data.2 used (visible ▸ some)
    have kept := fatExtendChain_kept current { st with disk := writtenDisk st.boot buf size 0 current st.disk }
    rw [visible] at left
    generalize fatExtendChain current
      { st with disk := writtenDisk st.boot buf size 0 current st.disk } = extended at again after step left kept
    obtain ⟨newCluster, mid⟩ := extended
    obtain ⟨boot, cwd, path⟩ := kept
    dsimp only at again after step left boot cwd path
    have fewer := (Finset.pred_card_le_card_erase (s := visibleFree st) (a := newCluster)).trans (Finset.card_le_card left)
    have chained : FatChain st.boot mid.disk newCluster [newCluster] := .single step.data step.last
    have turn : Extended st.boot buf size 0 current st.disk mid.disk newCluster :=
      ⟨step, data, chain.entry_ne_zero chain.chain.first_mem⟩
    have next := @writeLoop mid newCluster [newCluster] size (0 + st.boot.clusterSize) fuel
    rw [boot, List.length_singleton, Nat.one_mul] at next
    have count : (visibleFree st).card + 1 = (visibleFree st).card - 1 + 1 + 1 := by
      have positive := Finset.card_pos.mpr some
      omega
    rw [count, Nat.add_mul, Nat.one_mul] at room
    obtain ⟨st', tail, result, coherent', kept', rest⟩ := next wf after buf chained small (by omega) (by omega)
      ((visibleFree st).card - 1) (by omega) fewer (by omega)
    exact ⟨st', current :: tail, (loop_again again fuel).trans result,
      coherent'.lagging (by rw [kept'.boot, boot]; exact wf.layout),
      ⟨kept'.boot.trans boot, kept'.cwdCluster.trans cwd, kept'.cwdPath.trans path⟩,
      .link wf chain (by omega) (by omega) turn rest⟩

section Calls

variable {st : FatState} {name : CString} {dirs : List Nat} (wf : st.boot.WellFormed) (lagging : Lagging st)
  (directory : FatChain st.boot st.disk st.cwdCluster dirs)
include wf lagging directory

/-- `fat_write_data` to an existing file, over a lagging cache. -/
theorem fatWriteData_visible (found : firstHit st.boot st.disk (Sector.slotMatches name) dirs = some hit)
    (file : FatChain st.boot st.disk (hit.buf.slotCluster hit.slot) files) (buf : Bytes)
    (small : size + st.boot.clusterSize ≤ 4294967296) (fits : files.length * st.boot.clusterSize < 4294967296)
    (room : size ≤ ((visibleFree st).card + 1) * st.boot.clusterSize) :
    ∃ enough, ∀ fuel, enough ≤ fuel → ∃ st' files', fatWriteData fuel name buf size st = some st' ∧
      Lagging st' ∧ Kept st st' ∧
      Written st.boot buf size 0 (sizedDisk st.disk hit size) st'.disk (hit.buf.slotCluster hit.slot) files files' := by
  obtain ⟨owner, s, place⟩ := firstHit_some found
  refine ⟨dirs.length + (freeClusters st.boot st.disk).card + 2, fun fuel enough => ?_⟩
  obtain ⟨mid, searched, loaded⟩ := locate_eq lagging directory (by omega : dirs.length ≤ fuel) name
  have lagging' := lagging.loaded loaded
  have more := Finset.card_le_card loaded.visibleFree
  obtain ⟨_, _, _, _, nr, cached, dirty, console⟩ := mid
  obtain ⟨⟨rfl, rfl, rfl⟩, rfl, -, -⟩ := loaded
  have start := lagging'.rewrite wf.layout (sizedDisk st.disk hit size)
    (fun lba fat => readFat_sizedDisk wf place (directory.data owner place.member) size fat)
  have free := freeClusters_sizedDisk wf directory found size
  have visible := visibleFree_rewrite ⟨st.disk, st.boot, st.cwdCluster, st.cwdPath, nr, cached, dirty, console⟩ free
  have few : (visibleFree ⟨st.disk, st.boot, st.cwdCluster, st.cwdPath, nr, cached, dirty, console⟩).card ≤
      (freeClusters st.boot st.disk).card := Finset.card_le_card (Finset.filter_subset _ _)
  obtain ⟨st', files', written, lagging'', kept, result⟩ := writeLoop_visible (by exact wf) start buf
    (by exact chain_sizedDisk wf directory found size file) small fits
    (room.trans (Nat.mul_le_mul_right _ (by rw [visible]; omega))) (by rw [visible]; omega : _ < fuel)
  refine ⟨st', files', ?_, lagging'', ⟨kept.boot, kept.cwdCluster, kept.cwdPath⟩, result⟩
  rw [fatWriteData, searched, found]
  exact written

end Calls

end LivlyOS.Fs
