import LivlyOS.Fs.FileData
import LivlyOS.Fs.Lagging

namespace LivlyOS.Fs

open LivlyOS.Lib

theorem Extends.fewer (step : Extends boot disk disk' prevCluster n) :
    freeClusters boot disk' ⊆ (freeClusters boot disk).erase n := by
  intro cluster member
  obtain ⟨data, zero⟩ := mem_freeClusters.mp member
  refine Finset.mem_erase.mpr ⟨?_, mem_freeClusters.mpr ⟨data, ?_⟩⟩
  · intro same
    rw [same, step.last] at zero
    omega
  · by_contra used
    by_cases prev : cluster = prevCluster
    · have low := step.data.1
      rw [prev, step.link] at zero
      omega
    · rw [step.others cluster data.2 prev used] at zero
      exact used zero

theorem writeTurn_cases (buf : Bytes) (size offset : Nat) (small : current < endOfChain) (st : FatState) :
    let st₁ := { st with disk := writtenDisk st.boot buf size offset current st.disk }
    writeTurn buf size ⟨current, offset, st⟩ = .leave st₁ ∨
      ∃ offset', writeTurn buf size ⟨current, offset, st⟩ =
        .again ⟨(fatExtendChain current st₁).1, offset', (fatExtendChain current st₁).2⟩ := by
  simp only [writeTurn, Nat.not_le.mpr small, ↓reduceIte]
  split
  · exact .inr ⟨_, rfl⟩
  · exact .inl rfl

/-- The writing loop ends from every cluster of the volume that starts a chain. -/
theorem writeLoop_total (wf : st.boot.WellFormed) (lagging : Lagging st) (buf : Bytes)
    (chain : FatChain st.boot st.disk current clusters) (size offset turns : Nat)
    (room : (freeClusters st.boot st.disk).card ≤ turns) (enough : turns + 1 < fuel) :
    ∃ st' clusters', loop (writeTurn buf size) fuel ⟨current, offset, st⟩ = some st' ∧
      Lagging st' ∧ (Coherent st → Coherent st') ∧ Kept st st' ∧
      Rewrites st.boot st.disk st'.disk current clusters clusters' := by
  induction turns using Nat.strong_induction_on generalizing st current offset clusters fuel with
  | _ turns ih =>
    obtain ⟨fuel, rfl⟩ : ∃ more, fuel = more + 2 := ⟨fuel - 2, by omega⟩
    have data := chain.first_data
    have small := data_lt_endOfChain wf data
    have last := Rewrites.last wf chain buf size offset
    have sameFat : ∀ lba, st.boot.IsFatSector lba →
        ataReadSector (writtenDisk st.boot buf size offset current st.disk) lba = ataReadSector st.disk lba :=
      writtenDisk_offFat wf buf st.disk data
    have lagging₁ := lagging.rewrite wf.layout _ sameFat
    have coherent₁ : Coherent st → Coherent { st with
        disk := writtenDisk st.boot buf size offset current st.disk } :=
      fun coherent => coherent.rewrite _ sameFat
    have used := last.chain.entry_ne_zero chain.chain.first_mem
    rcases writeTurn_cases buf size offset small st with leave | ⟨offset', again⟩
    · exact ⟨_, clusters, loop_leave leave _, lagging₁, coherent₁, ⟨rfl, rfl, rfl⟩, last⟩
    · have outcome := fatExtendChain_lagging lagging₁ wf data.2 used
      have kept := fatExtendChain_kept current
        { st with disk := writtenDisk st.boot buf size offset current st.disk }
      generalize fatExtendChain current
        { st with disk := writtenDisk st.boot buf size offset current st.disk } = extended
        at again outcome kept
      obtain ⟨n, mid⟩ := extended
      obtain ⟨boot, cwd, path⟩ := kept
      simp only at again outcome boot cwd path
      rcases outcome with ⟨full, loaded⟩ | ⟨coherent, step⟩
      · -- the volume is full: the end mark leaves the loop
        have leave := writeTurn_end buf size offset' (by rw [full]; decide : endOfChain ≤ n) mid
        refine ⟨mid, clusters, (loop_again again _).trans (loop_leave leave _),
          lagging₁.loaded loaded, fun coherent => (coherent₁ coherent).loaded loaded,
          ⟨boot, cwd, path⟩, ?_⟩
        rw [loaded.disk]
        exact last
      · have turn : Extended st.boot buf size offset current st.disk mid.disk n :=
          ⟨step, data, chain.entry_ne_zero chain.chain.first_mem⟩
        have single : FatChain st.boot mid.disk n [n] := .single step.data step.last
        have member : n ∈ freeClusters st.boot (writtenDisk st.boot buf size offset current st.disk) :=
          mem_freeClusters.mpr ⟨step.data, step.free⟩
        have fewer := Finset.card_le_card step.fewer
        rw [Finset.card_erase_of_mem member] at fewer
        have some := Finset.card_pos.mpr ⟨n, member⟩
        rw [freeClusters_writtenDisk wf buf st.disk data] at fewer some
        have next := @ih (turns - 1) (by omega) mid n [n] (fuel + 1)
        rw [boot] at next
        obtain ⟨st', tail, result, lagging', coherent', kept', rest⟩ := next wf
          (coherent.lagging (by rw [boot]; exact wf.layout)) single offset' (by omega) (by omega)
        exact ⟨st', current :: tail, (loop_again again _).trans result, lagging',
          fun _ => coherent' coherent,
          ⟨kept'.boot.trans boot, kept'.cwdCluster.trans cwd, kept'.cwdPath.trans path⟩,
          .link wf chain turn rest⟩

end LivlyOS.Fs
