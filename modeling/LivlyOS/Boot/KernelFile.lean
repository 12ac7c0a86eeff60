import LivlyOS.Lib.Bytes
import LivlyOS.Lib.Loop

/-! The UEFI loader reads `kernel.bin` in chunks. The firmware is a parameter: a Read returns a
status, the bytes it stored, whose number it leaves in the size, and the file at its new position. -/

namespace LivlyOS.Boot

open LivlyOS.Lib

abbrev efiSuccess : Nat := 0

abbrev efiLoadError : Nat := 0x8000000000000001

abbrev kernelMaxPages : Nat := 2048

/-- `EFI_ERROR`: the highest bit of a status. -/
def efiError (status : Nat) : Prop := 2 ^ 63 ≤ status

instance (status : Nat) : Decidable (efiError status) := inferInstanceAs (Decidable (_ ≤ _))

theorem success_noError : ¬ efiError efiSuccess := by decide

theorem loadError_isError : efiError efiLoadError := by decide

structure EfiRead (φ : Type) where
  status : Nat
  bytes : List UInt8
  file : φ

/-- What the loader uses of the root directory: Open of the kernel file, and the Read of its handle. -/
structure EfiRoot (φ : Type) where
  openStatus : Nat
  kernelFile : φ
  read : φ → (size : Nat) → EfiRead φ

/-- The memory, the status and `*out_size` when `read_kernel_file` returns. -/
structure KernelRead where
  status : Nat
  mem : Bytes
  outSize : Nat

structure ReadState (φ : Type) where
  mem : Bytes
  file : φ
  total : Nat

def readChunk (root : EfiRoot φ) (dest outSize maxb : Nat) (st : ReadState φ) : Turn (ReadState φ) KernelRead :=
  let chunk := sub64 maxb st.total
  let chunk := if chunk > 1024 * 1024 then 1024 * 1024 else chunk
  if chunk = 0 then .leave ⟨efiLoadError, st.mem, outSize⟩
  else
    let answer := root.read st.file chunk
    let mem := putBytes st.mem (dest + st.total) answer.bytes
    if efiError answer.status then .leave ⟨answer.status, mem, outSize⟩
    else if answer.bytes.length = 0 then .leave ⟨efiSuccess, mem, st.total⟩
    else .again ⟨mem, answer.file, u64 (st.total + answer.bytes.length)⟩

def readKernelFile (root : EfiRoot φ) (mem : Bytes) (dest outSize : Nat) (fuel : Nat) : Option KernelRead :=
  if efiError root.openStatus then some ⟨root.openStatus, mem, outSize⟩
  else loop (readChunk root dest outSize (kernelMaxPages * 4096)) fuel ⟨mem, root.kernelFile, 0⟩

/-- The kernel file holds `data`: before the end a Read returns at least one and at most `size` of the
bytes at the position, at the end none. -/
structure Provides (root : EfiRoot φ) (data : List UInt8) (position : φ → Nat) : Prop where
  opens : ¬ efiError root.openStatus
  start : position root.kernelFile = 0
  inside : ∀ file size, position file < data.length → 0 < size →
    ¬ efiError (root.read file size).status ∧
    ∃ count, 0 < count ∧ count ≤ size ∧ position file + count ≤ data.length ∧
      (root.read file size).bytes = (data.drop (position file)).take count ∧
      position (root.read file size).file = position file + count
  atEnd : ∀ file size, position file = data.length → 0 < size →
    ¬ efiError (root.read file size).status ∧ (root.read file size).bytes = []

/-- A file that fits is in memory, with its size; a longer one is an error, and nothing beyond the
pages of the kernel changes. -/
structure ReadsKernel (data : List UInt8) (mem : Bytes) (dest : Nat) (out : KernelRead) : Prop where
  fits : data.length ≤ kernelMaxPages * 4096 → out.status = efiSuccess ∧ out.outSize = data.length ∧
    ∀ index, index < data.length → out.mem (dest + index) = data.getD index 0
  tooLong : kernelMaxPages * 4096 < data.length → efiError out.status ∧
    ∀ address, dest + kernelMaxPages * 4096 ≤ address → out.mem address = mem address

section

variable {φ : Type} {root : EfiRoot φ} {data : List UInt8} {position : φ → Nat} {mem : Bytes} {dest outSize : Nat}

/-- The invariant of the loop: the first `total` bytes of the file are loaded, and only these. -/
structure Loading (data : List UInt8) (position : φ → Nat) (mem : Bytes) (dest : Nat) (st : ReadState φ) : Prop where
  reached : position st.file = st.total
  available : st.total ≤ data.length
  room : st.total ≤ kernelMaxPages * 4096
  loaded : ∀ index, index < st.total → st.mem (dest + index) = data.getD index 0
  beyond : ∀ address, dest + kernelMaxPages * 4096 ≤ address → st.mem address = mem address

/-- With room left a turn asks for at least one byte, and for no more than fit. -/
theorem readChunk_room (root : EfiRoot φ) (dest outSize : Nat) {st : ReadState φ} (room : st.total < kernelMaxPages * 4096) :
    ∃ chunk, 0 < chunk ∧ st.total + chunk ≤ kernelMaxPages * 4096 ∧
      readChunk root dest outSize (kernelMaxPages * 4096) st =
        let answer := root.read st.file chunk
        let mem := putBytes st.mem (dest + st.total) answer.bytes
        if efiError answer.status then .leave ⟨answer.status, mem, outSize⟩
        else if answer.bytes.length = 0 then .leave ⟨efiSuccess, mem, st.total⟩
        else .again ⟨mem, answer.file, u64 (st.total + answer.bytes.length)⟩ := by
  have left : sub64 (kernelMaxPages * 4096) st.total = kernelMaxPages * 4096 - st.total :=
    sub64_of_le (Nat.le_of_lt room) (by decide)
  refine ⟨min (kernelMaxPages * 4096 - st.total) (1024 * 1024), by omega, by omega, ?_⟩
  have capped : (if kernelMaxPages * 4096 - st.total > 1024 * 1024 then 1024 * 1024
      else kernelMaxPages * 4096 - st.total) = min (kernelMaxPages * 4096 - st.total) (1024 * 1024) := by
    split <;> omega
  unfold readChunk
  dsimp only
  rw [left, capped, if_neg (by omega)]

/-- A turn before the end of the file and of the pages loads more. -/
theorem readChunk_again (reads : Provides root data position) (outSize : Nat) {st : ReadState φ}
    (loading : Loading data position mem dest st) (more : st.total < data.length)
    (room : st.total < kernelMaxPages * 4096) :
    ∃ next, readChunk root dest outSize (kernelMaxPages * 4096) st = .again next ∧
      Loading data position mem dest next ∧ st.total < next.total := by
  obtain ⟨chunk, asked, fits, turn⟩ := readChunk_room root dest outSize room
  obtain ⟨good, count, positive, short, inside, bytes, moved⟩ :=
    reads.inside st.file chunk (loading.reached ▸ more) asked
  rw [loading.reached] at inside bytes moved
  have size : (root.read st.file chunk).bytes.length = count := by
    rw [bytes, List.length_take, List.length_drop]
    omega
  have sum : u64 (st.total + count) = st.total + count :=
    u64_of_lt (Nat.lt_of_le_of_lt (by omega : _ ≤ kernelMaxPages * 4096) (by decide))
  dsimp only at turn
  rw [if_neg good, size, if_neg (by omega), sum] at turn
  refine ⟨_, turn, ⟨moved, inside, by dsimp only; omega, fun index below => ?_, fun address above => ?_⟩,
    Nat.lt_add_of_pos_right positive⟩
  · -- a byte is of this chunk or of an earlier one
    dsimp only at below ⊢
    by_cases earlier : index < st.total
    · rw [putBytes_outside _ _ (by omega)]
      exact loading.loaded index earlier
    · obtain ⟨offset, rfl⟩ := Nat.exists_eq_add_of_le (Nat.le_of_not_lt earlier)
      have short : offset < count := by omega
      rw [← Nat.add_assoc, putBytes_inside _ _ (by omega), bytes]
      simp only [List.getD_eq_getElem?_getD, List.getElem?_take_of_lt short, List.getElem?_drop]
  · dsimp only
    rw [putBytes_outside _ _ (.inr (by omega))]
    exact loading.beyond address above

/-- The turn at the end of a file that leaves room. -/
theorem readChunk_end (reads : Provides root data position) {st : ReadState φ}
    (loading : Loading data position mem dest st) (ended : st.total = data.length)
    (room : st.total < kernelMaxPages * 4096) :
    readChunk root dest outSize (kernelMaxPages * 4096) st = .leave ⟨efiSuccess, st.mem, st.total⟩ := by
  obtain ⟨chunk, asked, _, turn⟩ := readChunk_room root dest outSize room
  obtain ⟨good, bytes⟩ := reads.atEnd st.file chunk (loading.reached.trans ended) asked
  dsimp only at turn
  rw [turn, if_neg good, bytes, if_pos List.length_nil, putBytes_nil]

/-- The turn with no room left, whether the file has ended or not. -/
theorem readChunk_full (st : ReadState φ) (full : st.total = kernelMaxPages * 4096) :
    readChunk root dest outSize (kernelMaxPages * 4096) st = .leave ⟨efiLoadError, st.mem, outSize⟩ := by
  unfold readChunk
  rw [full]
  rfl

/-- The loop ends: with the file when it is shorter than the pages, with an error otherwise. -/
theorem readLoop_ends (reads : Provides root data position) (outSize : Nat) (st : ReadState φ)
    (loading : Loading data position mem dest st) :
    ∃ fuel last, Loading data position mem dest last ∧
      loop (readChunk root dest outSize (kernelMaxPages * 4096)) fuel st =
        some (if data.length < kernelMaxPages * 4096 then ⟨efiSuccess, last.mem, last.total⟩
          else ⟨efiLoadError, last.mem, outSize⟩) ∧
      (data.length < kernelMaxPages * 4096 → last.total = data.length) := by
  induction remaining : kernelMaxPages * 4096 - st.total using Nat.strong_induction_on generalizing st with
  | _ remaining ih =>
    subst remaining
    by_cases room : st.total < kernelMaxPages * 4096
    · by_cases more : st.total < data.length
      · obtain ⟨next, turn, loading', later⟩ := readChunk_again reads outSize loading more room
        obtain ⟨fuel, last, result⟩ := ih _ (by omega) next loading' rfl
        exact ⟨fuel + 1, last, by rw [loop_again turn]; exact result⟩
      · have ended : st.total = data.length := Nat.le_antisymm loading.available (Nat.le_of_not_lt more)
        refine ⟨1, st, loading, ?_, fun _ => ended⟩
        rw [loop_leave (readChunk_end reads loading ended room), if_pos (ended ▸ room)]
    · have full : st.total = kernelMaxPages * 4096 := Nat.le_antisymm loading.room (Nat.le_of_not_lt room)
      have long : ¬ data.length < kernelMaxPages * 4096 := Nat.not_lt.mpr (full ▸ loading.available)
      refine ⟨1, st, loading, ?_, fun short => absurd short long⟩
      rw [loop_leave (readChunk_full st full), if_neg long]

/-- What `read_kernel_file` does with a file, whatever the short reads. -/
theorem readKernelFile_spec (reads : Provides root data position) (mem : Bytes) (dest outSize : Nat) :
    ∃ fuel last, Loading data position mem dest last ∧
      readKernelFile root mem dest outSize fuel =
        some (if data.length < kernelMaxPages * 4096 then ⟨efiSuccess, last.mem, last.total⟩
          else ⟨efiLoadError, last.mem, outSize⟩) ∧
      (data.length < kernelMaxPages * 4096 → last.total = data.length) := by
  have initial : Loading data position mem dest ⟨mem, root.kernelFile, 0⟩ :=
    ⟨reads.start, Nat.zero_le _, Nat.zero_le _, fun index below => absurd below (Nat.not_lt_zero index), fun _ _ => rfl⟩
  obtain ⟨fuel, last, result⟩ := readLoop_ends reads outSize _ initial
  refine ⟨fuel, last, ?_⟩
  rw [readKernelFile, if_neg reads.opens]
  exact result

theorem readKernelFile_deterministic {out out' : KernelRead} (first : readKernelFile root mem dest outSize fuel = some out)
    (second : readKernelFile root mem dest outSize fuel' = some out') : out = out' := by
  unfold readKernelFile at first second
  split at first
  · rw [if_pos ‹_›] at second
    exact Option.some.inj (first.symm.trans second)
  · rw [if_neg ‹_›] at second
    exact loop_deterministic first second

/-- A file that fills the pages exactly: the size of the next Read is already zero before the end is seen. -/
theorem full_file_fails (reads : Provides root data position) (full : data.length = kernelMaxPages * 4096)
    {out : KernelRead} (result : readKernelFile root mem dest outSize fuel = some out) :
    ¬ ReadsKernel data mem dest out := by
  obtain ⟨_, last, _, spec, _⟩ := readKernelFile_spec reads mem dest outSize
  rw [if_neg (full ▸ Nat.lt_irrefl _)] at spec
  cases readKernelFile_deterministic result spec
  intro read
  exact success_noError ((read.fits (Nat.le_of_eq full)).1 ▸ loadError_isError)

/-- The loader reads every kernel as it should, but one of exactly the size of its pages. -/
theorem read_kernel_file_iff (reads : Provides root data position) (mem : Bytes) (dest outSize : Nat) :
    (∃ fuel out, readKernelFile root mem dest outSize fuel = some out ∧ ReadsKernel data mem dest out) ↔
      data.length ≠ kernelMaxPages * 4096 := by
  constructor
  · rintro ⟨fuel, out, result, read⟩ full
    exact full_file_fails reads full result read
  · intro other
    obtain ⟨fuel, last, loading, spec, total⟩ := readKernelFile_spec reads mem dest outSize
    refine ⟨fuel, _, spec, fun fits => ?_, fun long => ?_⟩
    · have short := Nat.lt_of_le_of_ne fits other
      rw [if_pos short]
      exact ⟨rfl, total short, fun index below => loading.loaded index (total short ▸ below)⟩
    · rw [if_neg (Nat.not_lt.mpr (Nat.le_of_lt long))]
      exact ⟨loadError_isError, loading.beyond⟩

end

/-- A file in memory; its handle is the position, and a Read gives at most `most` bytes. -/
def storedFile (most : Nat) (data : List UInt8) : EfiRoot Nat :=
  ⟨efiSuccess, 0, fun position size =>
    let bytes := (data.drop position).take (min most size)
    ⟨efiSuccess, bytes, position + bytes.length⟩⟩

theorem storedFile_provides (positive : 0 < most) (data : List UInt8) : Provides (storedFile most data) data id where
  opens := success_noError
  start := rfl
  inside position size before asked := by
    refine ⟨success_noError, min (min most size) (data.length - position), ?_, ?_, ?_, ?_, ?_⟩
    · dsimp only [id] at before
      omega
    · omega
    · dsimp only [id] at before ⊢
      omega
    · simp [storedFile, List.take_eq_take_iff]
    · simp [storedFile]
  atEnd position size ended _ := by
    refine ⟨success_noError, ?_⟩
    simp only [id] at ended
    simp [storedFile, ended]

/-- Two bytes and one more. -/
theorem read_kernel_file_short :
    ∃ fuel out, readKernelFile (storedFile 2 [0x4C, 0x4F, 0x53]) (fun _ => 0) 0x100000 0 fuel = some out ∧
      ReadsKernel [0x4C, 0x4F, 0x53] (fun _ => 0) 0x100000 out :=
  (read_kernel_file_iff (storedFile_provides (by decide) _) (fun _ => 0) 0x100000 0).mpr (by decide)

/-- A kernel of 8 MiB, as much as the pages hold. -/
def largestKernel : List UInt8 := List.replicate (kernelMaxPages * 4096) 0

theorem largestKernel_length : largestKernel.length = kernelMaxPages * 4096 := List.length_replicate

/-- It is refused. -/
theorem read_kernel_file_full :
    Provides (storedFile 65536 largestKernel) largestKernel id ∧
      ¬ ∃ fuel out, readKernelFile (storedFile 65536 largestKernel) (fun _ => 0) 0x100000 0 fuel = some out ∧
        ReadsKernel largestKernel (fun _ => 0) 0x100000 out := by
  have provides : Provides (storedFile 65536 largestKernel) largestKernel id := storedFile_provides (by decide) largestKernel
  refine ⟨provides, ?_⟩
  rintro ⟨fuel, out, result, read⟩
  exact full_file_fails provides largestKernel_length result read

end LivlyOS.Boot
