import Mathlib.Data.Fin.Basic
import Mathlib.Data.List.Induction
import Mathlib.Logic.Function.Basic
import Mathlib.Tactic.Common

/-! Circular buffers with a read and a write position and no stored count: equal
positions mean an empty buffer, so one slot always stays unused. -/

namespace LivlyOS.Lib

structure CircularBuffer (size : Nat) (α : Type) where
  cells : Fin size → α
  readPos : Fin size
  writePos : Fin size

namespace CircularBuffer

variable {size : Nat} {α β : Type}

/-- The slot `k` places behind another one. -/
def ahead (i : Fin size) (k : Nat) : Fin size := ⟨(i + k) % size, Nat.mod_lt _ i.pos⟩

/-- The number of filled slots. -/
def unread (buffer : CircularBuffer size α) : Nat :=
  (buffer.writePos + size - buffer.readPos) % size

/-- The values in the filled slots, the oldest one first. -/
def contents (buffer : CircularBuffer size α) : List α :=
  (List.range buffer.unread).map fun k => buffer.cells (ahead buffer.readPos k)

/-- Store a value and move the write position on, whatever the read position is. -/
def push (buffer : CircularBuffer size α) (value : α) : CircularBuffer size α :=
  { buffer with
    cells := Function.update buffer.cells buffer.writePos value
    writePos := ahead buffer.writePos 1 }

/-- Take the value at the read position, unless the buffer is empty. -/
def pop (buffer : CircularBuffer size α) : Option (α × CircularBuffer size α) :=
  if buffer.readPos = buffer.writePos then none
  else some (buffer.cells buffer.readPos, { buffer with readPos := ahead buffer.readPos 1 })

/-- Pop up to `fuel` values, as long as there are any. -/
def popAll : (fuel : Nat) → CircularBuffer size α → List α
  | 0, _ => []
  | fuel + 1, buffer =>
    match buffer.pop with
    | none => []
    | some (value, rest) => value :: popAll fuel rest

/-- Push several values. -/
def pushAll (buffer : CircularBuffer size α) (values : List α) : CircularBuffer size α :=
  values.foldl push buffer

/-- Change the values and keep the positions. -/
def map (view : α → β) (buffer : CircularBuffer size α) : CircularBuffer size β where
  cells := fun i => view (buffer.cells i)
  readPos := buffer.readPos
  writePos := buffer.writePos

@[simp] theorem ahead_val (i : Fin size) (k : Nat) : (ahead i k : Nat) = (i + k) % size := rfl

theorem ahead_ahead (i : Fin size) (j k : Nat) : ahead (ahead i j) k = ahead i (j + k) := by
  apply Fin.ext
  rw [ahead_val, ahead_val, ahead_val, Nat.mod_add_mod, Nat.add_assoc]

theorem ahead_inj {i : Fin size} (first : j < size) (second : k < size) (same : ahead i j = ahead i k) : j = k := by
  have places : (i + j : Nat) % size = (i + k) % size := congrArg Fin.val same
  have inside := i.isLt
  by_cases left : (i + j : Nat) < size <;> by_cases right : (i + k : Nat) < size
  · rw [Nat.mod_eq_of_lt left, Nat.mod_eq_of_lt right] at places
    omega
  · rw [Nat.mod_eq_of_lt left, Nat.mod_eq_sub_mod (by omega), Nat.mod_eq_of_lt (by omega)] at places
    omega
  · rw [Nat.mod_eq_of_lt right, Nat.mod_eq_sub_mod (by omega), Nat.mod_eq_of_lt (by omega)] at places
    omega
  · rw [Nat.mod_eq_sub_mod (by omega), Nat.mod_eq_of_lt (by omega), Nat.mod_eq_sub_mod (a := (i + k : Nat)) (by omega),
      Nat.mod_eq_of_lt (by omega)] at places
    omega

theorem unread_lt (buffer : CircularBuffer size α) : buffer.unread < size := Nat.mod_lt _ buffer.readPos.pos

/-- The write position is as far ahead of the read position as there are filled slots. -/
theorem writePos_eq (buffer : CircularBuffer size α) : buffer.writePos = ahead buffer.readPos buffer.unread := by
  apply Fin.ext
  have low := buffer.readPos.isLt
  have high := buffer.writePos.isLt
  rw [ahead_val, unread, Nat.add_mod_mod, show (buffer.readPos + (buffer.writePos + size - buffer.readPos) : Nat)
    = buffer.writePos + size by omega, Nat.add_mod_right, Nat.mod_eq_of_lt high]

theorem unread_eq {buffer : CircularBuffer size α} (there : buffer.writePos = ahead buffer.readPos k) (short : k < size) :
    buffer.unread = k :=
  ahead_inj buffer.unread_lt short (buffer.writePos_eq.symm.trans there)

@[simp] theorem length_contents (buffer : CircularBuffer size α) : buffer.contents.length = buffer.unread := by
  simp [contents]

theorem positions_eq_iff (buffer : CircularBuffer size α) : buffer.readPos = buffer.writePos ↔ buffer.unread = 0 := by
  have positive := buffer.readPos.pos
  have here : ahead buffer.readPos 0 = buffer.readPos := by
    apply Fin.ext
    rw [ahead_val, Nat.add_zero, Nat.mod_eq_of_lt buffer.readPos.isLt]
  constructor
  · intro same
    exact unread_eq (same.symm.trans here.symm) positive
  · intro empty
    rw [writePos_eq, empty, here]

theorem pop_isSome_iff (buffer : CircularBuffer size α) : buffer.pop.isSome ↔ 0 < buffer.unread := by
  have empty := buffer.positions_eq_iff
  unfold pop
  split
  · simp only [Option.isSome_none, Bool.false_eq_true, false_iff]
    omega
  · simp only [Option.isSome_some, true_iff]
    omega

/-- A push into a buffer with a second free slot appends the value. -/
theorem contents_push (buffer : CircularBuffer size α) (value : α) (room : buffer.unread + 1 < size) :
    (buffer.push value).contents = buffer.contents ++ [value] := by
  have more : (buffer.push value).unread = buffer.unread + 1 := by
    refine unread_eq ?_ room
    change ahead buffer.writePos 1 = ahead buffer.readPos (buffer.unread + 1)
    rw [writePos_eq, ahead_ahead]
  rw [contents, more, List.range_succ, List.map_append, List.map_singleton, contents]
  congr 1
  · apply List.map_congr_left
    intro k inside
    have early := List.mem_range.mp inside
    refine Function.update_of_ne (fun same => ?_) _ _
    rw [writePos_eq] at same
    exact absurd (ahead_inj (by omega) buffer.unread_lt same) (by omega)
  · change [Function.update buffer.cells buffer.writePos value (ahead buffer.readPos buffer.unread)] = [value]
    rw [← writePos_eq, Function.update_self]

/-- A push into the last free slot makes the positions meet: the buffer counts as empty. -/
theorem contents_push_full (buffer : CircularBuffer size α) (value : α) (full : buffer.unread + 1 = size) :
    (buffer.push value).contents = [] := by
  apply List.eq_nil_of_length_eq_zero
  rw [length_contents, ← positions_eq_iff]
  apply Fin.ext
  change (buffer.readPos : Nat) = ahead buffer.writePos 1
  rw [writePos_eq, ahead_ahead, full, ahead_val, Nat.add_mod_right, Nat.mod_eq_of_lt buffer.readPos.isLt]

theorem contents_pop {buffer : CircularBuffer size α} (popped : buffer.pop = some (value, rest)) :
    buffer.contents = value :: rest.contents := by
  have filled := (pop_isSome_iff buffer).mp (by rw [popped]; rfl)
  unfold pop at popped
  split at popped
  · cases popped
  · cases popped
    have fewer : ({ buffer with readPos := ahead buffer.readPos 1 } : CircularBuffer size α).unread = buffer.unread - 1 := by
      refine unread_eq ?_ (by have := buffer.unread_lt; omega)
      rw [ahead_ahead, show 1 + (buffer.unread - 1) = buffer.unread by omega, ← writePos_eq]
    rw [contents, contents, fewer]
    obtain ⟨k, count⟩ : ∃ k, buffer.unread = k + 1 := ⟨buffer.unread - 1, by omega⟩
    rw [count, List.range_succ_eq_map, List.map_cons, List.map_map, Nat.add_sub_cancel]
    congr 2
    · apply Fin.ext
      rw [ahead_val, Nat.add_zero, Nat.mod_eq_of_lt buffer.readPos.isLt]
    · funext k
      dsimp only [Function.comp_apply]
      rw [ahead_ahead, Nat.add_comm 1 k]

/-- Popping until nothing is left gives the contents. -/
theorem popAll_eq (buffer : CircularBuffer size α) (enough : buffer.unread ≤ fuel) :
    buffer.popAll fuel = buffer.contents := by
  induction fuel generalizing buffer with
  | zero =>
    refine (List.eq_nil_of_length_eq_zero ?_).symm
    rw [length_contents]
    omega
  | succ fuel ih =>
    have filled := buffer.pop_isSome_iff
    unfold popAll
    cases popped : buffer.pop with
    | none =>
      rw [popped] at filled
      refine (List.eq_nil_of_length_eq_zero ?_).symm
      rw [length_contents]
      simpa using filled
    | some result =>
      obtain ⟨value, rest⟩ := result
      have first := contents_pop popped
      have fewer := congrArg List.length first
      rw [length_contents, List.length_cons, length_contents] at fewer
      dsimp only
      rw [first, ih rest (by omega)]

/-- Without reads the buffer keeps the pushes behind the last multiple of its size. -/
theorem contents_pushAll (buffer : CircularBuffer size α) (values : List α) :
    (buffer.pushAll values).contents =
      (buffer.contents ++ values).drop (size * ((buffer.unread + values.length) / size)) := by
  induction values using List.reverseRecOn with
  | nil =>
    have short := buffer.unread_lt
    rw [List.length_nil, Nat.add_zero, Nat.div_eq_of_lt short, Nat.mul_zero, List.append_nil, List.drop_zero]
    rfl
  | append_singleton values last ih =>
    have step : buffer.pushAll (values ++ [last]) = (buffer.pushAll values).push last := by
      simp [pushAll]
    have positive := buffer.readPos.pos
    have count := congrArg List.length ih
    rw [length_contents, List.length_drop, List.length_append, length_contents] at count
    generalize total : buffer.unread + values.length = n at count ih
    have decomposed := Nat.div_add_mod n size
    have below := Nat.mod_lt n positive
    rw [step, List.length_append, List.length_singleton, ← Nat.add_assoc, total, ← List.append_assoc]
    by_cases full : (buffer.pushAll values).unread + 1 = size
    · rw [contents_push_full _ _ full]
      have next : n + 1 = size * (n / size + 1) := by
        rw [Nat.mul_add]
        omega
      rw [next, Nat.mul_div_cancel_left _ positive, ← next]
      refine (List.drop_eq_nil_of_le ?_).symm
      rw [List.length_append, List.length_append, length_contents, List.length_singleton]
      omega
    · have room : (buffer.pushAll values).unread + 1 < size := by
        have := (buffer.pushAll values).unread_lt
        omega
      have small : n % size + 1 < size := by omega
      have same : (n + 1) / size = n / size := by
        rw [show n + 1 = size * (n / size) + (n % size + 1) by omega, Nat.mul_add_div positive,
          Nat.div_eq_of_lt small, Nat.add_zero]
      rw [contents_push _ _ room, ih, same, ← List.drop_append_of_le_length]
      rw [List.length_append, length_contents]
      omega

theorem map_push (view : α → β) (buffer : CircularBuffer size α) (value : α) :
    (buffer.push value).map view = (buffer.map view).push (view value) := by
  unfold push map
  congr 1
  funext i
  exact Function.apply_update (fun _ => view) buffer.cells buffer.writePos value i

theorem map_pushAll (view : α → β) (buffer : CircularBuffer size α) (values : List α) :
    (buffer.pushAll values).map view = (buffer.map view).pushAll (values.map view) := by
  induction values generalizing buffer with
  | nil => rfl
  | cons value rest ih =>
    rw [List.map_cons]
    change ((buffer.push value).pushAll rest).map view = ((buffer.map view).push (view value)).pushAll _
    rw [ih, map_push]

theorem contents_map (view : α → β) (buffer : CircularBuffer size α) :
    (buffer.map view).contents = buffer.contents.map view := by
  rw [contents, contents, List.map_map]
  rfl

end CircularBuffer

end LivlyOS.Lib
