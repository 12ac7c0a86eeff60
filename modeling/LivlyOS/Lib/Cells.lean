import Mathlib.Data.Int.Basic
import Mathlib.Logic.Function.Basic
import Mathlib.Data.List.Basic
import Mathlib.Tactic.Common

/-! Arrays with checked accesses, counted loops whose body may fail, and runs of
values in arrays. An array is a function of an integer index. -/

namespace LivlyOS.Lib

/-- Read a cell of an array of the given size. -/
def readCell (size : Int) (cells : Int → α) (i : Int) : Option α :=
  if 0 ≤ i ∧ i < size then some (cells i) else none

/-- Write a cell of an array of the given size. -/
def writeCell (size : Int) (cells : Int → α) (i : Int) (value : α) : Option (Int → α) :=
  if 0 ≤ i ∧ i < size then some (Function.update cells i value) else none

theorem readCell_eq (cells : Int → α) (inside : 0 ≤ i ∧ i < size) : readCell size cells i = some (cells i) :=
  if_pos inside

theorem writeCell_eq (cells : Int → α) (inside : 0 ≤ i ∧ i < size) (value : α) :
    writeCell size cells i value = some (Function.update cells i value) := if_pos inside

theorem readCell_some {cells : Int → α} (read : readCell size cells i = some value) :
    (0 ≤ i ∧ i < size) ∧ value = cells i := by
  unfold readCell at read
  split at read
  · exact ⟨‹_›, (Option.some.inj read).symm⟩
  · cases read

theorem writeCell_some {cells : Int → α} (written : writeCell size cells i value = some cells') :
    (0 ≤ i ∧ i < size) ∧ cells' = Function.update cells i value := by
  unfold writeCell at written
  split at written
  · exact ⟨‹_›, (Option.some.inj written).symm⟩
  · cases written

/-- `turns` turns of a loop body with the counter going up from `i`. -/
def countUp (body : Int → σ → Option σ) : (turns : Nat) → (i : Int) → σ → Option σ
  | 0, _, state => some state
  | turns + 1, i, state => (body i state).bind (countUp body turns (i + 1))

/-- `for (i = lo; i < hi; i++)`. -/
def forUp (lo hi : Int) (body : Int → σ → Option σ) (state : σ) : Option σ :=
  countUp body (hi - lo).toNat lo state

/-- `turns` turns of a loop body with the counter going down from `i`. -/
def countDown (body : Int → σ → Option σ) : (turns : Nat) → (i : Int) → σ → Option σ
  | 0, _, state => some state
  | turns + 1, i, state => (body i state).bind (countDown body turns (i - 1))

/-- `for (i = hi; i > lo; i--)`. -/
def forDown (hi lo : Int) (body : Int → σ → Option σ) (state : σ) : Option σ :=
  countDown body (hi - lo).toNat hi state

variable {body : Int → σ → Option σ}

theorem forUp_done (finished : hi ≤ lo) (state : σ) : forUp lo hi body state = some state := by
  rw [forUp, Int.toNat_of_nonpos (by omega)]
  rfl

theorem forUp_next (more : lo < hi) (state : σ) :
    forUp lo hi body state = (body lo state).bind (forUp (lo + 1) hi body) := by
  obtain ⟨turns, count⟩ : ∃ turns, (hi - lo).toNat = turns + 1 := ⟨(hi - lo).toNat - 1, by omega⟩
  have rest : forUp (lo + 1) hi body = countUp body turns (lo + 1) := by
    funext state
    rw [forUp, show (hi - (lo + 1)).toNat = turns by omega]
  rw [rest, forUp, count, countUp]

/-- Bodies that agree on the values of the counter make the same loop. -/
theorem forUp_congr {body' : Int → σ → Option σ} (same : ∀ i state, lo ≤ i → i < hi → body i state = body' i state)
    (state : σ) : forUp lo hi body state = forUp lo hi body' state := by
  generalize count : (hi - lo).toNat = turns
  induction turns generalizing lo state with
  | zero => rw [forUp_done (by omega), forUp_done (by omega)]
  | succ turns ih =>
    rw [forUp_next (by omega), forUp_next (by omega), same lo state (Int.le_refl lo) (by omega)]
    congr 1
    funext next
    exact ih (fun i state low high => same i state (by omega) high) next (by omega)

theorem forDown_done (finished : hi ≤ lo) (state : σ) : forDown hi lo body state = some state := by
  rw [forDown, Int.toNat_of_nonpos (by omega)]
  rfl

theorem forDown_next (more : lo < hi) (state : σ) :
    forDown hi lo body state = (body hi state).bind (forDown (hi - 1) lo body) := by
  obtain ⟨turns, count⟩ : ∃ turns, (hi - lo).toNat = turns + 1 := ⟨(hi - lo).toNat - 1, by omega⟩
  have rest : forDown (hi - 1) lo body = countDown body turns (hi - 1) := by
    funext state
    rw [forDown, show (hi - 1 - lo).toNat = turns by omega]
  rw [rest, forDown, count, countDown]

/-- An invariant of the counter and the state that every turn keeps holds at the end. -/
theorem forUp_invariant (lo hi : Int) (body : Int → σ → Option σ) (state : σ) (inv : Int → σ → Prop)
    (turn : ∀ i state, lo ≤ i → i < hi → inv i state → ∃ next, body i state = some next ∧ inv (i + 1) next)
    (ordered : lo ≤ hi) (initial : inv lo state) :
    ∃ final, forUp lo hi body state = some final ∧ inv hi final := by
  obtain ⟨turns, count⟩ : ∃ turns : Nat, hi = lo + turns := ⟨(hi - lo).toNat, by omega⟩
  induction turns generalizing lo state with
  | zero => exact ⟨state, forUp_done (by omega) state, by rw [show hi = lo by omega]; exact initial⟩
  | succ turns ih =>
    obtain ⟨next, stepped, kept⟩ := turn lo state (by omega) (by omega) initial
    obtain ⟨final, ran, result⟩ := ih _ next (fun i state low high => turn i state (by omega) high) (by omega) kept (by omega)
    exact ⟨final, by rw [forUp_next (by omega), stepped]; exact ran, result⟩

theorem forDown_invariant (hi lo : Int) (body : Int → σ → Option σ) (state : σ) (inv : Int → σ → Prop)
    (turn : ∀ i state, lo < i → i ≤ hi → inv i state → ∃ next, body i state = some next ∧ inv (i - 1) next)
    (ordered : lo ≤ hi) (initial : inv hi state) :
    ∃ final, forDown hi lo body state = some final ∧ inv lo final := by
  obtain ⟨turns, count⟩ : ∃ turns : Nat, hi = lo + turns := ⟨(hi - lo).toNat, by omega⟩
  induction turns generalizing hi state with
  | zero => exact ⟨state, forDown_done (by omega) state, by rw [show lo = hi by omega]; exact initial⟩
  | succ turns ih =>
    obtain ⟨next, stepped, kept⟩ := turn hi state (by omega) (by omega) initial
    obtain ⟨final, ran, result⟩ := ih _ next (fun i state low high => turn i state low (by omega)) (by omega) kept (by omega)
    exact ⟨final, by rw [forDown_next (by omega), stepped]; exact ran, result⟩

/-- An invariant of the state alone needs no order of the bounds. -/
theorem forUp_kept (lo hi : Int) (body : Int → σ → Option σ) (state : σ) (inv : σ → Prop)
    (turn : ∀ i state, lo ≤ i → i < hi → inv state → ∃ next, body i state = some next ∧ inv next)
    (initial : inv state) : ∃ final, forUp lo hi body state = some final ∧ inv final := by
  by_cases ordered : lo ≤ hi
  · exact forUp_invariant lo hi body state (fun _ => inv) turn ordered initial
  · exact ⟨state, forUp_done (by omega) state, initial⟩

/-- What every turn keeps that returns holds of every result. -/
theorem forUp_result {lo hi : Int} {body : Int → σ → Option σ} {state final : σ} (inv : Int → σ → Prop)
    (turn : ∀ i state next, lo ≤ i → i < hi → inv i state → body i state = some next → inv (i + 1) next)
    (initial : inv lo state) (ran : forUp lo hi body state = some final) : inv (max lo hi) final := by
  generalize count : (hi - lo).toNat = turns
  induction turns generalizing lo state with
  | zero =>
    rw [forUp_done (by omega)] at ran
    rw [show max lo hi = lo by omega, ← Option.some.inj ran]
    exact initial
  | succ turns ih =>
    rw [forUp_next (by omega)] at ran
    obtain ⟨next, stepped, rest⟩ := Option.bind_eq_some_iff.mp ran
    rw [show max lo hi = max (lo + 1) hi by omega]
    apply ih (fun i state next low high => turn i state next (by omega) high) _ rest (by omega)
    exact turn lo state next (Int.le_refl lo) (by omega) initial stepped

theorem forDown_result {hi lo : Int} {body : Int → σ → Option σ} {state final : σ} (inv : Int → σ → Prop)
    (turn : ∀ i state next, lo < i → i ≤ hi → inv i state → body i state = some next → inv (i - 1) next)
    (initial : inv hi state) (ran : forDown hi lo body state = some final) : inv (min lo hi) final := by
  generalize count : (hi - lo).toNat = turns
  induction turns generalizing hi state with
  | zero =>
    rw [forDown_done (by omega)] at ran
    rw [show min lo hi = hi by omega, ← Option.some.inj ran]
    exact initial
  | succ turns ih =>
    rw [forDown_next (by omega)] at ran
    obtain ⟨next, stepped, rest⟩ := Option.bind_eq_some_iff.mp ran
    rw [show min lo hi = min lo (hi - 1) by omega]
    apply ih (fun i state next low high => turn i state next low (by omega)) _ rest (by omega)
    exact turn hi state next (by omega) (Int.le_refl hi) initial stepped

/-- Move the cells from `lo` below `hi` up by one, the last one first. -/
def shiftUp (size hi lo : Int) (cells : Int → α) : Option (Int → α) :=
  forDown hi lo (fun i cells => do
    let value ← readCell size cells (i - 1)
    writeCell size cells i value) cells

/-- Move the cells behind `lo` up to `hi` down by one, the first one first. -/
def shiftDown (size lo hi : Int) (cells : Int → α) : Option (Int → α) :=
  forUp lo hi (fun i cells => do
    let value ← readCell size cells (i + 1)
    writeCell size cells i value) cells

/-- Copy the first cells of an array to another one. -/
def copyCells (size count : Int) (src dst : Int → α) : Option (Int → α) :=
  forUp 0 count (fun i dst => do
    let value ← readCell size src i
    writeCell size dst i value) dst

theorem shiftUp_spec (size lo hi : Int) (cells : Int → α) (low : 0 ≤ lo) (ordered : lo ≤ hi) (inside : hi < size) :
    ∃ cells', shiftUp size hi lo cells = some cells' ∧ (∀ k, lo < k → k ≤ hi → cells' k = cells (k - 1)) ∧
      ∀ k, k ≤ lo → cells' k = cells k := by
  unfold shiftUp
  refine forDown_invariant hi lo _ cells
    (fun i cells' => (∀ k, i < k → k ≤ hi → cells' k = cells (k - 1)) ∧ ∀ k, k ≤ i → cells' k = cells k)
    ?_ ordered ⟨fun k above below => absurd above (by omega), fun _ _ => rfl⟩
  rintro i cells' above below ⟨moved, kept⟩
  refine ⟨Function.update cells' i (cells' (i - 1)), ?_, ?_, ?_⟩
  · rw [readCell_eq cells' (by omega)]
    exact writeCell_eq cells' (by omega) _
  · intro k high top
    by_cases here : k = i
    · rw [here, Function.update_self, kept _ (by omega)]
    · rw [Function.update_of_ne here, moved k (by omega) top]
  · intro k high
    rw [Function.update_of_ne (by omega), kept k (by omega)]

theorem shiftDown_spec (size lo hi : Int) (cells : Int → α) (low : 0 ≤ lo) (ordered : lo ≤ hi) (inside : hi < size) :
    ∃ cells', shiftDown size lo hi cells = some cells' ∧ (∀ k, lo ≤ k → k < hi → cells' k = cells (k + 1)) ∧
      ∀ k, k < lo → cells' k = cells k := by
  unfold shiftDown
  obtain ⟨cells', ran, moved, _, kept⟩ := forUp_invariant lo hi
    (fun i cells => (readCell size cells (i + 1)).bind (writeCell size cells i)) cells
    (fun i cells' => (∀ k, lo ≤ k → k < i → cells' k = cells (k + 1)) ∧ (∀ k, i ≤ k → cells' k = cells k) ∧
      ∀ k, k < lo → cells' k = cells k)
    (by
      rintro i cells' above below ⟨moved, ahead, kept⟩
      refine ⟨Function.update cells' i (cells' (i + 1)), ?_, ?_, ?_, ?_⟩
      · rw [readCell_eq cells' (by omega)]
        exact writeCell_eq cells' (by omega) _
      · intro k high top
        by_cases here : k = i
        · rw [here, Function.update_self, ahead _ (by omega)]
        · rw [Function.update_of_ne here, moved k high (by omega)]
      · intro k high
        rw [Function.update_of_ne (by omega), ahead k (by omega)]
      · intro k high
        rw [Function.update_of_ne (by omega), kept k high])
    ordered ⟨fun k above below => absurd above (by omega), fun _ _ => rfl, fun _ _ => rfl⟩
  exact ⟨cells', ran, moved, kept⟩

theorem copyCells_spec (size count : Int) (src dst : Int → α) (positive : 0 ≤ count) (inside : count ≤ size) :
    ∃ dst', copyCells size count src dst = some dst' ∧ ∀ k, 0 ≤ k → k < count → dst' k = src k := by
  unfold copyCells
  refine forUp_invariant 0 count _ dst (fun i dst' => ∀ k, 0 ≤ k → k < i → dst' k = src k)
    ?_ positive fun k above below => absurd above (by omega)
  intro i dst' above below copied
  refine ⟨Function.update dst' i (src i), ?_, ?_⟩
  · rw [readCell_eq src (by omega)]
    exact writeCell_eq dst' (by omega) _
  · intro k high top
    by_cases here : k = i
    · rw [here, Function.update_self]
    · rw [Function.update_of_ne here, copied k high (by omega)]

/-- The cells from `start` on hold the values of a list, one after the other. -/
def Spells (cells : Int → α) : (start : Int) → List α → Prop
  | _, [] => True
  | start, value :: rest => cells start = value ∧ Spells cells (start + 1) rest

namespace Spells

theorem append_iff {cells : Int → α} {first second : List α} :
    Spells cells start (first ++ second) ↔ Spells cells start first ∧ Spells cells (start + first.length) second := by
  induction first generalizing start with
  | nil => simp [Spells]
  | cons value rest ih =>
    have shift : start + 1 + (rest.length : Int) = start + (value :: rest).length := by
      simp only [List.length_cons]
      omega
    rw [List.cons_append, Spells, Spells, ih, shift, and_assoc]

theorem move {cells cells' : Int → α} {values : List α} (spells : Spells cells start values)
    (copied : ∀ k : Int, 0 ≤ k → k < values.length → cells' (start' + k) = cells (start + k)) :
    Spells cells' start' values := by
  induction values generalizing start start' with
  | nil => trivial
  | cons value rest ih =>
    have head := copied 0 (by omega) (by simp only [List.length_cons]; omega)
    rw [Int.add_zero, Int.add_zero] at head
    refine ⟨head.trans spells.1, ih spells.2 fun k low high => ?_⟩
    have tail := copied (k + 1) (by omega) (by simp only [List.length_cons]; omega)
    rw [show start' + (k + 1) = start' + 1 + k by omega, show start + (k + 1) = start + 1 + k by omega] at tail
    exact tail

theorem congr {cells cells' : Int → α} {values : List α} (spells : Spells cells start values)
    (same : ∀ i, start ≤ i → i < start + values.length → cells' i = cells i) : Spells cells' start values :=
  spells.move fun k low high => same (start + k) (by omega) (by omega)

theorem total (cells : Int → α) (start : Int) (count : Nat) :
    ∃ values : List α, values.length = count ∧ Spells cells start values := by
  induction count generalizing start with
  | zero => exact ⟨[], rfl, trivial⟩
  | succ count ih =>
    obtain ⟨rest, length, spells⟩ := ih (start + 1)
    exact ⟨cells start :: rest, by rw [List.length_cons, length], rfl, spells⟩

theorem get {cells : Int → α} {values : List α} (spells : Spells cells start values) {k : Nat}
    (there : k < values.length) : cells (start + k) = values[k] := by
  induction values generalizing start k with
  | nil => simp at there
  | cons value rest ih =>
    cases k with
    | zero =>
      rw [Int.natCast_zero, Int.add_zero]
      exact spells.1
    | succ k =>
      have tail := ih spells.2 (Nat.lt_of_succ_lt_succ there)
      rw [show start + 1 + (k : Int) = start + ((k + 1 : Nat) : Int) by omega] at tail
      exact tail

/-- Two runs that agree cell by cell spell one list. -/
theorem unique {cells cells' : Int → α} {values values' : List α} (spells : Spells cells start values)
    (spells' : Spells cells' start' values') (size : values.length = values'.length)
    (same : ∀ k : Int, 0 ≤ k → k < values'.length → cells (start + k) = cells' (start' + k)) : values = values' := by
  apply List.ext_getElem size
  intro k there there'
  calc values[k] = cells (start + k) := (spells.get there).symm
    _ = cells' (start' + k) := same k (by omega) (by omega)
    _ = values'[k] := spells'.get there'

theorem ofRange (cells : Int → α) (start count : Nat) :
    Spells cells start ((List.range' start count).map fun k : Nat => cells k) := by
  induction count generalizing start with
  | zero => trivial
  | succ count ih =>
    rw [List.range'_succ, List.map_cons]
    exact ⟨rfl, ih (start + 1)⟩

theorem map_range {cells : Int → α} {values : List α} (spells : Spells cells 0 values) :
    (List.range values.length).map (fun k : Nat => cells k) = values := by
  refine List.ext_getElem (by simp) fun k _ there => ?_
  have value := spells.get there
  rw [Int.zero_add] at value
  rw [List.getElem_map, List.getElem_range, value]

end Spells

end LivlyOS.Lib
