import Mathlib.Data.Nat.Basic
import Mathlib.Logic.Function.Iterate

/-! While loops as bodies that either continue with a new state or leave with a
result. Fuel bounds the number of turns; running out of it returns nothing. -/

namespace LivlyOS.Lib

inductive Turn (σ ρ : Type) where
  | again (state : σ)
  | leave (result : ρ)

/-- Run a loop body for at most `fuel` turns. -/
def loop (body : σ → Turn σ ρ) : (fuel : Nat) → σ → Option ρ
  | 0, _ => none
  | fuel + 1, state =>
    match body state with
    | .again next => loop body fuel next
    | .leave result => some result

theorem loop_again {body : σ → Turn σ ρ} (turn : body state = .again next) (fuel : Nat) :
    loop body (fuel + 1) state = loop body fuel next := by
  simp [loop, turn]

theorem loop_leave {body : σ → Turn σ ρ} (turn : body state = .leave result) (fuel : Nat) :
    loop body (fuel + 1) state = some result := by
  simp [loop, turn]

theorem loop_mono {body : σ → Turn σ ρ} (finished : loop body fuel state = some result)
    (enough : fuel ≤ more) : loop body more state = some result := by
  induction fuel generalizing state more with
  | zero => simp [loop] at finished
  | succ fuel ih =>
    obtain ⟨extra, rfl⟩ : ∃ extra, more = extra + 1 := ⟨more - 1, by omega⟩
    cases turn : body state with
    | again next =>
      rw [loop_again turn] at finished ⊢
      exact ih finished (by omega)
    | leave answer =>
      rw [loop_leave turn] at finished ⊢
      exact finished

/-- Two runs that finish agree, whatever their fuel. -/
theorem loop_deterministic {body : σ → Turn σ ρ} (first : loop body fuel state = some result)
    (second : loop body fuel' state = some result') : result = result' := by
  have longer := loop_mono first (Nat.le_max_left fuel fuel')
  have other := loop_mono second (Nat.le_max_right fuel fuel')
  exact Option.some.inj (longer.symm.trans other)

/-- Partial correctness: an invariant kept by every turn and strong enough at
the exit describes every result. -/
theorem loop_invariant {body : σ → Turn σ ρ} (inv : σ → Prop) (post : ρ → Prop)
    (again : ∀ state next, inv state → body state = .again next → inv next)
    (leave : ∀ state result, inv state → body state = .leave result → post result)
    (initial : inv state) (finished : loop body fuel state = some result) : post result := by
  induction fuel generalizing state with
  | zero => simp [loop] at finished
  | succ fuel ih =>
    cases turn : body state with
    | again next =>
      rw [loop_again turn] at finished
      exact ih (again state next initial turn) finished
    | leave answer =>
      rw [loop_leave turn] at finished
      cases finished
      exact leave state _ initial turn

/-- What a turn ends with: a state of the invariant or a result as wanted. -/
def Turn.Ends (inv : σ → Prop) (post : ρ → Prop) : Turn σ ρ → Prop
  | .again state => inv state
  | .leave result => post result

/-- Partial correctness from one case analysis of the turn. -/
theorem loop_ends {body : σ → Turn σ ρ} (inv : σ → Prop) (post : ρ → Prop)
    (turn : ∀ state, inv state → (body state).Ends inv post)
    (initial : inv state) (finished : loop body fuel state = some result) : post result := by
  refine loop_invariant inv post ?_ ?_ initial finished
  · intro state next before again
    have ends := turn state before
    rwa [again] at ends
  · intro state result before leave
    have ends := turn state before
    rwa [leave] at ends

/-- The same turn with another result. -/
def Turn.map (view : ρ → ρ') : Turn σ ρ → Turn σ ρ'
  | .again state => .again state
  | .leave result => .leave (view result)

/-- Two bodies that differ in the view of their results, in the states of an invariant. -/
theorem loop_map {body : σ → Turn σ ρ} {body' : σ → Turn σ ρ'} (view : ρ → ρ') (inv : σ → Prop)
    (again : ∀ state next, inv state → body state = .again next → inv next)
    (same : ∀ state, inv state → body' state = (body state).map view) (initial : inv state) (fuel : Nat) :
    loop body' fuel state = (loop body fuel state).map view := by
  induction fuel generalizing state with
  | zero => rfl
  | succ fuel ih =>
    have turn' := same state initial
    cases turn : body state with
    | again next =>
      rw [turn] at turn'
      rw [loop_again turn, loop_again turn']
      exact ih (again state next initial turn)
    | leave result =>
      rw [turn] at turn'
      rw [loop_leave turn, loop_leave turn']
      rfl

/-- A loop whose turns follow a function until a state stops it ends exactly
when iterating the function comes to such a state. -/
theorem loop_isSome_iff {body : σ → Turn σ ρ} (next : τ → τ) (stops : τ → Prop) (sim : σ → τ → Prop)
    (point : τ)
    (stop : ∀ state point, sim state point → stops point → ∃ result, body state = .leave result)
    (follow : ∀ state point, sim state point → ¬ stops point →
      ∃ state', body state = .again state' ∧ sim state' (next point))
    (start : sim state point) :
    (∃ fuel, (loop body fuel state).isSome = true) ↔ ∃ count, stops (next^[count] point) := by
  constructor
  · rintro ⟨fuel, finished⟩
    induction fuel generalizing state point with
    | zero => cases finished
    | succ fuel ih =>
      by_cases here : stops point
      · exact ⟨0, here⟩
      · obtain ⟨state', again, sim'⟩ := follow state point start here
        rw [loop_again again] at finished
        obtain ⟨count, later⟩ := ih _ sim' finished
        exact ⟨count + 1, later⟩
  · rintro ⟨count, stopped⟩
    induction count generalizing state point with
    | zero =>
      obtain ⟨result, leave⟩ := stop state point start stopped
      exact ⟨1, by rw [loop_leave leave]; rfl⟩
    | succ count ih =>
      by_cases here : stops point
      · obtain ⟨result, leave⟩ := stop state point start here
        exact ⟨1, by rw [loop_leave leave]; rfl⟩
      · obtain ⟨state', again, sim'⟩ := follow state point start here
        obtain ⟨fuel, finished⟩ := ih _ sim' stopped
        exact ⟨fuel + 1, by rw [loop_again again]; exact finished⟩

end LivlyOS.Lib
