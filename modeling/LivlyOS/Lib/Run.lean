import Mathlib.Data.Nat.Basic

namespace LivlyOS.Lib

inductive Run (step : σ → α → σ → Prop) (ok : σ → α → Prop) : σ → List α → σ → Prop where
  | done : Run step ok state [] state
  | next (meets : ok state action) (first : step state action mid)
      (rest : Run step ok mid actions state') : Run step ok state (action :: actions) state'

namespace Run

/-- What every allowed step keeps holds in every state a run reaches. -/
theorem invariant {step : σ → α → σ → Prop} {ok : σ → α → Prop} (inv : σ → Prop)
    (kept : ∀ state action state', inv state → ok state action → step state action state' → inv state')
    (run : Run step ok state actions state') (initial : inv state) : inv state' := by
  induction run with
  | done => exact initial
  | next meets first rest ih => exact ih (kept _ _ _ initial meets first)

theorem append (first : Run step ok state actions mid) (second : Run step ok mid more state') :
    Run step ok state (actions ++ more) state' := by
  induction first with
  | done => exact second
  | next meets step rest ih => exact .next meets step (ih second)

/-- A run under a condition is one under any weaker condition. -/
theorem imp (run : Run step ok state actions state') (weaker : ∀ state action, ok state action → ok' state action) :
    Run step ok' state actions state' := by
  induction run with
  | done => exact .done
  | next meets first rest ih => exact .next (weaker _ _ meets) first ih

end Run

end LivlyOS.Lib
