import LivlyOS.Lib.Run
import Mathlib.Data.Prod.Basic

/-! A component that answers calls, against a specification that says what each call is to
answer and what it leaves behind. -/

namespace LivlyOS.Lib

/-- The answers of a component, from an abstract state. -/
structure Spec (τ α β : Type) where
  answer : τ → α → β
  next : τ → α → τ

namespace Spec

/-- The abstract state after some calls. -/
def after (spec : Spec τ α β) (start : τ) (calls : List α) : τ := calls.foldl spec.next start

/-- The answers to them. -/
def answers (spec : Spec τ α β) : τ → List α → List β
  | _, [] => []
  | abstract, call :: calls => spec.answer abstract call :: answers spec (spec.next abstract call) calls

theorem after_concat (spec : Spec τ α β) (start : τ) (calls : List α) (call : α) :
    spec.after start (calls ++ [call]) = spec.next (spec.after start calls) call := by
  rw [after, List.foldl_append, after]
  rfl

theorem answers_concat (spec : Spec τ α β) (start : τ) (calls : List α) (call : α) :
    spec.answers start (calls ++ [call]) = spec.answers start calls ++ [spec.answer (spec.after start calls) call] := by
  induction calls generalizing start with
  | nil => rfl
  | cons first rest ih =>
    rw [List.cons_append, answers, answers, ih, List.cons_append]
    rfl

/-- One answered call of the component, with the specification beside it. -/
def Step (spec : Spec τ α β) (runs : σ → α → β → σ → Prop) (before : σ × τ) (call : α × β) (behind : σ × τ) : Prop :=
  runs before.1 call.1 call.2 behind.1 ∧ behind.2 = spec.next before.2 call.1

/-- Every allowed call answers as specified and keeps the relation between both states. -/
def Meets (spec : Spec τ α β) (runs : σ → α → β → σ → Prop) (ok : σ × τ → α → Prop) (holds : σ → τ → Prop) : Prop :=
  ∀ state abstract call answer state', holds state abstract → ok (state, abstract) call →
    runs state call answer state' → answer = spec.answer abstract call ∧ holds state' (spec.next abstract call)

variable {spec : Spec τ α β} {runs : σ → α → β → σ → Prop} {ok : σ × τ → α → Prop} {holds : σ → τ → Prop}

theorem call {answer : β} (allowed : ok (state, abstract) request) (ran : runs state request answer state')
    (rest : Run (spec.Step runs) (fun state call => ok state call.1) (state', spec.next abstract request) trace stop) :
    Run (spec.Step runs) (fun state call => ok state call.1) (state, abstract) ((request, answer) :: trace) stop :=
  .next allowed ⟨ran, rfl⟩ rest

/-- What holds of every call holds of every run: all its answers are those of the
specification, and the relation holds at its end. -/
theorem Meets.run (meets : spec.Meets runs ok holds)
    (run : Run (spec.Step runs) (fun state call => ok state call.1) start trace stop) (begun : holds start.1 start.2) :
    trace.map Prod.snd = spec.answers start.2 (trace.map Prod.fst) ∧
      stop.2 = spec.after start.2 (trace.map Prod.fst) ∧ holds stop.1 stop.2 := by
  induction run with
  | done => exact ⟨rfl, rfl, begun⟩
  | next allowed first rest ih =>
    obtain ⟨ran, moved⟩ := first
    obtain ⟨answered, kept⟩ := meets _ _ _ _ _ begun allowed ran
    rw [← moved] at kept
    obtain ⟨answers, reached, still⟩ := ih kept
    rw [moved] at answers reached
    refine ⟨?_, reached, still⟩
    rw [List.map_cons, List.map_cons, answered, answers, Spec.answers]

end Spec

end LivlyOS.Lib
