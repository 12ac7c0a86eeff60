import Mathlib.Data.List.Nodup

/-! Terminated chains of a successor function. A chain lists every node met
from its first node up to the node without a successor. -/

namespace LivlyOS.Lib

inductive Chain (next : α → Option α) : α → List α → Prop where
  | last (stop : next node = none) : Chain next node [node]
  | link (step : next node = some successor) (rest : Chain next successor nodes) :
      Chain next node (node :: nodes)

namespace Chain

theorem head? (chain : Chain next node nodes) : nodes.head? = some node := by
  cases chain <;> rfl

theorem cons (chain : Chain next node nodes) : ∃ rest, nodes = node :: rest := by
  cases chain with
  | last _ => exact ⟨[], rfl⟩
  | link _ _ => exact ⟨_, rfl⟩

theorem first_mem (chain : Chain next node nodes) : node ∈ nodes := by
  cases chain <;> simp

theorem length_pos (chain : Chain next node nodes) : 0 < nodes.length := by
  cases chain <;> simp

/-- The successor function determines the chain of a node. -/
theorem unique (first : Chain next node left) (second : Chain next node right) : left = right := by
  induction first generalizing right with
  | last stop =>
    cases second with
    | last _ => rfl
    | link step _ => simp [stop] at step
  | link step rest ih =>
    cases second with
    | last stop => simp [stop] at step
    | link other tail =>
      have same := Option.some.inj (step.symm.trans other)
      subst same
      rw [ih tail]

/-- A chain only depends on the successors of its own nodes. -/
theorem congr (chain : Chain next node nodes) (same : ∀ member ∈ nodes, next' member = next member) :
    Chain next' node nodes := by
  induction chain with
  | last stop => exact .last ((same _ (by simp)).trans stop)
  | link step rest ih =>
    exact .link ((same _ (by simp)).trans step)
      (ih (fun member present => same member (by simp [present])))

/-- Every node of a chain starts a chain of its own, a suffix of the whole. -/
theorem split (chain : Chain next node nodes) (member : middle ∈ nodes) :
    ∃ before after, nodes = before ++ after ∧ Chain next middle after := by
  induction chain with
  | last stop =>
    have same := List.mem_singleton.mp member
    subst same
    exact ⟨[], _, rfl, .last stop⟩
  | @link node successor nodes step rest ih =>
    rcases List.mem_cons.mp member with same | present
    · subst same
      exact ⟨[], _, rfl, .link step rest⟩
    · obtain ⟨before, after, whole, tail⟩ := ih present
      exact ⟨node :: before, after, by rw [whole, List.cons_append], tail⟩

theorem nodup (chain : Chain next node nodes) : nodes.Nodup := by
  induction chain with
  | last stop => simp
  | @link node successor nodes step rest ih =>
    refine List.nodup_cons.mpr ⟨?_, ih⟩
    intro again
    obtain ⟨before, after, whole, tail⟩ := rest.split again
    have cycle := (link step rest).unique tail
    have longer : (node :: nodes).length = after.length := by rw [cycle]
    rw [whole, List.length_cons, List.length_append] at longer
    omega

/-- Cut a chain in front of `middle` and continue it with another chain. -/
theorem relink (chain : Chain next node (before ++ middle :: after))
    (same : ∀ member ∈ before, next' member = next member)
    (continued : Chain next' middle tail) : Chain next' node (before ++ tail) := by
  induction before generalizing node with
  | nil =>
    have first := chain.head?
    simp only [List.nil_append, List.head?_cons, Option.some.injEq] at first
    subst first
    exact continued
  | cons head before ih =>
    cases nodes : before ++ middle :: after with
    | nil => simp at nodes
    | cons first rest =>
      rw [List.cons_append, nodes] at chain
      cases chain with
      | link step rest =>
        refine .link ((same _ (by simp)).trans step) (ih ?_ ?_)
        · rw [nodes]; exact rest
        · exact fun member present => same member (by simp [present])

end Chain

end LivlyOS.Lib
