import Mathlib.Data.List.Nodup
import LivlyOS.Lib.Loop

namespace LivlyOS.Lib

/-- The nodes met from `node` on, up to the first visit of `stop` behind them. -/
inductive Path (next : α → α) : α → List α → α → Prop where
  | nil : Path next stop [] stop
  | cons (rest : Path next (next node) nodes stop) : Path next node (node :: nodes) stop

namespace Path

variable {next next' : α → α}

theorem append (first : Path next node before middle) (second : Path next middle after stop) :
    Path next node (before ++ after) stop := by
  induction first with
  | nil => exact second
  | cons rest ih => exact .cons (ih second)

theorem split (path : Path next node (before ++ after) stop) :
    ∃ middle, Path next node before middle ∧ Path next middle after stop := by
  induction before generalizing node with
  | nil => exact ⟨node, .nil, path⟩
  | cons head before ih =>
    cases path with
    | cons rest =>
      obtain ⟨middle, left, right⟩ := ih rest
      exact ⟨middle, .cons left, right⟩

/-- A path only depends on the successors of its own nodes. -/
theorem congr (path : Path next node nodes stop) (same : ∀ member ∈ nodes, next' member = next member) :
    Path next' node nodes stop := by
  induction path with
  | nil => exact .nil
  | @cons node nodes stop rest ih =>
    have later := ih fun member present => same member (List.mem_cons_of_mem _ present)
    refine .cons ?_
    rw [same _ List.mem_cons_self]
    exact later

theorem head (path : Path next node (first :: rest) stop) : node = first := by
  cases path
  rfl

theorem single (path : Path next node [node] stop) : next node = stop := by
  cases path with
  | cons rest =>
    generalize next node = follower at rest
    cases rest
    rfl

/-- A path back to its start can be read from behind each of its nodes. -/
theorem turned (path : Path next start (before ++ node :: after) start) :
    Path next (next node) (after ++ before ++ [node]) (next node) := by
  obtain ⟨middle, left, right⟩ := path.split
  obtain rfl := right.head
  cases right with
  | cons rest => exact (rest.append left).append (.cons .nil)

theorem step (path : Path next node (node :: follower :: rest) stop) :
    next node = follower ∧ Path next follower (follower :: rest) stop := by
  cases path with
  | cons path =>
    have link := path.head
    exact ⟨link, link ▸ path⟩

end Path

/-- The nodes of a circular list, from `head` on. -/
structure Ring (next : α → α) (head : α) (nodes : List α) : Prop where
  path : Path next head nodes head
  nonempty : nodes ≠ []
  nodup : nodes.Nodup

namespace Ring

variable {next next' : α → α}

theorem cons (ring : Ring next head nodes) : ∃ rest, nodes = head :: rest := by
  obtain ⟨path, nonempty, _⟩ := ring
  cases path with
  | nil => exact absurd rfl nonempty
  | cons rest => exact ⟨_, rfl⟩

theorem head_mem (ring : Ring next head nodes) : head ∈ nodes := by
  obtain ⟨rest, rfl⟩ := ring.cons
  exact List.mem_cons_self

theorem congr (ring : Ring next head nodes) (same : ∀ member ∈ nodes, next' member = next member) :
    Ring next' head nodes :=
  ⟨ring.path.congr same, ring.nonempty, ring.nodup⟩

theorem singleton (self : next head = head) : Ring next head [head] :=
  ⟨.cons (self.symm ▸ .nil), List.cons_ne_nil _ _, List.nodup_singleton _⟩

/-- From behind a node the ring leads through the others back to the node itself. -/
theorem turned (ring : Ring next head (before ++ node :: after)) :
    Path next (next node) (after ++ before ++ [node]) (next node) :=
  ring.path.turned

theorem next_mem (ring : Ring next head nodes) (member : node ∈ nodes) : next node ∈ nodes := by
  obtain ⟨before, after, rfl⟩ := List.append_of_mem member
  have path := ring.turned
  have present : next node ∈ after ++ before ++ [node] := by
    generalize shape : after ++ before ++ [node] = others at path ⊢
    generalize next node = follower at path ⊢
    cases path with
    | nil => exact absurd shape (by simp)
    | cons rest => exact List.mem_cons_self
  simp only [List.mem_append, List.mem_cons, List.not_mem_nil, or_false] at present ⊢
  tauto

theorem next_middle (ring : Ring next head (before ++ prev :: node :: after)) : next prev = node := by
  obtain ⟨middle, _, right⟩ := ring.path.split
  obtain rfl := right.head
  exact right.step.1

theorem next_last (ring : Ring next head (before ++ [final])) : next final = head := by
  obtain ⟨middle, _, right⟩ := ring.path.split
  obtain rfl := right.head
  exact right.single

theorem ne_head (ring : Ring next head (before ++ prev :: behind)) (member : node ∈ behind) : node ≠ head := by
  rintro rfl
  have nodup := ring.nodup
  obtain ⟨rest, shape⟩ := ring.cons
  rw [shape] at nodup
  apply (List.nodup_cons.mp nodup).1
  cases before with
  | nil =>
    rw [List.nil_append] at shape
    exact (List.cons.inj shape).2 ▸ member
  | cons first before =>
    rw [List.cons_append] at shape
    rw [← (List.cons.inj shape).2]
    exact List.mem_append_right _ (List.mem_cons_of_mem _ member)

theorem insert (ring : Ring next head (before ++ [final])) (fresh : node ∉ before ++ [final])
    (same : ∀ member ∈ before, next' member = next member) (link : next' final = node)
    (close : next' node = head) : Ring next' head (before ++ [final] ++ [node]) := by
  obtain ⟨middle, left, right⟩ := ring.path.split
  obtain rfl := right.head
  have start : Path next' head before middle := left.congr same
  have finish : Path next' middle [middle] node := .cons (link ▸ .nil)
  refine ⟨(start.append finish).append (.cons (close ▸ .nil)), by simp, ?_⟩
  refine List.nodup_append.mpr ⟨ring.nodup, List.nodup_singleton _, fun left present right only => ?_⟩
  rw [List.mem_singleton.mp only]
  exact fun equal => fresh (equal ▸ present)

theorem remove (ring : Ring next head (before ++ prev :: node :: after))
    (same : ∀ member ∈ before ++ after, next' member = next member) (link : next' prev = next node) :
    Ring next' head (before ++ prev :: after) := by
  obtain ⟨middle, left, right⟩ := ring.path.split
  obtain rfl := right.head
  have nodup := ring.nodup
  have shorter : (before ++ middle :: after).Sublist (before ++ middle :: node :: after) := by
    simp
  refine ⟨(left.congr fun member present => same member (List.mem_append_left _ present)).append ?_,
    by simp, nodup.sublist shorter⟩
  cases right with
  | cons rest =>
    obtain rfl := rest.head
    cases rest with
    | cons rest =>
      refine .cons ?_
      rw [link]
      exact rest.congr fun member present => same member (List.mem_append_right _ present)

end Ring

end LivlyOS.Lib
