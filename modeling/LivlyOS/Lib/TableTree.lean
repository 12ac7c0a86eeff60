import Mathlib.Data.List.Induction
import Mathlib.Tactic.Common

/-! Tables whose entries refer to tables, as a partial function from a table and an index:
where a path of indices leads from a root, and what new or changed entries do to that. -/

namespace LivlyOS.Lib.TableTree

variable {Table : Type u} {Index : Type v}

/-- The table at the end of a path. -/
def follow (child : Table → Index → Option Table) (root : Table) : (path : List Index) → Option Table
  | [] => some root
  | index :: rest => (child root index).bind fun next => follow child next rest

/-- No table is reached along two paths of at most `depth` indices. -/
def Separate (child : Table → Index → Option Table) (root : Table) (depth : Nat) : Prop :=
  ∀ path other table, path.length ≤ depth → other.length ≤ depth → follow child root path = some table →
    follow child root other = some table → path = other

/-- The table at the end of `path`, if there is one, is at the end of no other path of at most
`depth` indices. -/
def Unshared (child : Table → Index → Option Table) (root : Table) (depth : Nat) (path : List Index) : Prop :=
  ∀ other table, other.length ≤ depth → follow child root path = some table → follow child root other = some table →
    other = path

variable {child child' : Table → Index → Option Table} {root table : Table}

theorem Separate.unshared (separate : Separate child root depth) (short : path.length ≤ depth) :
    Unshared child root depth path := by
  intro other table short' reached reached'
  exact separate other path table short' short reached' reached

theorem follow_snoc (path : List Index) (index : Index) :
    follow child root (path ++ [index]) = (follow child root path).bind fun table => child table index := by
  induction path generalizing root with
  | nil =>
    rw [List.nil_append, follow, follow, Option.bind_some]
    exact Option.bind_fun_some _
  | cons head rest ih =>
    rw [List.cons_append, follow, follow, Option.bind_assoc]
    exact congrArg _ (funext fun next => ih)

theorem follow_append (path rest : List Index) :
    follow child root (path ++ rest) = (follow child root path).bind fun table => follow child table rest := by
  induction path generalizing root with
  | nil => rfl
  | cons head path ih =>
    rw [List.cons_append, follow, follow, Option.bind_assoc]
    exact congrArg _ (funext fun next => ih)

theorem follow_congr_at {path : List Index}
    (same : ∀ front index rest table, path = front ++ index :: rest → follow child root front = some table →
      child' table index = child table index) : follow child' root path = follow child root path := by
  induction path using List.reverseRecOn with
  | nil => rfl
  | append_singleton front index ih =>
    have upTo := ih fun front' index' rest table shape =>
      same front' index' (rest ++ [index]) table (by rw [shape, List.append_assoc, List.cons_append])
    rw [follow_snoc, follow_snoc, upTo]
    cases reached : follow child root front with
    | none => rfl
    | some table => rw [Option.bind_some, Option.bind_some, same front index [] table rfl reached]

theorem follow_congr {path : List Index}
    (same : ∀ path table, path.length < depth → follow child root path = some table → child' table = child table)
    (short : path.length ≤ depth) : follow child' root path = follow child root path := by
  induction path using List.reverseRecOn with
  | nil => rfl
  | append_singleton front index ih =>
    rw [List.length_append, List.length_singleton] at short
    rw [follow_snoc, follow_snoc, ih (by omega)]
    cases reached : follow child root front with
    | none => rfl
    | some table => rw [Option.bind_some, Option.bind_some, same front table (by omega) reached]

theorem Separate.congr (separate : Separate child root depth)
    (same : ∀ path table, path.length < depth → follow child root path = some table → child' table = child table) :
    Separate child' root depth := by
  intro path other table short short' first second
  rw [follow_congr same short] at first
  rw [follow_congr same short'] at second
  exact separate path other table short short' first second

/-- `child'` is `child` with one more reference, to a table that is not in the tree yet and has
no references itself, as far as the depth goes. -/
structure Linked (child child' : Table → Index → Option Table) (root : Table) (depth : Nat) (path : List Index)
    (table : Table) (index : Index) (fresh : Table) : Prop where
  reached : follow child root path = some table
  short : path.length < depth
  missing : child table index = none
  set : child' table index = some fresh
  others : ∀ other i, (other = table → i ≠ index) → child' other i = child other i
  new : ∀ path, path.length ≤ depth → follow child root path ≠ some fresh
  empty : path.length + 1 < depth → ∀ i, child fresh i = none

namespace Linked
variable {path : List Index} {index : Index} {fresh : Table}

theorem missing_path (linked : Linked child child' root depth path table index fresh) :
    follow child root (path ++ [index]) = none := by
  rw [follow_snoc, linked.reached, Option.bind_some, linked.missing]

theorem fresh_same (linked : Linked child child' root depth path table index fresh) (i : Index) :
    child' fresh i = child fresh i := by
  have apart : fresh ≠ table := by
    rintro rfl
    exact linked.new path (Nat.le_of_lt linked.short) linked.reached
  exact linked.others fresh i fun same => absurd same apart

theorem fresh_empty (linked : Linked child child' root depth path table index fresh) (inner : path.length + 1 < depth)
    (i : Index) : child' fresh i = none := by
  rw [linked.fresh_same, linked.empty inner]

/-- The new table is reached along one path, and all others lead where they led. -/
theorem follow_eq (linked : Linked child child' root depth path table index fresh)
    (alone : Unshared child root depth path) [DecidableEq Index] {other : List Index} (short : other.length ≤ depth) :
    follow child' root other = if other = path ++ [index] then some fresh else follow child root other := by
  induction other using List.reverseRecOn with
  | nil => rw [if_neg (by simp)]; rfl
  | append_singleton front last ih =>
    rw [List.length_append, List.length_singleton] at short
    rw [follow_snoc, ih (by omega)]
    by_cases through : front = path ++ [index]
    · -- the path goes on behind the new table, where there is nothing
      have longer : ¬front ++ [last] = path ++ [index] := by
        intro same
        have lengths := congrArg List.length (List.append_inj_left' same rfl)
        rw [through] at lengths
        simp at lengths
      have inner : path.length + 1 < depth := by
        rw [through, List.length_append, List.length_singleton] at short
        exact short
      rw [if_pos through, if_neg longer, Option.bind_some, linked.fresh_empty inner, follow_snoc, through,
        linked.missing_path]
      rfl
    · rw [if_neg through, follow_snoc]
      cases reached : follow child root front with
      | none =>
        have elsewhere : ¬front ++ [last] = path ++ [index] := by
          intro same
          rw [List.append_inj_left' same rfl, linked.reached] at reached
          exact Option.some_ne_none _ reached
        rw [if_neg elsewhere]
        rfl
      | some at_ =>
        rw [Option.bind_some, Option.bind_some]
        by_cases here : front ++ [last] = path ++ [index]
        · obtain ⟨rfl, tail⟩ := List.append_inj' here rfl
          obtain rfl := List.singleton_inj.mp tail
          obtain rfl := Option.some.inj (reached.symm.trans linked.reached)
          rw [if_pos rfl, linked.set]
        · rw [if_neg here]
          refine linked.others at_ last fun same index' => here ?_
          have front' := alone front table (by omega) linked.reached (same ▸ reached)
          rw [front', index']

theorem follow_of_some (linked : Linked child child' root depth path table index fresh)
    (alone : Unshared child root depth path) [DecidableEq Index] {other : List Index} (short : other.length ≤ depth)
    (reached : follow child root other = some target) : follow child' root other = some target := by
  rw [linked.follow_eq alone short, if_neg, reached]
  rintro rfl
  exact Option.some_ne_none _ (reached.symm.trans linked.missing_path)

theorem follow_new (linked : Linked child child' root depth path table index fresh)
    (alone : Unshared child root depth path) [DecidableEq Index] :
    follow child' root (path ++ [index]) = some fresh := by
  have short : (path ++ [index]).length ≤ depth := by
    rw [List.length_append]
    exact linked.short
  rw [linked.follow_eq alone short, if_pos rfl]

/-- A link shares no table that was not shared, and its own neither. -/
theorem unshared (linked : Linked child child' root depth path table index fresh)
    (alone : Unshared child root depth path) [DecidableEq Index] {one : List Index} (short : one.length ≤ depth)
    (kept : Unshared child root depth one) : Unshared child' root depth one := by
  intro two target short' first second
  rw [linked.follow_eq alone short] at first
  rw [linked.follow_eq alone short'] at second
  split at first
  · split at second
    · subst_vars
      rfl
    · obtain rfl := Option.some.inj first
      exact absurd second (linked.new two short')
  · split at second
    · obtain rfl := Option.some.inj second
      exact absurd first (linked.new one short)
    · exact kept two target short' first second

theorem separate (linked : Linked child child' root depth path table index fresh)
    (separate : Separate child root depth) [DecidableEq Index] : Separate child' root depth := by
  have alone := separate.unshared (Nat.le_of_lt linked.short)
  intro one two target short short' first second
  exact linked.unshared alone short' (separate.unshared short') one target short second first

end Linked

end LivlyOS.Lib.TableTree
