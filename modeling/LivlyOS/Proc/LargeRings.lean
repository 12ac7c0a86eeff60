import LivlyOS.Proc.RoundRobin

/-! The search for the next process in rings of any size. `schedule` counts the ring in one byte
and skips no more dead processes than it counted. -/

namespace LivlyOS.Proc

open LivlyOS.Lib

/-- The ring from the process behind the current one to the current process itself. -/
def ringOrder (st : Kernel) (before after : List Nat) : List Nat := after ++ before ++ [st.current]

/-- The tick makes the first process of `order` that is no zombie current and running, with its
whole quantum. -/
def Dispatches (fuel : Nat) (frame : InterruptFrame) (st : Kernel) (order : List Nat) : Prop :=
  ∃ next st' frame', schedule fuel frame st = some ((st', frame'), some next) ∧
    order.find? (fun pcb => (st.pcbs pcb).state ≠ .zombie) = some next ∧ st'.current = next ∧ (st'.pcbs next).state = .running ∧
    (st'.pcbs next).ticksRemaining = getQuantum (st'.pcbs next).priority

/-- The dead processes in front of the first living one. -/
def zombiesAhead (st : Kernel) (order : List Nat) : Nat := (order.takeWhile fun pcb => (st.pcbs pcb).state = .zombie).length

section Rings

variable {st : Kernel} {before after : List Nat} {fuel : Nat}

theorem ringOrder_split {order : List Nat} (living : ∃ pcb ∈ order, (st.pcbs pcb).state ≠ .zombie) :
    ∃ dead next rest, order = dead ++ next :: rest ∧ (∀ pcb ∈ dead, (st.pcbs pcb).state = .zombie) ∧ (st.pcbs next).state ≠ .zombie ∧
      zombiesAhead st order = dead.length ∧ order.find? (fun pcb => (st.pcbs pcb).state ≠ .zombie) = some next := by
  obtain ⟨pcb, member, alive⟩ := living
  obtain ⟨next, found⟩ : ∃ next, order.find? (fun pcb => (st.pcbs pcb).state ≠ .zombie) = some next :=
    Option.isSome_iff_exists.mp (List.find?_isSome.mpr ⟨pcb, member, decide_eq_true alive⟩)
  obtain ⟨first, dead, rest, rfl, zombies⟩ := List.find?_eq_some_iff_append.mp found
  have zombies : ∀ pcb ∈ dead, (st.pcbs pcb).state = .zombie := fun pcb member => by simpa using zombies pcb member
  have alive : (st.pcbs next).state ≠ .zombie := of_decide_eq_true first
  refine ⟨dead, next, rest, rfl, zombies, alive, ?_, found⟩
  rw [zombiesAhead, List.takeWhile_append_of_pos fun pcb member => decide_eq_true (zombies pcb member),
    List.takeWhile_cons_of_neg (by simpa using alive), List.append_nil]

theorem skipZombies_short {node left : Nat} {dead rest : List Nat} (path : Path st.next node (dead ++ rest) stop)
    (zombies : ∀ pcb ∈ dead, (st.pcbs pcb).state = .zombie) (few : left < dead.length) : (st.pcbs (skipZombies st left node)).state = .zombie := by
  induction dead generalizing node left with
  | nil => exact absurd few (Nat.not_lt_zero _)
  | cons pcb dead ih =>
    obtain rfl := path.head
    have first := zombies node List.mem_cons_self
    cases left with
    | zero => exact first
    | succ left =>
      rw [skipZombies, if_pos first]
      cases path with
      | cons path =>
        exact ih path (fun pcb member => zombies pcb (List.mem_cons_of_mem _ member)) (Nat.lt_of_succ_lt_succ few)

/-- A tick at the end of the quantum, with the dead processes that are in the way: they are passed
if there are not more of them than the byte says. -/
theorem schedule_dead {dead rest : List Nat} (ring : Ring st.next st.head (before ++ st.current :: after))
    (present : st.head ≠ 0 ∧ st.current ≠ 0) (used : (st.pcbs st.current).ticksRemaining.toNat ≤ 1)
    (enough : (before ++ st.current :: after).length ≤ fuel) (shape : ringOrder st before after = dead ++ next :: rest)
    (zombies : ∀ pcb ∈ dead, (st.pcbs pcb).state = .zombie) (alive : (st.pcbs next).state ≠ .zombie) (frame : InterruptFrame) :
    (dead.length ≤ (before ++ st.current :: after).length % 256 →
      ∃ stopped, SameRing st stopped ∧ schedule fuel frame st = some (switchTo frame next stopped, some next)) ∧
    ((before ++ st.current :: after).length % 256 < dead.length →
      ∃ stopped, schedule fuel frame st = some ((stopped, frame), none)) := by
  obtain ⟨stopped, same, current, result⟩ := schedule_used present used fuel frame
  have ring' : Ring stopped.next stopped.head (before ++ st.current :: after) := by
    rw [same.head]
    exact ring.congr fun pcb _ => same.next pcb
  obtain ⟨total, counted, size⟩ := countLoop_ring ring' rfl enough
  have path : Path stopped.next (stopped.pcbs stopped.current).next (dead ++ next :: rest) (st.next st.current) := by
    have links : Path stopped.next (st.next st.current) (ringOrder st before after) (st.next st.current) :=
      ring.turned.congr fun pcb _ => same.next pcb
    rw [shape] at links
    rw [current]
    exact (same.next st.current).symm ▸ links
  have zombies' : ∀ pcb ∈ dead, (stopped.pcbs pcb).state = .zombie := fun pcb member => (same.zombie _).mpr (zombies pcb member)
  rw [result, counted, Option.map_some, ← size]
  dsimp only
  constructor
  · intro few
    have found := skipZombies_spec path zombies' (mt (same.zombie _).mp alive) few
    exact ⟨stopped, same, by rw [found, if_neg (mt (same.zombie _).mp alive)]⟩
  · intro many
    exact ⟨stopped, by rw [if_pos (skipZombies_short path zombies' many)]⟩

/-- A living process is found exactly when the dead ones in front of it are not more than the size
of the ring modulo 256. -/
theorem schedule_dispatches_iff (ring : Ring st.next st.head (before ++ st.current :: after))
    (present : st.head ≠ 0 ∧ st.current ≠ 0) (used : (st.pcbs st.current).ticksRemaining.toNat ≤ 1)
    (living : ∃ pcb ∈ before ++ st.current :: after, (st.pcbs pcb).state ≠ .zombie)
    (enough : (before ++ st.current :: after).length ≤ fuel) (frame : InterruptFrame) :
    Dispatches fuel frame st (ringOrder st before after) ↔
      zombiesAhead st (ringOrder st before after) ≤ (before ++ st.current :: after).length % 256 := by
  have members : ∃ pcb ∈ ringOrder st before after, (st.pcbs pcb).state ≠ .zombie := by
    obtain ⟨pcb, member, alive⟩ := living
    refine ⟨pcb, ?_, alive⟩
    simp only [ringOrder, List.mem_append, List.mem_cons, List.not_mem_nil, or_false] at member ⊢
    tauto
  obtain ⟨dead, next, rest, shape, zombies, alive, ahead, found⟩ := ringOrder_split members
  obtain ⟨passed, missed⟩ := schedule_dead ring present used enough shape zombies alive frame
  rw [ahead]
  constructor
  · rintro ⟨_, _, _, switched, _⟩
    by_contra many
    obtain ⟨stopped, stays⟩ := missed (Nat.lt_of_not_le many)
    rw [stays] at switched
    cases switched
  · intro few
    obtain ⟨stopped, same, switched⟩ := passed few
    obtain ⟨same', quantum⟩ := switchTo_same (mt (same.zombie _).mp alive) frame
    refine ⟨next, (switchTo frame next stopped).1, (switchTo frame next stopped).2, switched, found, rfl, ?_, ?_⟩
    · simp only [switchTo, Kernel.modify_same]
    · rw [quantum, same'.priority]

end Rings

/-- Consecutive blocks, each linked to the next one. -/
theorem path_consecutive (count start : Nat) : Path (fun pcb => pcb + 1) start (List.range' start count) (start + count) := by
  induction count generalizing start with
  | zero => exact .nil
  | succ count ih =>
    rw [List.range'_succ, Nat.add_comm count 1, ← Nat.add_assoc]
    exact .cons (ih (start + 1))

/-- Processes in the blocks 1 to `size`, the first one running its last tick, the second one dead. -/
def zombieBehind (size : Nat) : Kernel :=
  { idleKernel with
    head := 1
    current := 1
    pcbs := fun pcb =>
      { regs := zeroFrame, cr3 := 0, state := if pcb = 2 then .zombie else .ready, pid := 0
        next := if pcb = size then 1 else pcb + 1, name := [], stack := 0, priority := 0, ticksRemaining := 1 } }

theorem zombieBehind_ring (more : Nat) :
    Ring (zombieBehind (more + 2)).next 1 ([] ++ 1 :: (List.range' 2 more ++ [more + 2])) := by
  have path : Path (zombieBehind (more + 2)).next 1 (List.range' 1 (more + 1)) (more + 2) := by
    have consecutive := path_consecutive (more + 1) 1
    rw [show 1 + (more + 1) = more + 2 by omega] at consecutive
    refine consecutive.congr fun pcb member => if_neg ?_
    have bounds := List.mem_range'_1.mp member
    omega
  have last : Path (zombieBehind (more + 2)).next (more + 2) [more + 2] 1 := by
    have closes : (zombieBehind (more + 2)).next (more + 2) = 1 := if_pos rfl
    exact .cons (closes ▸ .nil)
  have whole : [] ++ 1 :: (List.range' 2 more ++ [more + 2]) = List.range' 1 (more + 2) := by
    rw [List.range'_succ, List.range'_1_concat, Nat.add_comm 2 more]
    rfl
  refine ⟨?_, List.cons_ne_nil _ _, ?_⟩
  · rw [List.range'_succ] at path
    exact path.append last
  · rw [whole]
    exact List.nodup_range'

/-- In a ring of three the dead process is passed. -/
theorem schedule_dispatches_three : Dispatches 3 zeroFrame (zombieBehind 3) [2, 3, 1] :=
  (schedule_dispatches_iff (zombieBehind_ring 1) (by decide) (by decide) ⟨1, by decide, by decide⟩ (by decide) zeroFrame).mpr
    (by decide)

/-- In a ring of 256 the count is zero, and the tick does not get past the dead process. -/
theorem schedule_misses :
    ¬∀ (st : Kernel) (before after : List Nat) (fuel : Nat) (frame : InterruptFrame),
      Ring st.next st.head (before ++ st.current :: after) → st.head ≠ 0 ∧ st.current ≠ 0 →
      (st.pcbs st.current).ticksRemaining.toNat ≤ 1 → (∃ pcb ∈ before ++ st.current :: after, (st.pcbs pcb).state ≠ .zombie) →
      (before ++ st.current :: after).length ≤ fuel → Dispatches fuel frame st (ringOrder st before after) := by
  intro dispatches
  have ring := zombieBehind_ring 254
  have size : ([] ++ 1 :: (List.range' 2 254 ++ [256])).length = 256 := by simp
  have switched := dispatches (zombieBehind 256) [] (List.range' 2 254 ++ [256]) 256 zeroFrame ring (by decide) (by decide)
    ⟨1, List.mem_cons_self, by decide⟩ (Nat.le_of_eq size)
  have shape : ringOrder (zombieBehind 256) [] (List.range' 2 254 ++ [256]) =
      [2] ++ 3 :: (List.range' 4 252 ++ [256] ++ [] ++ [1]) := rfl
  have missed := (schedule_dead ring (by decide) (by decide) (Nat.le_of_eq size) shape (by decide) (by decide) zeroFrame).2
  obtain ⟨stopped, stays⟩ := missed (by simp)
  obtain ⟨_, _, _, switched, _⟩ := switched
  rw [stays] at switched
  cases switched

end LivlyOS.Proc
