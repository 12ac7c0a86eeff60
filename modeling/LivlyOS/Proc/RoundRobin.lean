import LivlyOS.Proc.SchedularRuns

namespace LivlyOS.Proc

open LivlyOS.Lib

/-- Ticks with the frames of a list: the state after them and, for each tick, the
process it switches to. -/
def ticks (fuel : Nat) : List InterruptFrame → Kernel → Option (Kernel × List (Option Nat))
  | [], st => some (st, [])
  | frame :: frames, st =>
    (schedule fuel frame st).bind fun (result, selected) =>
      (ticks fuel frames result.1).map fun (st, later) => (st, selected :: later)

/-- The ticks up to the switch to the last process of a list: the one before each of
them stays for its quantum, the first one for `first` ticks. -/
def turns (quantum : Nat → Nat) : (first : Nat) → List Nat → List (Option Nat)
  | _, [] => []
  | first, pcb :: rest => List.replicate (first - 1) none ++ some pcb :: turns quantum (quantum pcb) rest

/-- A circular list served from its front `count` times. -/
def follow : (count : Nat) → List Nat → List Nat
  | 0, _ => []
  | _ + 1, [] => []
  | count + 1, pcb :: rest => pcb :: follow count (rest ++ [pcb])

theorem follow_append (served rest : List Nat) (count : Nat) :
    follow (served.length + count) (served ++ rest) = served ++ follow count (rest ++ served) := by
  induction served generalizing rest with
  | nil => simp
  | cons pcb served ih =>
    have again := ih (rest ++ [pcb])
    rw [List.length_cons, Nat.add_right_comm, List.cons_append, follow, List.append_assoc, again]
    simp

/-- A ring between two changes: it is read from the successor of the current process
on, and who lives and how long a turn takes is fixed. -/
structure Turning (live : Nat → Bool) (quantum : Nat → Nat) (nodes cycle : List Nat) (st : Kernel) : Prop where
  ring : Ring st.next st.head nodes
  short : nodes.length ≤ 255
  present : st.head ≠ 0 ∧ st.current ≠ 0
  path : Path st.next (st.next st.current) cycle (st.next st.current)
  length : cycle.length = nodes.length
  nonzero : ∀ pcb ∈ cycle, pcb ≠ 0
  living : ∀ pcb, live pcb = true ↔ (st.pcbs pcb).state ≠ .zombie
  quantum : ∀ pcb, (getQuantum (st.pcbs pcb).priority).toNat = quantum pcb

/-- What a tick leaves alone in every block. -/
structure SameRing (st st' : Kernel) : Prop where
  head : st'.head = st.head
  next : ∀ pcb, st'.next pcb = st.next pcb
  zombie : ∀ pcb, (st'.pcbs pcb).state = .zombie ↔ (st.pcbs pcb).state = .zombie
  priority : ∀ pcb, (st'.pcbs pcb).priority = (st.pcbs pcb).priority

theorem SameRing.trans (first : SameRing st mid) (second : SameRing mid st') : SameRing st st' :=
  ⟨second.head.trans first.head, fun pcb => (second.next pcb).trans (first.next pcb),
    fun pcb => (second.zombie pcb).trans (first.zombie pcb), fun pcb => (second.priority pcb).trans (first.priority pcb)⟩

theorem SameRing.modify {st : Kernel} {change : PCB → PCB}
    (next : (change (st.pcbs pcb)).next = (st.pcbs pcb).next)
    (zombie : (change (st.pcbs pcb)).state = .zombie ↔ (st.pcbs pcb).state = .zombie)
    (priority : (change (st.pcbs pcb)).priority = (st.pcbs pcb).priority) : SameRing st (st.modify pcb change) := by
  have others : ∀ other, other ≠ pcb → (st.modify pcb change).pcbs other = st.pcbs other :=
    fun other different => st.modify_other change different
  refine ⟨rfl, fun other => ?_, fun other => ?_, fun other => ?_⟩ <;> by_cases same : other = pcb
  · rw [same, Kernel.next, Kernel.modify_same, next, Kernel.next]
  · rw [Kernel.next, others other same, Kernel.next]
  · rw [same, Kernel.modify_same, zombie]
  · rw [others other same]
  · rw [same, Kernel.modify_same, priority]
  · rw [others other same]

section Turns

variable {live : Nat → Bool} {quantum : Nat → Nat} {nodes cycle : List Nat} {st st' : Kernel} {fuel : Nat}

theorem Turning.same (turning : Turning live quantum nodes cycle st) (same : SameRing st st')
    (current : st'.current = st.current) : Turning live quantum nodes cycle st' := by
  obtain ⟨ring, short, present, path, length, nonzero, living, quantum⟩ := turning
  refine ⟨?_, short, ?_, ?_, length, nonzero, fun pcb => ?_, fun pcb => ?_⟩
  · rw [same.head]
    exact ring.congr fun pcb _ => same.next pcb
  · rw [same.head, current]
    exact present
  · rw [current, same.next]
    exact path.congr fun pcb _ => same.next pcb
  · rw [living, Ne, Ne, same.zombie]
  · rw [same.priority, quantum]

theorem countDown_same (st : Kernel) : SameRing st (countDown st) ∧ (countDown st).current = st.current ∧
    ((countDown st).pcbs st.current).ticksRemaining.toNat = (st.pcbs st.current).ticksRemaining.toNat - 1 := by
  rw [countDown]
  split
  · rename_i positive
    refine ⟨.modify rfl .rfl rfl, rfl, ?_⟩
    rw [Kernel.modify_same]
    exact UInt8.toNat_sub_of_le _ _ positive
  · rename_i zero
    refine ⟨⟨rfl, fun _ => rfl, fun _ => .rfl, fun _ => rfl⟩, rfl, ?_⟩
    have none : ¬ 0 < (st.pcbs st.current).ticksRemaining.toNat := zero
    omega

/-- A tick before the quantum is used up only counts down. -/
theorem Turning.wait (turning : Turning live quantum nodes cycle st)
    (more : 1 < (st.pcbs st.current).ticksRemaining.toNat) (frame : InterruptFrame) :
    ∃ st', schedule fuel frame st = some ((st', frame), none) ∧ Turning live quantum nodes cycle st' ∧
      (st'.pcbs st'.current).ticksRemaining.toNat = (st.pcbs st.current).ticksRemaining.toNat - 1 := by
  obtain ⟨same, current, left⟩ := countDown_same st
  refine ⟨countDown st, ?_, turning.same same current, current ▸ left⟩
  have positive : 0 < ((countDown st).pcbs (countDown st).current).ticksRemaining := by
    rw [current]
    change 0 < ((countDown st).pcbs st.current).ticksRemaining.toNat
    omega
  rw [schedule, if_neg (not_or.mpr ⟨turning.present.2, turning.present.1⟩)]
  dsimp only
  rw [if_pos positive]

theorem preempt_same (st : Kernel) : SameRing st (preempt st) ∧ (preempt st).current = st.current := by
  rw [preempt]
  split
  · rename_i running
    refine ⟨.modify rfl ⟨fun dead => ProcessState.noConfusion dead, fun dead => ?_⟩ rfl, rfl⟩
    rw [running] at dead
    cases dead
  · exact ⟨⟨rfl, fun _ => rfl, fun _ => .rfl, fun _ => rfl⟩, rfl⟩

theorem switchTo_same {next : Nat} (alive : (st.pcbs next).state ≠ .zombie) (frame : InterruptFrame) :
    SameRing st (switchTo frame next st).1 ∧
      ((switchTo frame next st).1.pcbs next).ticksRemaining = getQuantum (st.pcbs next).priority := by
  have fields : ∀ pcb, ((switchTo frame next st).1.pcbs pcb).next = (st.pcbs pcb).next ∧
      (((switchTo frame next st).1.pcbs pcb).state = .zombie ↔ (st.pcbs pcb).state = .zombie) ∧
      ((switchTo frame next st).1.pcbs pcb).priority = (st.pcbs pcb).priority := by
    intro pcb
    simp only [switchTo, Kernel.modify, Function.update_apply]
    split_ifs <;> simp_all
  refine ⟨⟨rfl, fun pcb => (fields pcb).1, fun pcb => (fields pcb).2.1, fun pcb => (fields pcb).2.2⟩, ?_⟩
  simp only [switchTo, Kernel.modify, Function.update_apply]
  split_ifs <;> simp_all

/-- The search skips the dead processes in front of a living one. -/
theorem skipZombies_spec {node left : Nat} {dead rest : List Nat} (path : Path st.next node (dead ++ next :: rest) stop)
    (zombies : ∀ pcb ∈ dead, (st.pcbs pcb).state = .zombie) (alive : (st.pcbs next).state ≠ .zombie)
    (enough : dead.length ≤ left) : skipZombies st left node = next := by
  induction dead generalizing node left with
  | nil =>
    obtain rfl := path.head
    cases left with
    | zero => rfl
    | succ left => rw [skipZombies, if_neg alive]
  | cons pcb dead ih =>
    rw [List.length_cons] at enough
    obtain ⟨left, rfl⟩ : ∃ more, left = more + 1 := ⟨left - 1, by omega⟩
    obtain rfl := path.head
    rw [skipZombies, if_pos (zombies node List.mem_cons_self)]
    cases path with
    | cons path =>
      exact ih path (fun pcb member => zombies pcb (List.mem_cons_of_mem _ member)) (by omega)

/-- The tick that uses up the quantum counts the ring and looks for a process behind the current
one. -/
theorem schedule_used {st : Kernel} (present : st.head ≠ 0 ∧ st.current ≠ 0)
    (used : (st.pcbs st.current).ticksRemaining.toNat ≤ 1) (fuel : Nat) (frame : InterruptFrame) :
    ∃ stopped, SameRing st stopped ∧ stopped.current = st.current ∧
      schedule fuel frame st = (loop (countTurn stopped) fuel (0, stopped.head)).map fun total =>
        let next := skipZombies stopped total.toNat (stopped.pcbs stopped.current).next
        if (stopped.pcbs next).state = .zombie then ((stopped, frame), none)
        else (switchTo frame next stopped, some next) := by
  obtain ⟨counted, current, left⟩ := countDown_same st
  obtain ⟨stopped, current'⟩ := preempt_same (countDown st)
  refine ⟨preempt (countDown st), counted.trans stopped, current'.trans current, ?_⟩
  have none : ¬ 0 < ((countDown st).pcbs (countDown st).current).ticksRemaining := by
    rw [current]
    change ¬ 0 < ((countDown st).pcbs st.current).ticksRemaining.toNat
    omega
  rw [schedule, if_neg (not_or.mpr ⟨present.2, present.1⟩)]
  dsimp only
  rw [if_neg none]

/-- The tick that uses up the quantum switches to the next living process. -/
theorem Turning.switch (turning : Turning live quantum nodes cycle st) (enough : 255 ≤ fuel)
    (used : (st.pcbs st.current).ticksRemaining.toNat ≤ 1) (upcoming : cycle.filter live = next :: rest)
    (frame : InterruptFrame) :
    ∃ st' frame' cycle', schedule fuel frame st = some ((st', frame'), some next) ∧
      Turning live quantum nodes cycle' st' ∧ cycle'.filter live = rest ++ [next] ∧
      (st'.pcbs st'.current).ticksRemaining.toNat = quantum next := by
  obtain ⟨stopped, same, current, result⟩ := schedule_used turning.present used fuel frame
  have turning := turning.same same current
  rw [result]
  obtain ⟨dead, tail, shape, zombies, alive, rest'⟩ := List.filter_eq_cons_iff.mp upcoming
  have path := turning.path
  rw [shape] at path
  have nonzombie := (turning.living next).mp alive
  obtain ⟨total, counted, size⟩ := countLoop_ring turning.ring rfl (turning.short.trans enough)
  rw [Nat.mod_eq_of_lt (Nat.lt_succ_of_le turning.short)] at size
  have found : skipZombies stopped nodes.length (stopped.next stopped.current) = next := by
    refine skipZombies_spec path (fun pcb member => ?_) nonzombie ?_
    · by_contra other
      exact zombies pcb member ((turning.living pcb).mpr other)
    · rw [← turning.length, shape, List.length_append]
      omega
  rw [counted, Option.map_some, size]
  rw [Kernel.next] at found
  rw [found, if_neg nonzombie]
  obtain ⟨same, quanta⟩ := switchTo_same nonzombie frame
  have moved : (switchTo frame next stopped).1.current = next := rfl
  refine ⟨(switchTo frame next stopped).1, (switchTo frame next stopped).2, tail ++ (dead ++ [next]), rfl, ?_, ?_, ?_⟩
  · -- the ring is now read from the successor of `next` on
    obtain ⟨ring, short, present, _, length, nonzero, living, quantum⟩ := turning
    rw [shape] at length nonzero
    have turned := path.turned
    rw [List.append_assoc] at turned
    refine ⟨?_, short, ⟨?_, nonzero next (by simp)⟩, ?_, ?_, fun pcb member => nonzero pcb ?_, fun pcb => ?_,
      fun pcb => ?_⟩
    · rw [same.head]
      exact ring.congr fun pcb _ => same.next pcb
    · rw [same.head]
      exact present.1
    · rw [moved, same.next]
      exact turned.congr fun pcb _ => same.next pcb
    · rw [← length]
      simp only [List.length_append, List.length_cons, List.length_nil]
      omega
    · simp only [List.mem_append, List.mem_cons, List.not_mem_nil, or_false] at member ⊢
      tauto
    · rw [living, Ne, Ne, same.zombie]
    · rw [same.priority, quantum]
  · have none : dead.filter live = [] := List.filter_eq_nil_iff.mpr zombies
    rw [List.filter_append, List.filter_append, rest', none, List.nil_append, List.filter_singleton]
    simp only [alive, cond_true]
  · rw [moved, quanta, turning.quantum]

theorem getQuantum_pos (priority : UInt8) : 1 ≤ (getQuantum priority).toNat := by
  rw [getQuantum]
  split_ifs <;> decide

theorem ticks_cons {frame frame' : InterruptFrame} {frames : List InterruptFrame} {selected : Option Nat}
    (ticked : schedule fuel frame st = some ((st', frame'), selected))
    (later : ticks fuel frames st' = some (final, others)) :
    ticks fuel (frame :: frames) st = some (final, selected :: others) := by
  simp only [ticks, ticked, Option.bind_some, later, Option.map_some]

/-- As many ticks as `turns` says make the switches of `follow`, each at its place. -/
theorem Turning.ticks_spec (turning : Turning live quantum nodes cycle st) (enough : 255 ≤ fuel) (count : Nat)
    (nonempty : cycle.filter live ≠ []) {first : Nat}
    (left : max 1 (st.pcbs st.current).ticksRemaining.toNat = first) {frames : List InterruptFrame}
    (length : frames.length = (turns quantum first (follow count (cycle.filter live))).length) :
    ∃ st', ticks fuel frames st = some (st', turns quantum first (follow count (cycle.filter live))) := by
  induction count generalizing st cycle first frames with
  | zero =>
    rw [follow, turns] at length ⊢
    rw [List.length_eq_zero_iff.mp length]
    exact ⟨st, rfl⟩
  | succ count ih =>
    rcases upcoming : cycle.filter live with _ | ⟨next, rest⟩
    · exact absurd upcoming nonempty
    · rw [upcoming, follow, turns] at length
      rw [follow, turns]
      generalize waits : first - 1 = wait at length ⊢
      -- first the ticks that count down, then the one that switches
      induction wait generalizing st first frames with
      | zero =>
        rw [List.replicate_zero, List.nil_append, List.length_cons] at length
        obtain ⟨frame, frames, rfl⟩ := List.exists_cons_of_length_eq_add_one length
        obtain ⟨st', frame', cycle', ticked, turning', shape, left'⟩ :=
          turning.switch enough (by omega) upcoming frame
        have positive : 1 ≤ quantum next := turning.quantum next ▸ getQuantum_pos _
        rw [← shape] at length ⊢
        obtain ⟨final, later⟩ := ih turning' (by rw [shape]; simp) (by omega : _ = quantum next)
          (Nat.succ.inj length)
        exact ⟨final, ticks_cons ticked later⟩
      | succ wait again =>
        rw [List.replicate_succ, List.cons_append, List.length_cons] at length
        obtain ⟨frame, frames, rfl⟩ := List.exists_cons_of_length_eq_add_one length
        obtain ⟨st', ticked, turning', left'⟩ := turning.wait (by omega) frame
        have fewer : max 1 (st'.pcbs st'.current).ticksRemaining.toNat = first - 1 := by omega
        obtain ⟨final, later⟩ := again turning' fewer (by omega) (Nat.succ.inj length)
        refine ⟨final, ?_⟩
        rw [List.replicate_succ, List.cons_append]
        exact ticks_cons ticked later

end Turns

/-- The living processes in the order of the ring, from the one behind the current
process to the current process itself. -/
def upcoming (st : Kernel) (before after : List Nat) : List Nat :=
  (after ++ before).filter (fun pcb => (st.pcbs pcb).state ≠ .zombie) ++ [st.current]

/-- What ticks do in a ring with a living current process: every living process gets
its turn once, in ring order and for its own quantum, the current process last; then
it starts again. -/
def roundRobin (st : Kernel) (before after : List Nat) : List (Option Nat) :=
  turns (fun pcb => (getQuantum (st.pcbs pcb).priority).toNat)
    (max 1 (st.pcbs st.current).ticksRemaining.toNat)
    (upcoming st before after ++ (upcoming st before after).take 1)

theorem round_robin {st : Kernel} (ring : Ring st.next st.head (before ++ st.current :: after))
    (short : (before ++ st.current :: after).length ≤ 255) (nonzero : 0 ∉ before ++ st.current :: after)
    (living : (st.pcbs st.current).state ≠ .zombie) (enough : 255 ≤ fuel) (frames : List InterruptFrame)
    (length : frames.length = (roundRobin st before after).length) :
    ∃ st', ticks fuel frames st = some (st', roundRobin st before after) := by
  have known : ∀ pcb, pcb = 0 → pcb ∉ before ++ st.current :: after := fun pcb zero => zero ▸ nonzero
  have turning : Turning (fun pcb => decide ((st.pcbs pcb).state ≠ .zombie))
      (fun pcb => (getQuantum (st.pcbs pcb).priority).toNat) (before ++ st.current :: after)
      (after ++ before ++ [st.current]) st := by
    refine ⟨ring, short, ⟨fun zero => known _ zero ring.head_mem, fun zero => known _ zero (by simp)⟩, ring.turned, ?_,
      fun pcb member zero => known pcb zero ?_, fun pcb => decide_eq_true_iff, fun pcb => rfl⟩
    · simp only [List.length_append, List.length_cons, List.length_nil]
      omega
    · simp only [List.mem_append, List.mem_cons, List.not_mem_nil, or_false] at member ⊢
      tauto
  have shape : (after ++ before ++ [st.current]).filter (fun pcb => decide ((st.pcbs pcb).state ≠ .zombie)) =
      upcoming st before after := by
    rw [List.filter_append, upcoming, List.filter_singleton, decide_eq_true living]
    rfl
  have nonempty : upcoming st before after ≠ [] := by simp [upcoming]
  have order : follow ((upcoming st before after).length + 1) (upcoming st before after) =
      upcoming st before after ++ (upcoming st before after).take 1 := by
    have served := follow_append (upcoming st before after) [] 1
    rw [List.append_nil, List.nil_append] at served
    rw [served]
    cases upcoming st before after with
    | nil => rfl
    | cons first rest => rfl
  have result := @turning.ticks_spec _ _ _ _ _ fuel enough ((upcoming st before after).length + 1)
    (shape ▸ nonempty) _ rfl frames
  rw [shape, order] at result
  exact result length

/-- Three processes with quanta 4, 3 and 2; the second one is killed. -/
theorem round_robin_idleKernel : ∃ st st', SchedularRun 32769 (schedularInit idleKernel)
      [.add (some [65]) 0x1000 0, .add (some [66]) 0x2000 1, .add (some [67]) 0x3000 2, .remove 1] st ∧
    ticks 32769 (List.replicate 10 zeroFrame) st = some (st', [none, none, none, some 0x200250, none,
      some 0x200020, none, none, none, some 0x200250]) := by
  have trace : (execute 32769 [.add (some [65]) 0x1000 0, .add (some [66]) 0x2000 1, .add (some [67]) 0x3000 2,
      .remove 1] (schedularInit idleKernel)).map (fun st => (alive st.trace, st.head, st.current,
        decide ((st.pcbs st.current).state = .zombie), roundRobin st [] [0x200138, 0x200250])) =
      some ([0x200020, 0x200138, 0x200250], 0x200020, 0x200020, false, [none, none, none, some 0x200250, none,
        some 0x200020, none, none, none, some 0x200250]) := by
    decide +kernel
  obtain ⟨st, executed, same⟩ := Option.map_eq_some_iff.mp trace
  simp only [Prod.mk.injEq, decide_eq_false_iff_not] at same
  obtain ⟨members, head, current, living, pattern⟩ := same
  have run := execute_run executed
  have order := run_inOrder idleKernel_booted run
  have ring : Ring st.next st.head ([] ++ st.current :: [0x200138, 0x200250]) := by
    rcases order.ring with ⟨_, none⟩ | ⟨ring, _⟩
    · rw [members] at none
      cases none
    · rw [members] at ring
      rw [current]
      exact ring
  obtain ⟨st', ticked⟩ := round_robin ring (by simp) (by simp [current]) living (by decide : 255 ≤ 32769)
    (List.replicate 10 zeroFrame) (by rw [pattern]; rfl)
  exact ⟨st, st', run, pattern ▸ ticked⟩

end LivlyOS.Proc
