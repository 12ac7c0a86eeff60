import LivlyOS.Proc.SchedularRuns
import LivlyOS.Shell.Commands

namespace LivlyOS.Shell

open LivlyOS.Lib LivlyOS.Proc

/-- The decimal numeral of a number. -/
def decimal (n : Nat) : List UInt8 := (Nat.toDigits 10 n).map fun digit : Char => UInt8.ofNat digit.toNat

/-- What a command does to the processes. -/
def Call.onProcesses (fuel : Nat) : Call → Kernel → Option Kernel
  | .schedularRemove pid, st => Proc.schedularRemove fuel pid st
  | _, st => some st

/-- The number a numeral spells survives modulo 256. -/
theorem strToInt_decimal (n : Nat) : strToInt (decimal n) = UInt8.ofNat n := by
  have digit (d : Nat) (small : d < 10) : UInt8.ofNat d.digitChar.toNat - 48 = UInt8.ofNat d := by
    revert d
    decide
  unfold strToInt decimal
  induction n using Nat.base_induction 10 (by decide) with
  | single d small =>
    rw [Nat.toDigits_of_lt_base small, List.map_singleton, List.foldl_cons, List.foldl_nil, digit d small]
    simp
  | digit m d small positive ih =>
    rw [← Nat.toDigits_append_toDigits (by decide) positive small, List.map_append, List.foldl_append, ih,
      Nat.toDigits_of_lt_base small, List.map_singleton, List.foldl_cons, List.foldl_nil, digit d small,
      UInt8.ofNat_add, UInt8.ofNat_mul, UInt8.mul_comm]
    rfl

theorem killProcess_state (nonzero : process ≠ 0) (st : Kernel) (other : Nat) :
    ((killProcess process st).pcbs other).state = if other = process then .zombie else (st.pcbs other).state := by
  unfold killProcess
  rw [if_neg nonzero]
  split
  · rename_i dead
    split
    · rename_i same
      rw [same, dead]
    · rfl
  · split
    · rename_i same
      rw [same, Kernel.modify_same]
    · rename_i different
      rw [Kernel.modify_other _ _ different]

/-- A process of the ring has pid `n`. -/
def Names (st : Kernel) (nodes : List Nat) (n : Nat) (process : Nat) : Prop :=
  process ∈ nodes ∧ (st.pcbs process).pid.toNat = n

/-- The process with pid `n` is dead afterwards if there is one, all others are in the state
they were in. -/
def KillsNamed (n : Nat) (nodes : List Nat) (st st' : Kernel) : Prop :=
  ((∃ process, Names st nodes n process) → ∃ process, Names st nodes n process ∧ (st'.pcbs process).state = .zombie) ∧
    ∀ process ∈ nodes, ¬Names st nodes n process → (st'.pcbs process).state = (st.pcbs process).state

/-- The first process with a pid is one of those with the pid, if there is any. -/
theorem named_spec (st : Kernel) (nodes : List Nat) (pid : UInt32) :
    (∀ process, st.named pid nodes = some process → Names st nodes pid.toNat process) ∧
      (st.named pid nodes = none → ¬∃ process, Names st nodes pid.toNat process) := by
  unfold Kernel.named
  constructor
  · intro process found
    have same := List.find?_some found
    exact ⟨List.mem_of_find?_eq_some found, congrArg UInt32.toNat (beq_iff_eq.mp same)⟩
  · rintro missing ⟨process, member, same⟩
    have differs := List.find?_eq_none.mp missing process member
    exact differs (beq_iff_eq.mpr (UInt32.toNat.inj same))

section Kill

variable {st : Kernel} {nodes : List Nat} {pid : UInt32}

/-- A number that is a pid itself names its process. -/
theorem killsNamed_pid (st : Kernel) (pid : UInt32) (nonzero : 0 ∉ nodes) :
    KillsNamed pid.toNat nodes st ((st.named pid nodes).elim st fun process => killProcess process st) := by
  obtain ⟨found, missing⟩ := named_spec st nodes pid
  cases first : st.named pid nodes with
  | none => exact ⟨fun some => absurd some (missing first), fun _ _ _ => rfl⟩
  | some process =>
    have names := found process first
    have state := killProcess_state (fun zero => nonzero (zero ▸ names.1)) st
    rw [Option.elim_some]
    constructor
    · intro _
      exact ⟨process, names, by rw [state, if_pos rfl]⟩
    · intro other _ unnamed
      rw [state, if_neg]
      exact fun same => unnamed (same ▸ names)

/-- The state of a process with another pid does not change. -/
theorem killProcess_unnamed (nonzero : 0 ∉ nodes) (different : pid.toNat ≠ n)
    (names : Names st nodes n process) :
    (((st.named pid nodes).elim st fun process => killProcess process st).pcbs process).state =
      (st.pcbs process).state := by
  cases first : st.named pid nodes with
  | none => rfl
  | some killed =>
    have named := (named_spec st nodes pid).1 killed first
    rw [Option.elim_some, killProcess_state (fun zero => nonzero (zero ▸ named.1)), if_neg]
    rintro rfl
    exact different (named.2.symm.trans names.2)

theorem killsNamed_other_iff (nonzero : 0 ∉ nodes) (different : pid.toNat ≠ n) :
    KillsNamed n nodes st ((st.named pid nodes).elim st fun process => killProcess process st) ↔
      (∀ process, st.named pid nodes = some process → (st.pcbs process).state = .zombie) ∧
        ((∃ process, Names st nodes n process) → ∃ process, Names st nodes n process ∧ (st.pcbs process).state = .zombie) := by
  have unnamed := @killProcess_unnamed st nodes pid n
  constructor
  · rintro ⟨kills, spares⟩
    constructor
    · intro process first
      have named := (named_spec st nodes pid).1 process first
      have same := spares process named.1 fun names => different (named.2.symm.trans names.2)
      rw [first, Option.elim_some, killProcess_state (fun zero => nonzero (zero ▸ named.1)), if_pos rfl] at same
      exact same.symm
    · intro present
      obtain ⟨process, names, dead⟩ := kills present
      exact ⟨process, names, (unnamed nonzero different names).symm.trans dead⟩
  · rintro ⟨idle, dead⟩
    constructor
    · intro present
      obtain ⟨process, names, state⟩ := dead present
      exact ⟨process, names, (unnamed nonzero different names).trans state⟩
    · intro process _ _
      cases first : st.named pid nodes with
      | none => rfl
      | some killed =>
        have named := (named_spec st nodes pid).1 killed first
        rw [Option.elim_some, killProcess_state (fun zero => nonzero (zero ▸ named.1))]
        split
        · rename_i same
          rw [same, idle killed first]
        · rfl

end Kill

/-- A numeral kills the process it names exactly when it is below 256, or nothing is left to
kill: whoever has the number modulo 256 comes first in the ring as a dead process or not at
all, and the process that was meant is dead or absent. -/
theorem cmdStopProcess_iff {st : Kernel} {nodes : List Nat} (ring : ProcessRing st nodes)
    (enough : nodes.length ≤ fuel) (n : Nat) :
    (∃ st', (cmdStopProcess (decimal n)).onProcesses fuel st = some st' ∧ KillsNamed n nodes st st') ↔
      n < 256 ∨
        (∀ process, st.named (UInt32.ofNat (n % 256)) nodes = some process → (st.pcbs process).state = .zombie) ∧
          ((∃ process, Names st nodes n process) →
            ∃ process, Names st nodes n process ∧ (st.pcbs process).state = .zombie) := by
  have nonzero : 0 ∉ nodes := by
    rcases ring with ⟨_, rfl⟩ | ⟨_, nonzero⟩
    · exact List.not_mem_nil
    · exact nonzero
  have pid : (strToInt (decimal n)).toUInt32 = UInt32.ofNat (n % 256) := by
    rw [strToInt_decimal]
    apply UInt32.toNat.inj
    simp
    omega
  have number : (UInt32.ofNat (n % 256)).toNat = n % 256 := by
    simp
    omega
  have ran : (cmdStopProcess (decimal n)).onProcesses fuel st = some _ := schedularRemove_eq ring enough _
  rw [pid] at ran
  simp only [ran, Option.some.injEq, exists_eq_left']
  by_cases small : n < 256
  · have kills := killsNamed_pid st (UInt32.ofNat (n % 256)) nonzero
    rw [number, Nat.mod_eq_of_lt small] at kills
    rw [Nat.mod_eq_of_lt small]
    exact iff_of_true kills (.inl small)
  · have different : (UInt32.ofNat (n % 256)).toNat ≠ n := by omega
    rw [killsNamed_other_iff nonzero different]
    exact (or_iff_right small).symm

/-- The shell alone, with pid 0. -/
def shellKernel : Kernel :=
  { idleKernel with
    head := 0x200020
    current := 0x200020
    pcbs := fun _ => ⟨zeroFrame, 0, .running, 0, 0x200020, bytes "shell", 0, 0, 4⟩ }

theorem shellKernel_ring : ProcessRing shellKernel [0x200020] := .inr ⟨.singleton rfl, by decide⟩

theorem cmdStopProcess_iff_shell :
    (∃ st', (cmdStopProcess (decimal 0)).onProcesses 1 shellKernel = some st' ∧ KillsNamed 0 [0x200020] shellKernel st') ↔
      0 < 256 ∨
        (∀ process, shellKernel.named (UInt32.ofNat (0 % 256)) [0x200020] = some process →
          (shellKernel.pcbs process).state = .zombie) ∧
          ((∃ process, Names shellKernel [0x200020] 0 process) →
            ∃ process, Names shellKernel [0x200020] 0 process ∧ (shellKernel.pcbs process).state = .zombie) :=
  cmdStopProcess_iff shellKernel_ring (Nat.le_refl 1) 0

/-- `taskkill 256` kills the shell. -/
theorem cmdStopProcess_wraps : ProcessRing shellKernel [0x200020] ∧
    (cmdStopProcess (decimal 256)).onProcesses 1 shellKernel = some (killProcess 0x200020 shellKernel) ∧
      ¬KillsNamed 256 [0x200020] shellKernel (killProcess 0x200020 shellKernel) := by
  refine ⟨shellKernel_ring, rfl, fun kills => ?_⟩
  have spared := kills.2 0x200020 List.mem_cons_self fun names => absurd names.2 (by decide)
  exact absurd spared (by decide)

end LivlyOS.Shell
