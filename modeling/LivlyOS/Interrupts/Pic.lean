import Mathlib.Data.Fintype.Basic
import Mathlib.Logic.Function.Basic
import LivlyOS.Lib.Run

/-! The two interrupt controllers: the part of an 8259A that `pic_remap` sets up and that
the end of `exception_handler` talks to, and the service of requests in every run. -/

namespace LivlyOS.Interrupts

open LivlyOS.Lib

/-- The initialization words that a controller still waits for. -/
inductive Setup where
  | ready
  | icw2 (single icw4 : Bool)
  | icw3 (icw4 : Bool)
  | icw4
deriving DecidableEq

/-- One controller with edge-triggered lines, the lowest line first in priority. -/
structure Pic where
  requested : Fin 8 → Bool
  inService : Fin 8 → Bool
  mask : UInt8
  base : UInt8
  cascade : UInt8
  setup : Setup

namespace Pic

/-- Bits 4, 1 and 0 of a command. -/
def startsSetup (value : UInt8) : Bool := value.toNat.testBit 4

def firstInService (pic : Pic) : Option (Fin 8) := Fin.find? pic.inService

/-- A write to the command port: the first initialization word, or the end of the
interrupt in service with the highest priority. -/
def command (pic : Pic) (value : UInt8) : Pic :=
  if startsSetup value then
    ⟨fun _ => false, fun _ => false, 0, pic.base, pic.cascade, .icw2 (value.toNat.testBit 1) (value.toNat.testBit 0)⟩
  else if value = 0x20 then
    pic.firstInService.elim pic fun line => { pic with inService := Function.update pic.inService line false }
  else pic

/-- A write to the data port. -/
def data (pic : Pic) (value : UInt8) : Pic :=
  match pic.setup with
  | .ready => { pic with mask := value }
  | .icw2 single icw4 =>
    { pic with base := value &&& 0xF8, setup := if single then (if icw4 then .icw4 else .ready) else .icw3 icw4 }
  | .icw3 icw4 => { pic with cascade := value, setup := if icw4 then .icw4 else .ready }
  | .icw4 => { pic with setup := .ready }

def masked (pic : Pic) (line : Fin 8) : Bool := pic.mask.toNat.testBit line

/-- The line that interrupts the processor: unmasked, and above everything in service. -/
def next (pic : Pic) (lines : Fin 8 → Bool) : Option (Fin 8) :=
  Fin.find? fun line =>
    lines line && !pic.masked line && decide (∀ higher, higher ≤ line → pic.inService higher = false)

/-- The acknowledge cycle takes a line into service. -/
def serve (pic : Pic) (line : Fin 8) : Pic := { pic with inService := Function.update pic.inService line true }

def withdraw (pic : Pic) (line : Fin 8) : Pic := { pic with requested := Function.update pic.requested line false }

def raise (pic : Pic) (line : Fin 8) : Pic := { pic with requested := Function.update pic.requested line true }

end Pic

structure Pics where
  master : Pic
  slave : Pic

/-- The interrupt requests 0 to 7 and 8 to 15. -/
inductive Irq where
  | master (line : Fin 8)
  | slave (line : Fin 8)
deriving DecidableEq

/-- The number of a request; the controllers add 32. -/
def Irq.number : Irq → Nat
  | .master line => line
  | .slave line => 8 + line

def Irq.vector (irq : Irq) : UInt8 := UInt8.ofNat (32 + irq.number)

/-- The order of priority: the lines of the slave come between the lines 1 and 3. -/
def Irq.rank : Irq → Nat
  | .master line => 8 * line
  | .slave line => 16 + line

namespace Pics

def outb (pics : Pics) (write : UInt16 × UInt8) : Pics :=
  if write.1 = 0x20 then { pics with master := pics.master.command write.2 }
  else if write.1 = 0x21 then { pics with master := pics.master.data write.2 }
  else if write.1 = 0xA0 then { pics with slave := pics.slave.command write.2 }
  else if write.1 = 0xA1 then { pics with slave := pics.slave.data write.2 }
  else pics

def outbs (pics : Pics) (writes : List (UInt16 × UInt8)) : Pics := writes.foldl outb pics

/-- The lines of the master; the slave is on line 2. -/
def masterLines (pics : Pics) (line : Fin 8) : Bool :=
  if line = 2 then (pics.slave.next pics.slave.requested).isSome else pics.master.requested line

/-- The vector that the controllers give the processor, and their state then. -/
def acknowledge (pics : Pics) : Option (UInt8 × Pics) :=
  (pics.master.next pics.masterLines).bind fun line =>
    if line = 2 then
      (pics.slave.next pics.slave.requested).map fun slaveLine =>
        (pics.slave.base + UInt8.ofNat slaveLine.val,
          ⟨pics.master.serve 2, (pics.slave.serve slaveLine).withdraw slaveLine⟩)
    else
      some (pics.master.base + UInt8.ofNat line.val, { pics with master := (pics.master.serve line).withdraw line })

/-- A device raises its line. -/
def raise (pics : Pics) : Irq → Pics
  | .master line => { pics with master := pics.master.raise line }
  | .slave line => { pics with slave := pics.slave.raise line }

end Pics

/-- `pic_remap`; the masks are read first. -/
def picRemap (masterOffset slaveOffset : UInt8) (pics : Pics) : Pics :=
  let mask1 := pics.master.mask
  let mask2 := pics.slave.mask
  pics.outbs [(0x20, 0x11), (0xA0, 0x11), (0x21, masterOffset), (0xA1, slaveOffset), (0x21, 0x04), (0xA1, 0x02),
    (0x21, 0x01), (0xA1, 0x01), (0x21, mask1), (0xA1, mask2)]

/-- The writes at the end of `exception_handler` for a frame with an interrupt number
below 48. -/
def picEoi (intNum : UInt64) : List (UInt16 × UInt8) :=
  (if intNum ≥ 40 then [(0xA0, 0x20)] else []) ++ [(0x20, 0x20)]

namespace Pics

/-- A request that reaches the processor when interrupts are on. -/
def Wants (pics : Pics) : Irq → Prop
  | .master line => line ≠ 2 ∧ pics.master.requested line = true ∧ pics.master.masked line = false
  | .slave line => pics.slave.requested line = true ∧ pics.slave.masked line = false ∧ pics.master.masked 2 = false

/-- One request taken back, nothing else. -/
def served (pics : Pics) : Irq → Pics
  | .master line => { pics with master := pics.master.withdraw line }
  | .slave line => { pics with slave := pics.slave.withdraw line }

/-- The controllers between two interrupts. -/
structure Idle (pics : Pics) : Prop where
  master : pics.master.setup = .ready ∧ pics.master.base = 32 ∧ ∀ line, pics.master.inService line = false
  slave : pics.slave.setup = .ready ∧ pics.slave.base = 40 ∧ ∀ line, pics.slave.inService line = false

end Pics

/-- Whatever the controllers were in the middle of, the remapping sets the vectors and
keeps the masks. -/
theorem picRemap_eq (masterOffset slaveOffset : UInt8) (pics : Pics) : picRemap masterOffset slaveOffset pics =
    ⟨⟨fun _ => false, fun _ => false, pics.master.mask, masterOffset &&& 0xF8, 0x04, .ready⟩,
      ⟨fun _ => false, fun _ => false, pics.slave.mask, slaveOffset &&& 0xF8, 0x02, .ready⟩⟩ := rfl

theorem picRemap_idle (pics : Pics) : (picRemap 32 40 pics).Idle := by
  rw [picRemap_eq]
  exact ⟨⟨rfl, rfl, fun _ => rfl⟩, ⟨rfl, rfl, fun _ => rfl⟩⟩

namespace Pic

variable {pic : Pic} {lines : Fin 8 → Bool} {line : Fin 8}

theorem data_ready (ready : pic.setup = .ready) (value : UInt8) : pic.data value = { pic with mask := value } := by
  simp only [data, ready]

/-- With nothing in service, the first unmasked line is next. -/
theorem next_eq (idle : ∀ line, pic.inService line = false) :
    pic.next lines = Fin.find? fun line => lines line && !pic.masked line :=
  congrArg Fin.find? (funext fun line => by simp [idle])

theorem firstInService_serve (idle : ∀ line, pic.inService line = false) (line : Fin 8) :
    (pic.serve line).firstInService = some line := by
  refine Fin.find?_eq_some_iff.mpr ⟨Function.update_self .., fun higher above => ?_⟩
  exact (Function.update_of_ne (Fin.ne_of_lt above) ..).trans (idle higher)

/-- The end of an interrupt undoes the acknowledge cycle. -/
theorem command_serve (pic : Pic) (idle : ∀ line, pic.inService line = false) (line : Fin 8) :
    (pic.serve line).command 0x20 = pic := by
  have start : startsSetup 0x20 = false := by decide
  have undone : Function.update (Function.update pic.inService line true) line false = pic.inService := by
    rw [Function.update_idem]
    exact Function.update_eq_self_iff.mpr (idle line).symm
  rw [command, start, if_neg Bool.false_ne_true, if_pos rfl, firstInService_serve idle, Option.elim_some, serve]
  dsimp only
  rw [undone]

end Pic

namespace Pics

variable {pics : Pics}

theorem slave_next_isSome (idle : pics.Idle) : (pics.slave.next pics.slave.requested).isSome = true ↔
    ∃ line, pics.slave.requested line = true ∧ pics.slave.masked line = false := by
  rw [Pic.next_eq idle.slave.2.2]
  simp

/-- What the master sees on its lines is what some request wants. -/
theorem masterLines_iff (idle : pics.Idle) (line : Fin 8) :
    pics.masterLines line = true ∧ pics.master.masked line = false ↔
      pics.Wants (.master line) ∨ line = 2 ∧ ∃ slaveLine, pics.Wants (.slave slaveLine) := by
  rw [masterLines]
  split
  · rename_i cascade
    subst cascade
    rw [slave_next_isSome idle]
    simp only [Wants]
    grind
  · rename_i plain
    simp only [Wants]
    grind

/-- The writes at the end of the handler for a line of the master. -/
theorem outbs_master (idle : pics.Idle) (line : Fin 8) :
    Pics.outbs { pics with master := (pics.master.serve line).withdraw line } (picEoi (UInt64.ofNat (32 + line.val))) =
      pics.served (.master line) := by
  have early : ¬UInt64.ofNat (32 + line.val) ≥ 40 := by
    revert line
    decide
  have ended := Pic.command_serve (pics.master.withdraw line) idle.master.2.2 line
  rw [picEoi, if_neg early]
  exact congrArg (fun master => { pics with master }) ended

theorem outbs_slave (idle : pics.Idle) (line : Fin 8) :
    Pics.outbs ⟨pics.master.serve 2, (pics.slave.serve line).withdraw line⟩ (picEoi (UInt64.ofNat (40 + line.val))) =
      pics.served (.slave line) := by
  have late : UInt64.ofNat (40 + line.val) ≥ 40 := by
    revert line
    decide
  have slave := Pic.command_serve (pics.slave.withdraw line) idle.slave.2.2 line
  have master := Pic.command_serve pics.master idle.master.2.2 2
  rw [picEoi, if_pos late]
  exact congrArg₂ Pics.mk master slave

theorem masterVector_eq (line : Fin 8) : 32 + UInt8.ofNat line.val = (Irq.master line).vector ∧
    (Irq.master line).vector.toUInt64 = UInt64.ofNat (32 + line.val) := by
  revert line
  decide

theorem slaveVector_eq (line : Fin 8) : 40 + UInt8.ofNat line.val = (Irq.slave line).vector ∧
    (Irq.slave line).vector.toUInt64 = UInt64.ofNat (40 + line.val) := by
  revert line
  decide

/-- No request comes before this one. -/
def First (pics : Pics) (irq : Irq) : Prop := pics.Wants irq ∧ ∀ other, pics.Wants other → irq.rank ≤ other.rank

theorem first_master (idle : pics.Idle) (next : pics.master.next pics.masterLines = some line) (plain : line ≠ 2) :
    pics.First (.master line) := by
  rw [Pic.next_eq idle.master.2.2, Fin.find?_eq_some_iff] at next
  obtain ⟨here, before⟩ := next
  have wants : pics.Wants (.master line) := by
    have seen := (masterLines_iff idle line).mp (by simpa using here)
    exact seen.resolve_right fun cascade => plain cascade.1
  refine ⟨wants, fun other wanted => ?_⟩
  have seen (earlier : Fin 8) (above : earlier < line) :
      ¬(pics.Wants (.master earlier) ∨ earlier = 2 ∧ ∃ slaveLine, pics.Wants (.slave slaveLine)) := by
    rw [← masterLines_iff idle]
    simpa using before earlier above
  cases other with
  | master earlier =>
    have behind : ¬earlier < line := fun above => seen earlier above (.inl wanted)
    simp only [Irq.rank]
    omega
  | slave slaveLine =>
    have behind : ¬2 < line := fun above => seen 2 above (.inr ⟨rfl, slaveLine, wanted⟩)
    simp only [Irq.rank]
    omega

theorem first_slave (idle : pics.Idle) (next : pics.master.next pics.masterLines = some 2)
    (slaveNext : pics.slave.next pics.slave.requested = some line) : pics.First (.slave line) := by
  rw [Pic.next_eq idle.master.2.2, Fin.find?_eq_some_iff] at next
  rw [Pic.next_eq idle.slave.2.2, Fin.find?_eq_some_iff] at slaveNext
  obtain ⟨here, before⟩ := next
  obtain ⟨slaveHere, slaveBefore⟩ := slaveNext
  have open2 : pics.master.masked 2 = false := by
    simpa using (Bool.and_eq_true_iff.mp here).2
  have open' : pics.slave.requested line = true ∧ pics.slave.masked line = false := by
    simpa using slaveHere
  refine ⟨⟨open'.1, open'.2, open2⟩, fun other wanted => ?_⟩
  cases other with
  | master earlier =>
    have behind : ¬earlier < 2 := fun above => by
      have seen := (masterLines_iff idle earlier).mpr (.inl wanted)
      have unseen := before earlier above
      simp [seen] at unseen
    have plain : earlier ≠ 2 := wanted.1
    simp only [Irq.rank]
    omega
  | slave earlier =>
    have behind : ¬earlier < line := fun above => by
      have unseen := slaveBefore earlier above
      simp [wanted.1, wanted.2.1] at unseen
    simp only [Irq.rank]
    omega

/-- An acknowledge cycle and the writes of the handler: the first request is served and
nothing else has changed. -/
theorem acknowledge_some (idle : pics.Idle) (acknowledged : pics.acknowledge = some (vector, pics')) :
    ∃ irq, pics.First irq ∧ vector = irq.vector ∧ pics'.outbs (picEoi vector.toUInt64) = pics.served irq := by
  obtain ⟨line, next, answer⟩ := Option.bind_eq_some_iff.mp acknowledged
  split at answer
  · rename_i cascade
    subst cascade
    obtain ⟨slaveLine, slaveNext, answer⟩ := Option.map_eq_some_iff.mp answer
    cases answer
    rw [idle.slave.2.1, (slaveVector_eq slaveLine).1, (slaveVector_eq slaveLine).2]
    exact ⟨.slave slaveLine, first_slave idle next slaveNext, rfl, outbs_slave idle slaveLine⟩
  · rename_i plain
    cases answer
    rw [idle.master.2.1, (masterVector_eq line).1, (masterVector_eq line).2]
    exact ⟨.master line, first_master idle next plain, rfl, outbs_master idle line⟩

/-- The processor is interrupted as long as there is a request. -/
theorem acknowledge_eq_none_iff (idle : pics.Idle) : pics.acknowledge = none ↔ ∀ irq, ¬pics.Wants irq := by
  constructor
  · intro silent irq wanted
    have line : ∃ line, pics.masterLines line = true ∧ pics.master.masked line = false := by
      cases irq with
      | master line => exact ⟨line, (masterLines_iff idle line).mpr (.inl wanted)⟩
      | slave line => exact ⟨2, (masterLines_iff idle 2).mpr (.inr ⟨rfl, line, wanted⟩)⟩
    have answers : (pics.master.next pics.masterLines).isSome = true := by
      rw [Pic.next_eq idle.master.2.2]
      simpa using line
    obtain ⟨line, next⟩ := Option.isSome_iff_exists.mp answers
    rw [acknowledge, next, Option.bind_some] at silent
    split at silent
    · rename_i cascade
      subst cascade
      have seen : pics.masterLines 2 = true := by
        rw [Pic.next_eq idle.master.2.2, Fin.find?_eq_some_iff] at next
        exact (Bool.and_eq_true_iff.mp next.1).1
      rw [masterLines, if_pos rfl, Option.isSome_iff_exists] at seen
      obtain ⟨slaveLine, slaveNext⟩ := seen
      rw [slaveNext] at silent
      cases silent
    · cases silent
  · intro nobody
    rcases answer : pics.acknowledge with _ | ⟨vector, pics'⟩
    · rfl
    · obtain ⟨irq, first, _⟩ := acknowledge_some idle answer
      exact absurd first.1 (nobody irq)

end Pics

end LivlyOS.Interrupts
