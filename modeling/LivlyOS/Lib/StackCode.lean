import Mathlib.Data.List.Nodup
import LivlyOS.Lib.Bytes

/-! Straight-line code over a descending stack of 64-bit words in byte memory, for
any set of registers beside the stack pointer. What runs of pushes and pops do is
stated by the words that the stack holds. -/

namespace LivlyOS.Lib

def load64 (memory : Bytes) (address : UInt64) : UInt64 := UInt64.ofNat (word memory address.toNat 8)

def store64 (memory : Bytes) (address value : UInt64) : Bytes := putWord memory address.toNat 8 value.toNat

structure Machine (ρ : Type) where
  regs : ρ → UInt64
  rsp : UInt64
  memory : Bytes

inductive Instr (ρ : Type) where
  | pushImm (value : UInt64)
  | push (reg : ρ)
  | pop (reg : ρ)
  | movRsp (reg : ρ)
  | addRsp (size : UInt64)
  | subRsp (size : UInt64)
  | call
deriving DecidableEq

namespace Machine

variable {ρ : Type}

def pushWord (m : Machine ρ) (value : UInt64) : Machine ρ :=
  { m with rsp := m.rsp - 8, memory := store64 m.memory (m.rsp - 8) value }

/-- Words pushed one after the other. -/
def pushAll (m : Machine ρ) (values : List UInt64) : Machine ρ := values.foldl pushWord m

def top (m : Machine ρ) : UInt64 := load64 m.memory m.rsp

/-- The words from an address upwards. -/
def Words (memory : Bytes) : Nat → List UInt64 → Prop
  | _, [] => True
  | address, value :: values => word memory address 8 = value.toNat ∧ Words memory (address + 8) values

/-- Words stored from an address upwards. -/
def putWords (memory : Bytes) : Nat → List UInt64 → Bytes
  | _, [] => memory
  | address, value :: values => putWords (putWord memory address 8 value.toNat) (address + 8) values

end Machine

/-- One instruction; a call stores the address behind it and hands over to the callee,
which returns with that address off the stack. -/
def Instr.exec [DecidableEq ρ] (back : UInt64) (callee : Machine ρ → Machine ρ) : Instr ρ → Machine ρ → Machine ρ
  | .pushImm value, m => m.pushWord value
  | .push reg, m => m.pushWord (m.regs reg)
  | .pop reg, m => { m with regs := Function.update m.regs reg m.top, rsp := m.rsp + 8 }
  | .movRsp reg, m => { m with regs := Function.update m.regs reg m.rsp }
  | .addRsp size, m => { m with rsp := m.rsp + size }
  | .subRsp size, m => { m with rsp := m.rsp - size }
  | .call, m => callee (m.pushWord back)

def execAll [DecidableEq ρ] (back : UInt64) (callee : Machine ρ → Machine ρ) (code : List (Instr ρ))
    (m : Machine ρ) : Machine ρ :=
  code.foldl (fun m instr => instr.exec back callee m) m

theorem word_store64 (memory : Bytes) (address value : UInt64) :
    word (store64 memory address value) address.toNat 8 = value.toNat := by
  have short : value.toNat < 256 ^ 8 := value.toNat_lt
  rw [store64, word_putWord_same, Nat.mod_eq_of_lt short]

namespace Machine

theorem Words.load {memory : Bytes} {address : UInt64} (words : Words memory address.toNat (value :: values)) :
    load64 memory address = value := by
  rw [load64, words.1, UInt64.ofNat_toNat]

theorem words_append {memory : Bytes} : (values : List UInt64) → {address : Nat} →
    (Words memory address (values ++ more) ↔
      Words memory address values ∧ Words memory (address + 8 * values.length) more)
  | [], address => by simp [Words]
  | value :: values, address => by
    have length : address + 8 + 8 * values.length = address + 8 * (value :: values).length := by
      rw [List.length_cons]
      omega
    rw [List.cons_append, Words, Words, words_append values, length, and_assoc]

theorem Words.congr {memory memory' : Bytes} : {values : List UInt64} → {address : Nat} → Words memory address values →
    (∀ position, address ≤ position → position < address + 8 * values.length → memory' position = memory position) →
    Words memory' address values
  | [], _, _, _ => trivial
  | value :: values, address, words, same => by
    rw [List.length_cons] at same
    refine ⟨?_, Words.congr words.2 fun position above below => same position (by omega) (by omega)⟩
    rw [word_congr fun position above below => same position above (by omega)]
    exact words.1

theorem putWords_outside (values : List UInt64) : {memory : Bytes} → {address position : Nat} →
    (position < address ∨ address + 8 * values.length ≤ position) →
    putWords memory address values position = memory position := by
  induction values with
  | nil => exact fun _ => rfl
  | cons value values ih =>
    intro memory address position outside
    rw [List.length_cons] at outside
    rw [putWords, ih (by omega), putWord_outside _ _ (by omega)]

theorem putWords_words (values : List UInt64) : (memory : Bytes) → (address : Nat) →
    Words (putWords memory address values) address values := by
  induction values with
  | nil => exact fun _ _ => trivial
  | cons value values ih =>
    intro memory address
    have short : value.toNat < 256 ^ 8 := value.toNat_lt
    refine ⟨?_, ih _ _⟩
    rw [putWords, word_congr fun position _ below => putWords_outside values (.inl below), word_putWord_same,
      Nat.mod_eq_of_lt short]

section Stack

variable {ρ : Type} {m : Machine ρ}

theorem pushWord_rsp (room : 8 ≤ m.rsp.toNat) (value : UInt64) : (m.pushWord value).rsp.toNat = m.rsp.toNat - 8 :=
  UInt64.toNat_sub_of_le _ _ (UInt64.le_iff_toNat_le.mpr room)

theorem pushWord_above (room : 8 ≤ m.rsp.toNat) (value : UInt64) (above : m.rsp.toNat ≤ position) :
    (m.pushWord value).memory position = m.memory position := by
  have rsp : (m.rsp - 8).toNat = m.rsp.toNat - 8 := pushWord_rsp room value
  exact putWord_outside _ _ (.inr (by omega))

/-- The stack pointer over words that end below the top of memory. -/
theorem toNat_add_of_fits {rsp : UInt64} (size : UInt64) (fits : rsp.toNat + size.toNat < 18446744073709551616) :
    (rsp + size).toNat = rsp.toNat + size.toNat := by
  rw [UInt64.toNat_add, Nat.mod_eq_of_lt fits]

end Stack

end Machine

section Pushes

variable {ρ : Type} {m : Machine ρ}

/-- What a run of pushes did: the words are on the stack, everything from the old top
on is as it was, and no register has changed. -/
structure Pushed (m m' : Machine ρ) (values : List UInt64) : Prop where
  regs : m'.regs = m.regs
  rsp : m'.rsp.toNat + 8 * values.length = m.rsp.toNat
  words : Machine.Words m'.memory m'.rsp.toNat values
  above : ∀ position, m.rsp.toNat ≤ position → m'.memory position = m.memory position

namespace Pushed

theorem refl (m : Machine ρ) : Pushed m m [] := ⟨rfl, rfl, trivial, fun _ _ => rfl⟩

theorem pushWord (room : 8 ≤ m.rsp.toNat) (value : UInt64) : Pushed m (m.pushWord value) [value] where
  regs := rfl
  rsp := by
    rw [Machine.pushWord_rsp room, List.length_singleton]
    omega
  words := ⟨word_store64 _ _ _, trivial⟩
  above _ above := Machine.pushWord_above room value above

theorem trans {mid m' : Machine ρ} (second : Pushed mid m' more) (first : Pushed m mid values) :
    Pushed m m' (more ++ values) where
  regs := second.regs.trans first.regs
  rsp := by
    have below := first.rsp
    have above := second.rsp
    rw [List.length_append]
    omega
  words := by
    refine (Machine.words_append more).mpr ⟨second.words, ?_⟩
    rw [second.rsp]
    exact first.words.congr fun position above _ => second.above position above
  above position above := by
    rw [second.above position (by have := first.rsp; omega)]
    exact first.above position above

theorem pushAll (values : List UInt64) (room : 8 * values.length ≤ m.rsp.toNat) :
    Pushed m (m.pushAll values) values.reverse := by
  induction values generalizing m with
  | nil => exact Pushed.refl m
  | cons value values ih =>
    rw [List.length_cons] at room
    have first := Pushed.pushWord (m := m) (by omega) value
    have below := first.rsp
    rw [List.length_singleton] at below
    rw [List.reverse_cons]
    exact (ih (m := m.pushWord value) (by omega)).trans first

end Pushed

end Pushes

section Runs

variable {ρ : Type} [DecidableEq ρ] {back : UInt64} {callee : Machine ρ → Machine ρ} {m : Machine ρ}

@[simp] theorem execAll_nil : execAll back callee [] m = m := rfl

@[simp] theorem execAll_cons (instr : Instr ρ) (code : List (Instr ρ)) :
    execAll back callee (instr :: code) m = execAll back callee code (instr.exec back callee m) := rfl

theorem execAll_append (first second : List (Instr ρ)) :
    execAll back callee (first ++ second) m = execAll back callee second (execAll back callee first m) :=
  List.foldl_append

theorem execAll_pushes (order : List ρ) : execAll back callee (order.map .push) m = m.pushAll (order.map m.regs) := by
  induction order generalizing m with
  | nil => rfl
  | cons reg order ih =>
    rw [List.map_cons, execAll_cons, ih]
    rfl

/-- Registers restored from the stack get its words in their order, and the others keep
what they had. -/
theorem execAll_pops (order : List ρ) (saved : ρ → UInt64) (nodup : order.Nodup)
    (holds : Machine.Words m.memory m.rsp.toNat (order.map saved))
    (fits : m.rsp.toNat + 8 * order.length < 18446744073709551616) :
    execAll back callee (order.map .pop) m =
      ⟨fun reg => if reg ∈ order then saved reg else m.regs reg, m.rsp + UInt64.ofNat (8 * order.length), m.memory⟩ := by
  induction order generalizing m with
  | nil =>
    simp
  | cons reg order ih =>
    rw [List.length_cons] at fits
    have rsp : (m.rsp + 8).toNat = m.rsp.toNat + 8 := Machine.toNat_add_of_fits 8 (by change _ + 8 < _; omega)
    have popped : Instr.exec back callee (.pop reg) m =
        ⟨Function.update m.regs reg (saved reg), m.rsp + 8, m.memory⟩ := by
      rw [Instr.exec, Machine.top, Machine.Words.load holds]
    have total : m.rsp + 8 + UInt64.ofNat (8 * order.length) = m.rsp + UInt64.ofNat (8 * (order.length + 1)) := by
      rw [Nat.mul_add, UInt64.ofNat_add, UInt64.add_assoc, UInt64.add_comm 8]
      rfl
    have rest := ih (m := ⟨Function.update m.regs reg (saved reg), m.rsp + 8, m.memory⟩) nodup.of_cons
      (by rw [rsp]; exact holds.2) (by rw [rsp]; omega)
    rw [List.map_cons, execAll_cons, popped, rest, total, List.length_cons]
    refine congrArg (fun regs => Machine.mk regs _ _) (funext fun other => ?_)
    dsimp only
    by_cases here : other = reg
    · subst here
      rw [if_neg (List.nodup_cons.mp nodup).1, Function.update_self, if_pos List.mem_cons_self]
    · simp only [Function.update_of_ne here, List.mem_cons, here, false_or]

end Runs

end LivlyOS.Lib
