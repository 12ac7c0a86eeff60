import Mathlib.Algebra.GroupWithZero.Nat
import LivlyOS.Boot.MemoryCheck

/-! How stage 2 gets the memory map: entry by entry from `int 15h`, or from one of two older calls
that only tell how much memory there is. -/

namespace LivlyOS.Boot

open LivlyOS.Lib

/-- What a call of `int 15h` with EAX=E820h answers, and the entry that it stores. -/
structure E820Reply where
  carry : Bool
  eax : Nat
  ebx : Nat
  base : Nat
  length : Nat
  type : Nat
  attrib : Option Nat

/-- The calls of the firmware for the size of the memory; the answers to E820h are numbered. -/
structure Bios where
  e820 : Nat → E820Reply
  e801Carry : Bool
  e801Ax : Nat
  e801Cx : Nat
  int12Ax : Nat

/-- The carry flag is clear and EAX holds "SMAP". -/
def E820Reply.Succeeds (reply : E820Reply) : Prop := reply.carry = false ∧ reply.eax = 0x534D4150

instance (reply : E820Reply) : Decidable reply.Succeeds := inferInstanceAs (Decidable (_ ∧ _))

/-- The entry at ES:DI, of 20 or 24 bytes. -/
def storeReply (mem : Bytes) (edi : Nat) (reply : E820Reply) : Bytes :=
  let di := edi % 65536
  let mem := putWord mem di 8 reply.base
  let mem := putWord mem (di + 8) 8 reply.length
  let mem := putWord mem (di + 16) 4 reply.type
  match reply.attrib with
  | none => mem
  | some attrib => putWord mem (di + 20) 4 attrib

/-- The memory and the registers of `getE820map`, with the number of calls so far. -/
structure MapRead where
  mem : Bytes
  edi : Nat
  bp : Nat
  calls : Nat

/-- `inc bp` and `add edi, 24` behind a call. -/
def MapRead.take (st : MapRead) (reply : E820Reply) : MapRead :=
  ⟨storeReply st.mem st.edi reply, u32 (st.edi + 24), (st.bp + 1) % 65536, st.calls + 1⟩

/-- `.analyse` -/
def analyse (st : MapRead) : Bytes × E820Outcome :=
  let mem := putWord st.mem e820Count 2 st.bp
  let mem := putWord mem bootInfo 2 st.bp
  let mem := putWord mem (bootInfo + 2) 4 e820Buffer
  let mem := putWord mem (bootInfo + 11) 4 0x100000
  let mem := putWord mem (bootInfo + 10) 1 0x01
  analyseE820Map mem

/-- `mov dword` to one address after the other. -/
def storeDwords (mem : Bytes) (address : Nat) : List Nat → Bytes
  | [] => mem
  | value :: rest => storeDwords (putWord mem address 4 value) (address + 4) rest

/-- The number of entries and the flag for where they come from. -/
def storeSource (mem : Bytes) (count flag : Nat) : Bytes :=
  let mem := putWord mem e820Count 2 count
  let mem := putWord mem bootInfo 2 count
  putWord mem (bootInfo + 10) 1 (word mem (bootInfo + 10) 1 ||| flag)

def fallbackInt12 (bios : Bios) (mem : Bytes) : Bytes × E820Outcome :=
  let mem := storeDwords mem e820Buffer [0, 0, bios.int12Ax % 65536 * 1024, 0, 1, 1]
  analyseE820Map (storeSource mem 1 0x04)

/-- The register with the memory above one megabyte. -/
def Bios.highKb (bios : Bios) : Nat := (if bios.e801Ax % 65536 = 0 then bios.e801Cx else bios.e801Ax) % 65536

def fallbackE801 (bios : Bios) (mem : Bytes) : Bytes × E820Outcome :=
  if bios.e801Carry then fallbackInt12 bios mem
  else
    let mem := storeDwords mem e820Buffer [0, 0, 0x9F000, 0, 1, 1, 0x100000, 0, bios.highKb * 1024, 0, 1, 1]
    analyseE820Map (storeSource mem 2 0x02)

/-- `.loop`; nothing when the firmware goes on for longer. -/
def e820Loop (bios : Bios) : (fuel : Nat) → MapRead → Option (Bytes × E820Outcome)
  | 0, _ => none
  | fuel + 1, st =>
    let reply := bios.e820 st.calls
    if ¬reply.Succeeds then
      -- .loop_ende
      if st.bp = 0 then some (fallbackE801 bios st.mem) else some (analyse st)
    else if reply.ebx = 0 then some (analyse (st.take reply))
    else e820Loop bios fuel (st.take reply)

def getE820map (bios : Bios) (fuel : Nat) (mem : Bytes) : Option (Bytes × E820Outcome) :=
  let st : MapRead := ⟨mem, e820Buffer, 0, 0⟩
  let reply := bios.e820 0
  if ¬reply.Succeeds then some (fallbackE801 bios mem)
  else if reply.ebx = 0 then some (analyse (st.take reply))
  else e820Loop bios fuel (st.take reply)

/-- The memory in KB as the check adds it up, from the low halves of the lengths. -/
def lowKb (entries : List E820Entry) : Nat :=
  (entries.map fun entry => if entry.type = 1 then entry.length % 2 ^ 32 / 1024 else 0).sum

def freeEntries (entries : List E820Entry) : Nat := entries.countP fun entry => entry.type = 1

theorem lowKb_cons (entry : E820Entry) (rest : List E820Entry) :
    lowKb (entry :: rest) = (if entry.type = 1 then entry.length % 2 ^ 32 / 1024 else 0) + lowKb rest := by
  rw [lowKb, List.map_cons, List.sum_cons, lowKb]

theorem freeEntries_cons (entry : E820Entry) (rest : List E820Entry) :
    freeEntries (entry :: rest) = (if entry.type = 1 then 1 else 0) + freeEntries rest := by
  rw [freeEntries, List.countP_cons, freeEntries, Nat.add_comm]
  simp only [decide_eq_true_eq]

theorem checkEntry_sums (st : ScanState) (stores : StoresEntry st.mem st.esi entry) (small : st.edx < 2 ^ 32) (few : st.di < 65536) :
    (checkEntry st).edx = u32 (st.edx + if entry.type = 1 then entry.length % 2 ^ 32 / 1024 else 0) ∧
      (checkEntry st).di = (st.di + if entry.type = 1 then 1 else 0) % 65536 := by
  obtain ⟨_, length, type⟩ := stores
  have size := lowHalf st.mem (st.esi + 8)
  rw [length] at size
  unfold checkEntry
  rw [type]
  by_cases ram : entry.type = 1
  · rw [if_neg (not_not_intro ram), if_pos ram, if_pos ram]
    dsimp only
    rw [size]
    split_ifs <;> exact ⟨rfl, rfl⟩
  · rw [if_pos ram, if_neg ram, if_neg ram]
    exact ⟨(u32_of_lt small).symm, (Nat.mod_eq_of_lt few).symm⟩

/-- What the loop counts, and the one byte that it writes. -/
theorem scanEntries_sums (entries : List E820Entry) (st : ScanState) (stores : StoresEntries st.mem st.esi entries)
    (behind : bootInfo + 16 ≤ st.esi) (small : st.edx < 2 ^ 32) (few : st.di < 65536) :
    (scanEntries entries.length st).edx = u32 (st.edx + lowKb entries) ∧
      (scanEntries entries.length st).di = (st.di + freeEntries entries) % 65536 ∧
      ∀ position, position ≠ bootInfo + 15 → (scanEntries entries.length st).mem position = st.mem position := by
  induction entries generalizing st with
  | nil => exact ⟨(u32_of_lt small).symm, (Nat.mod_eq_of_lt few).symm, fun _ _ => rfl⟩
  | cons entry rest ih =>
    obtain ⟨first, later⟩ := stores
    obtain ⟨written, same⟩ := checkEntry_mem st first
    obtain ⟨edx, di⟩ := checkEntry_sums st first small few
    have kept : ∀ position, position ≠ bootInfo + 15 → (checkEntry st).mem position = st.mem position := by
      intro position other
      rw [written]
      split
      · exact putWord_outside st.mem 1 (by omega)
      · rfl
    obtain ⟨sum, count, frame⟩ := ih { checkEntry st with esi := (checkEntry st).esi + 24 }
      (by rw [same]; exact later.congr fun position above => kept position (by omega))
      (by rw [same]; exact Nat.le_trans behind (Nat.le_add_right _ _))
      (by rw [edx]; exact Nat.mod_lt _ (by decide)) (by rw [di]; exact Nat.mod_lt _ (by decide))
    refine ⟨?_, ?_, fun position other => (frame position other).trans (kept position other)⟩
    · rw [List.length_cons, scanEntries, sum]
      dsimp only
      rw [edx, lowKb_cons, ← Nat.add_assoc]
      exact Nat.mod_add_mod _ _ _
    · rw [List.length_cons, scanEntries, count]
      dsimp only
      rw [di, freeEntries_cons, ← Nat.add_assoc]
      exact Nat.mod_add_mod _ _ _

/-- The check lets a map pass when it has an entry for the kernel and memory enough, and stores the memory. -/
theorem analyseE820Map_spec {entries : List E820Entry} (stored : StoresMap mem entries) (more : entries ≠ [])
    (few : entries.length < 65536) :
    ((analyseE820Map mem).2 = .returns ↔ (∃ entry ∈ entries, PassesCheck entry) ∧ 1024 ≤ u32 (lowKb entries)) ∧
      word (analyseE820Map mem).1 (bootInfo + 6) 4 = u32 (lowKb entries) ∧
      ∀ position, (position < bootInfo + 6 ∨ bootInfo + 10 ≤ position) → position ≠ bootInfo + 15 →
        (analyseE820Map mem).1 position = mem position := by
  have flag := analyseE820Map_flag stored more
  obtain ⟨count, stores⟩ := stored
  have low : bootInfo + 16 ≤ e820Buffer := by decide
  have cleared : ∀ position, position ≠ bootInfo + 15 → putWord mem (bootInfo + 15) 1 0 position = mem position :=
    fun position other => putWord_outside mem 0 (by omega)
  have same : word (putWord mem (bootInfo + 15) 1 0) e820Count 2 = entries.length :=
    (word_putWord_other mem 0 (by decide)).trans count
  obtain ⟨edx, di, frame⟩ := scanEntries_sums entries ⟨putWord mem (bootInfo + 15) 1 0, 0, e820Buffer, 0⟩
    (stores.congr fun position above => cleared position (by omega)) low (Nat.two_pow_pos 32) (Nat.succ_pos 65535)
  unfold analyseE820Map at flag ⊢
  dsimp only at flag edx di frame ⊢
  rw [same, if_neg (fun empty => more (List.length_eq_zero_iff.mp empty))] at flag ⊢
  generalize scanEntries entries.length ⟨putWord mem (bootInfo + 15) 1 0, 0, e820Buffer, 0⟩ = st at flag edx di frame ⊢
  rw [Nat.zero_add] at edx di
  refine ⟨?_, ?_, fun position outside other => ?_⟩
  · have some : (∃ entry ∈ entries, PassesCheck entry) → st.di ≠ 0 := by
      rintro ⟨entry, member, passes⟩
      have positive : 0 < freeEntries entries := List.countP_pos_iff.mpr ⟨entry, member, decide_eq_true passes.1⟩
      have most : freeEntries entries ≤ entries.length := List.countP_le_length
      rw [di, Nat.mod_eq_of_lt (by omega)]
      omega
    rw [judgeMap, ← edx, ← flag, memOkFlag]
    constructor
    · intro returns
      split_ifs at returns with none unset little
      · exact ⟨not_not.mp unset, by omega⟩
    · rintro ⟨set, enough⟩
      rw [if_neg (some (flag.mp set)), if_neg (not_not_intro set), if_neg (by omega)]
  · rw [word_putWord_same, edx]
    exact Nat.mod_mod _ _
  · rw [← cleared position other, ← frame position other]
    exact putWord_outside _ _ outside

/-- A call stores the entry. -/
def E820Reply.Delivers (reply : E820Reply) (entry : E820Entry) : Prop :=
  reply.Succeeds ∧ reply.base = entry.base ∧ reply.length = entry.length ∧ reply.type = entry.type ∧ entry.type < 2 ^ 32

/-- From a call on the firmware delivers these entries. It ends with EBX = 0 or with a call that fails. -/
inductive Bios.Answers (bios : Bios) : (call : Nat) → List E820Entry → Prop
  | last (delivers : (bios.e820 call).Delivers entry)
      (ends : (bios.e820 call).ebx = 0 ∨ ¬(bios.e820 (call + 1)).Succeeds) : bios.Answers call [entry]
  | next (delivers : (bios.e820 call).Delivers entry) (more : (bios.e820 call).ebx ≠ 0)
      (answers : bios.Answers (call + 1) rest) : bios.Answers call (entry :: rest)

theorem StoresEntry.near (stores : StoresEntry mem address entry)
    (same : ∀ position, address ≤ position → position < address + 24 → mem' position = mem position) :
    StoresEntry mem' address entry := by
  obtain ⟨base, length, type⟩ := stores
  refine ⟨?_, ?_, ?_⟩
  · rw [← base]
    exact word_congr fun position above below => same position above (by omega)
  · rw [← length]
    exact word_congr fun position above below => same position (by omega) (by omega)
  · rw [← type]
    exact word_congr fun position above below => same position (by omega) (by omega)

/-- Entries stay where nothing is written over them. -/
theorem StoresEntries.near {entries : List E820Entry} (stores : StoresEntries mem address entries)
    (same : ∀ position, address ≤ position → position < address + 24 * entries.length → mem' position = mem position) :
    StoresEntries mem' address entries := by
  induction entries generalizing address with
  | nil => trivial
  | cons entry rest ih =>
    rw [List.length_cons] at same
    exact ⟨stores.1.near fun position above below => same position above (by omega),
      ih stores.2 fun position above below => same position (by omega) (by omega)⟩

theorem StoresEntries.append {entries : List E820Entry} (stores : StoresEntries mem address entries)
    (one : StoresEntry mem (address + 24 * entries.length) entry) : StoresEntries mem address (entries ++ [entry]) := by
  induction entries generalizing address with
  | nil => exact ⟨one, trivial⟩
  | cons first rest ih =>
    refine ⟨stores.1, ih stores.2 ?_⟩
    rw [List.length_cons] at one
    rwa [show address + 24 + 24 * rest.length = address + 24 * (rest.length + 1) by omega]

theorem storeReply_outside (mem : Bytes) (reply : E820Reply) (segment : edi < 65536)
    (outside : position < edi ∨ edi + 24 ≤ position) : storeReply mem edi reply position = mem position := by
  rw [storeReply, Nat.mod_eq_of_lt segment]
  cases reply.attrib with
  | none =>
    dsimp only
    rw [putWord_outside _ _ (by omega), putWord_outside _ _ (by omega), putWord_outside _ _ (by omega)]
  | some attrib =>
    dsimp only
    rw [putWord_outside _ _ (by omega), putWord_outside _ _ (by omega), putWord_outside _ _ (by omega),
      putWord_outside _ _ (by omega)]

theorem storeReply_stores (mem : Bytes) (segment : edi < 65536) (delivers : reply.Delivers entry) :
    StoresEntry (storeReply mem edi reply) edi entry := by
  obtain ⟨_, base, length, type, small⟩ := delivers
  have noWrap := entry.noWrap
  let whole := putWord (putWord (putWord mem edi 8 reply.base) (edi + 8) 8 reply.length) (edi + 16) 4 reply.type
  have stored : StoresEntry whole edi entry := by
    refine ⟨?_, ?_, ?_⟩
    · rw [word_putWord_other _ _ (by omega), word_putWord_other _ _ (by omega), word_putWord_same, base]
      exact Nat.mod_eq_of_lt (by omega)
    · rw [word_putWord_other _ _ (by omega), word_putWord_same, length]
      exact Nat.mod_eq_of_lt (by omega)
    · rw [word_putWord_same, type]
      exact Nat.mod_eq_of_lt small
  rw [storeReply, Nat.mod_eq_of_lt segment]
  cases reply.attrib with
  | none => exact stored
  | some attrib =>
    obtain ⟨base, length, type⟩ := stored
    exact ⟨(word_putWord_other _ _ (by omega)).trans base, (word_putWord_other _ _ (by omega)).trans length,
      (word_putWord_other _ _ (by omega)).trans type⟩

/-- The entries so far are in the buffer. -/
structure MapRead.Holds (st : MapRead) (before : Bytes) (entries : List E820Entry) : Prop where
  edi : st.edi = e820Buffer + 24 * entries.length
  bp : st.bp = entries.length
  calls : st.calls = entries.length
  stores : StoresEntries st.mem e820Buffer entries
  frame : ∀ position, position < e820Buffer ∨ 65536 ≤ position → st.mem position = before position

theorem MapRead.Holds.take {st : MapRead} {reply : E820Reply} {entries : List E820Entry} (holds : st.Holds before entries) (delivers : reply.Delivers entry)
    (room : entries.length < 1194) : (st.take reply).Holds before (entries ++ [entry]) := by
  obtain ⟨edi, bp, calls, stores, frame⟩ := holds
  have low : e820Buffer = 0x9000 := rfl
  have segment : e820Buffer + 24 * entries.length < 65536 := by omega
  refine ⟨?_, ?_, ?_, ?_, fun position outside => ?_⟩
  · rw [MapRead.take, edi, List.length_append, List.length_singleton]
    exact (u32_of_lt (by omega)).trans (by omega)
  · rw [MapRead.take, bp, List.length_append, List.length_singleton]
    exact Nat.mod_eq_of_lt (by omega)
  · rw [MapRead.take, calls, List.length_append, List.length_singleton]
  · rw [MapRead.take, edi]
    exact (stores.near fun position _ below => storeReply_outside _ _ segment (.inl below)).append
      (storeReply_stores _ segment delivers)
  · rw [MapRead.take, edi]
    exact (storeReply_outside _ _ segment (by omega)).trans (frame position outside)

theorem MapRead.Holds.start (mem : Bytes) : MapRead.Holds ⟨mem, e820Buffer, 0, 0⟩ mem [] :=
  ⟨rfl, rfl, rfl, trivial, fun _ _ => rfl⟩

/-- The loop takes all entries that the firmware delivers. -/
theorem e820Loop_reads (answers : bios.Answers call entries) (fuel : Nat) {st : MapRead} {done : List E820Entry}
    (holds : st.Holds before done) (now : call = done.length) (few : done.length + entries.length ≤ 1194)
    (enough : entries.length < fuel) :
    ∃ st' : MapRead, e820Loop bios fuel st = some (analyse st') ∧ st'.Holds before (done ++ entries) := by
  induction answers generalizing fuel st done with
  | @last call entry delivers ends =>
    obtain ⟨fuel, rfl⟩ : ∃ less, fuel = less + 2 := ⟨fuel - 2, by rw [List.length_singleton] at enough; omega⟩
    rw [List.length_singleton] at few
    have taken := holds.take delivers (by omega)
    refine ⟨st.take (bios.e820 call), ?_, taken⟩
    have first : bios.e820 st.calls = bios.e820 call := by rw [holds.calls, now]
    have second : bios.e820 (st.take (bios.e820 call)).calls = bios.e820 (call + 1) := by
      rw [taken.calls, List.length_append, List.length_singleton, now]
    have some : (st.take (bios.e820 call)).bp ≠ 0 := by
      rw [taken.bp, List.length_append, List.length_singleton]
      exact Nat.succ_ne_zero _
    rw [e820Loop]
    rw [first, if_neg (not_not_intro delivers.1)]
    split
    · rfl
    · next more =>
      rw [e820Loop]
      rw [second, if_pos (ends.resolve_left more), if_neg some]
  | @next call entry rest delivers more answers ih =>
    obtain ⟨fuel, rfl⟩ : ∃ less, fuel = less + 1 := ⟨fuel - 1, by rw [List.length_cons] at enough; omega⟩
    rw [List.length_cons] at few enough
    have first : bios.e820 st.calls = bios.e820 call := by rw [holds.calls, now]
    obtain ⟨st', runs, all⟩ := ih fuel (holds.take delivers (by omega))
      (by rw [List.length_append, List.length_singleton, now]) (by rw [List.length_append, List.length_singleton]; omega)
      (by omega)
    refine ⟨st', ?_, ?_⟩
    · rw [e820Loop]
      rw [first, if_neg (not_not_intro delivers.1), if_neg more]
      exact runs
    · rwa [List.append_assoc] at all

/-- What the kernel finds in BOOT_INFO and in the buffer; the rest of the memory is as before. -/
structure MapStored (before : Bytes) (source address : Nat) (entries : List E820Entry) (mem : Bytes) : Prop where
  count : word mem bootInfo 2 = entries.length
  address : word mem (bootInfo + 2) 4 = address
  total : word mem (bootInfo + 6) 4 = u32 (lowKb entries)
  source : word mem (bootInfo + 10) 1 = source
  memOk : memOkFlag mem = 1 ↔ ∃ entry ∈ entries, PassesCheck entry
  entries : StoresEntries mem e820Buffer entries
  frame : ∀ position, (position < bootInfo ∨ bootInfo + 16 ≤ position) → (position < e820Count ∨ 65536 ≤ position) →
    mem position = before position

/-- The map is good enough for stage 2. -/
def PassesMap (entries : List E820Entry) : Prop := (∃ entry ∈ entries, PassesCheck entry) ∧ 1024 ≤ u32 (lowKb entries)

theorem StoresMap.analysed {entries : List E820Entry} (stored : StoresMap mem entries) (more : entries ≠ [])
    (few : entries.length ≤ 1194) (count : word mem bootInfo 2 = entries.length)
    (outside : ∀ position, (position < bootInfo ∨ bootInfo + 16 ≤ position) → (position < e820Count ∨ 65536 ≤ position) →
      mem position = before position) :
    MapStored before (word mem (bootInfo + 10) 1) (word mem (bootInfo + 2) 4) entries (analyseE820Map mem).1 ∧
      ((analyseE820Map mem).2 = .returns ↔ PassesMap entries) := by
  have info : bootInfo = 0x8F00 := rfl
  have buffer : e820Buffer = 0x9000 := rfl
  obtain ⟨returns, total, frame⟩ := analyseE820Map_spec stored more (by omega)
  have kept : ∀ address size, (address + size ≤ bootInfo + 6 ∨ bootInfo + 10 ≤ address) →
      (address + size ≤ bootInfo + 15 ∨ bootInfo + 16 ≤ address) → word (analyseE820Map mem).1 address size = word mem address size :=
    fun address size beside off => word_congr fun position above below => frame position (by omega) (by omega)
  refine ⟨⟨?_, ?_, total, ?_, analyseE820Map_flag stored more, ?_, fun position beside off => ?_⟩, returns⟩
  · rw [kept _ _ (by omega) (by omega), count]
  · rw [kept _ _ (by omega) (by omega)]
  · rw [kept _ _ (by omega) (by omega)]
  · exact stored.2.near fun position above _ => frame position (by omega) (by omega)
  · rw [frame position (by omega) (by omega), outside position beside off]

theorem MapRead.Holds.analyse {st : MapRead} {entries : List E820Entry} (holds : st.Holds before entries)
    (more : entries ≠ []) (few : entries.length ≤ 1194) :
    MapStored before 0x01 e820Buffer entries (analyse st).1 ∧ ((Boot.analyse st).2 = .returns ↔ PassesMap entries) := by
  have info : bootInfo = 0x8F00 := rfl
  have countAt : e820Count = 0x8FFE := rfl
  have buffer : e820Buffer = 0x9000 := rfl
  rw [Boot.analyse]
  generalize filled : putWord (putWord (putWord (putWord (putWord st.mem e820Count 2 st.bp) bootInfo 2 st.bp) (bootInfo + 2) 4
    e820Buffer) (bootInfo + 11) 4 0x100000) (bootInfo + 10) 1 0x01 = mem
  have outside : ∀ position, (position < bootInfo ∨ bootInfo + 16 ≤ position) → (position < e820Count ∨ e820Count + 2 ≤ position) →
      mem position = st.mem position := by
    intro position beside off
    rw [← filled, putWord_outside _ _ (by omega), putWord_outside _ _ (by omega), putWord_outside _ _ (by omega),
      putWord_outside _ _ (by omega), putWord_outside _ _ (by omega)]
  have length : st.bp % 256 ^ 2 = entries.length := by
    rw [holds.bp]
    exact Nat.mod_eq_of_lt (by omega)
  have stored : StoresMap mem entries := by
    refine ⟨?_, holds.stores.near fun position above _ => outside position (by omega) (by omega)⟩
    rw [← filled, word_putWord_other _ _ (by decide), word_putWord_other _ _ (by decide), word_putWord_other _ _ (by decide),
      word_putWord_other _ _ (by decide), word_putWord_same, length]
  have count : word mem bootInfo 2 = entries.length := by
    rw [← filled, word_putWord_other _ _ (by decide), word_putWord_other _ _ (by decide), word_putWord_other _ _ (by decide),
      word_putWord_same, length]
  have address : word mem (bootInfo + 2) 4 = e820Buffer := by
    rw [← filled, word_putWord_other _ _ (by decide), word_putWord_other _ _ (by decide), word_putWord_same]
    rfl
  have source : word mem (bootInfo + 10) 1 = 0x01 := by
    rw [← filled, word_putWord_same]
    rfl
  have frame : ∀ position, (position < bootInfo ∨ bootInfo + 16 ≤ position) → (position < e820Count ∨ 65536 ≤ position) →
      mem position = before position := fun position beside off =>
    (outside position beside (by omega)).trans (holds.frame position (by omega))
  have result := stored.analysed more few count frame
  rwa [address, source] at result

theorem Bios.Answers.nonempty {bios : Bios} (answers : bios.Answers call entries) : entries ≠ [] := by
  cases answers <;> exact List.cons_ne_nil _ _

/-- For a firmware with E820h the map is the one that it delivers. -/
theorem getE820map_reads {entries : List E820Entry} (mem : Bytes) (answers : bios.Answers 0 entries)
    (few : entries.length ≤ 1194) (enough : entries.length ≤ fuel) :
    ∃ out outcome, getE820map bios fuel mem = some (out, outcome) ∧ MapStored mem 0x01 e820Buffer entries out ∧
      (outcome = .returns ↔ PassesMap entries) := by
  obtain ⟨st, runs, holds⟩ := e820Loop_reads answers (fuel + 1) (.start mem) rfl (by rw [List.length_nil]; omega) (by omega)
  have first : (bios.e820 0).Succeeds := by
    cases answers with
    | last delivers => exact delivers.1
    | next delivers => exact delivers.1
  have same : getE820map bios fuel mem = e820Loop bios (fuel + 1) ⟨mem, e820Buffer, 0, 0⟩ := by
    rw [getE820map, e820Loop]
    dsimp only
    rw [if_neg (not_not_intro first), if_neg (not_not_intro first)]
  rw [List.nil_append] at holds
  obtain ⟨stored, returns⟩ := holds.analyse answers.nonempty few
  exact ⟨_, _, same.trans runs, stored, returns⟩

theorem storeDwords_outside (mem : Bytes) (values : List Nat)
    (outside : position < address ∨ address + 4 * values.length ≤ position) :
    storeDwords mem address values position = mem position := by
  induction values generalizing mem address with
  | nil => rfl
  | cons value rest ih =>
    rw [List.length_cons] at outside
    rw [storeDwords, ih _ (by omega), putWord_outside _ _ (by omega)]

theorem word_storeDwords (mem : Bytes) (address : Nat) (values : List Nat) (inside : index < values.length) :
    word (storeDwords mem address values) (address + 4 * index) 4 = u32 (values[index]) := by
  induction values generalizing mem address index with
  | nil => exact absurd inside (Nat.not_lt_zero _)
  | cons value rest ih =>
    cases index with
    | zero =>
      have same : word (storeDwords mem address (value :: rest)) (address + 4 * 0) 4 = word (putWord mem address 4 value) address 4 :=
        word_congr fun position _ below => storeDwords_outside _ _ (.inl (by omega))
      rw [same, word_putWord_same]
      rfl
    | succ index =>
      rw [List.length_cons] at inside
      rw [show address + 4 * (index + 1) = address + 4 + 4 * index by omega, storeDwords, ih _ _ (by omega),
        List.getElem_cons_succ]

theorem StoresEntry.of_dwords (base : word mem address 4 = low) (baseHigh : word mem (address + 4) 4 = 0)
    (length : word mem (address + 8) 4 = size) (lengthHigh : word mem (address + 12) 4 = 0)
    (type : word mem (address + 16) 4 = kind) (noWrap : low + size < 2 ^ 64) : StoresEntry mem address ⟨low, size, kind, noWrap⟩ := by
  refine ⟨?_, ?_, type⟩
  · rw [show word mem address 8 = word mem address 4 + 256 ^ 4 * word mem (address + 4) 4 from word_append mem address 4 4, base,
      baseHigh, Nat.mul_zero, Nat.add_zero]
  · rw [show word mem (address + 8) 8 = word mem (address + 8) 4 + 256 ^ 4 * word mem (address + 12) 4 from
      word_append mem (address + 8) 4 4, length, lengthHigh, Nat.mul_zero, Nat.add_zero]

/-- The memory up to the amount that `int 12h` tells. -/
def int12Entry (bios : Bios) : E820Entry := ⟨0, bios.int12Ax % 65536 * 1024, 1, by omega⟩

/-- The conventional memory, and the memory above one megabyte. -/
def e801Entries (bios : Bios) : List E820Entry :=
  [⟨0, 0x9F000, 1, by decide⟩, ⟨0x100000, bios.highKb * 1024, 1, by unfold Bios.highKb; omega⟩]

/-- The entries that take the place of the map. -/
def fallbackEntries (bios : Bios) : List E820Entry := if bios.e801Carry then [int12Entry bios] else e801Entries bios

theorem storeSource_spec (mem : Bytes) (flag : Nat) (few : count < 65536) :
    word (storeSource mem count flag) e820Count 2 = count ∧ word (storeSource mem count flag) bootInfo 2 = count ∧
      word (storeSource mem count flag) (bootInfo + 2) 4 = word mem (bootInfo + 2) 4 ∧
      word (storeSource mem count flag) (bootInfo + 10) 1 = (word mem (bootInfo + 10) 1 ||| flag) % 256 ∧
      ∀ position, (position < bootInfo ∨ bootInfo + 16 ≤ position) → (position < e820Count ∨ e820Buffer ≤ position) →
        storeSource mem count flag position = mem position := by
  have info : bootInfo = 0x8F00 := rfl
  have countAt : e820Count = 0x8FFE := rfl
  have buffer : e820Buffer = 0x9000 := rfl
  have source : word (putWord (putWord mem e820Count 2 count) bootInfo 2 count) (bootInfo + 10) 1 = word mem (bootInfo + 10) 1 := by
    rw [word_putWord_other _ _ (by decide), word_putWord_other _ _ (by decide)]
  rw [storeSource, source]
  refine ⟨?_, ?_, ?_, word_putWord_same .., fun position beside off => ?_⟩
  · rw [word_putWord_other _ _ (by decide), word_putWord_other _ _ (by decide), word_putWord_same]
    exact Nat.mod_eq_of_lt few
  · rw [word_putWord_other _ _ (by decide), word_putWord_same]
    exact Nat.mod_eq_of_lt few
  · rw [word_putWord_other _ _ (by decide), word_putWord_other _ _ (by decide), word_putWord_other _ _ (by decide)]
  · rw [putWord_outside _ _ (by omega), putWord_outside _ _ (by omega), putWord_outside _ _ (by omega)]

/-- The flag in BOOT_INFO for an older call. -/
def fallbackFlag (bios : Bios) : Nat := if bios.e801Carry then 0x04 else 0x02

/-- A stored list of dwords is the map of some entries. -/
theorem storedDwords_analysed (mem : Bytes) (values : List Nat) (flag : Nat) {entries : List E820Entry} (more : entries ≠ [])
    (few : entries.length ≤ 1194) (short : values.length = 6 * entries.length)
    (stores : StoresEntries (storeDwords mem e820Buffer values) e820Buffer entries) :
    let out := analyseE820Map (storeSource (storeDwords mem e820Buffer values) entries.length flag)
    MapStored mem ((word mem (bootInfo + 10) 1 ||| flag) % 256) (word mem (bootInfo + 2) 4) entries out.1 ∧
      (out.2 = .returns ↔ PassesMap entries) := by
  have info : bootInfo = 0x8F00 := rfl
  have countAt : e820Count = 0x8FFE := rfl
  have buffer : e820Buffer = 0x9000 := rfl
  obtain ⟨counted, count, address, source, frame⟩ :=
    storeSource_spec (storeDwords mem e820Buffer values) flag (by omega : entries.length < 65536)
  have below : ∀ position, position < e820Buffer → storeDwords mem e820Buffer values position = mem position :=
    fun position low => storeDwords_outside _ _ (.inl low)
  have stored : StoresMap (storeSource (storeDwords mem e820Buffer values) entries.length flag) entries :=
    ⟨counted, stores.near fun position above _ => frame position (by omega) (.inr above)⟩
  have outside : ∀ position, (position < bootInfo ∨ bootInfo + 16 ≤ position) → (position < e820Count ∨ 65536 ≤ position) →
      storeSource (storeDwords mem e820Buffer values) entries.length flag position = mem position := by
    intro position beside off
    rw [frame position beside (by omega), storeDwords_outside _ _ (by omega)]
  have result := stored.analysed more few count outside
  rwa [address, source, word_congr fun position _ inside => below position (by omega),
    word_congr fun position _ inside => below position (by omega)] at result

theorem fallbackInt12_spec (bios : Bios) (mem : Bytes) :
    MapStored mem ((word mem (bootInfo + 10) 1 ||| 0x04) % 256) (word mem (bootInfo + 2) 4) [int12Entry bios]
        (fallbackInt12 bios mem).1 ∧
      ((fallbackInt12 bios mem).2 = .returns ↔ PassesMap [int12Entry bios]) := by
  let values := [0, 0, bios.int12Ax % 65536 * 1024, 0, 1, 1]
  have read : ∀ index (inside : index < 6), word (storeDwords mem e820Buffer values) (e820Buffer + 4 * index) 4 = u32 values[index] :=
    fun index inside => word_storeDwords mem e820Buffer values inside
  have length : u32 (bios.int12Ax % 65536 * 1024) = bios.int12Ax % 65536 * 1024 := u32_of_lt (by omega)
  have stores : StoresEntry (storeDwords mem e820Buffer values) e820Buffer (int12Entry bios) :=
    .of_dwords (read 0 (by decide)) (read 1 (by decide)) ((read 2 (by decide)).trans length) (read 3 (by decide))
      (read 4 (by decide)) _
  exact storedDwords_analysed mem values 0x04 (List.cons_ne_nil _ _) (Nat.le_of_ble_eq_true rfl) rfl ⟨stores, trivial⟩

theorem fallbackE801_spec (bios : Bios) (mem : Bytes) :
    MapStored mem ((word mem (bootInfo + 10) 1 ||| fallbackFlag bios) % 256) (word mem (bootInfo + 2) 4) (fallbackEntries bios)
        (fallbackE801 bios mem).1 ∧
      ((fallbackE801 bios mem).2 = .returns ↔ PassesMap (fallbackEntries bios)) := by
  unfold fallbackFlag fallbackEntries fallbackE801
  split
  · exact fallbackInt12_spec bios mem
  · let values := [0, 0, 0x9F000, 0, 1, 1, 0x100000, 0, bios.highKb * 1024, 0, 1, 1]
    have read : ∀ index (inside : index < 12), word (storeDwords mem e820Buffer values) (e820Buffer + 4 * index) 4 = u32 values[index] :=
      fun index inside => word_storeDwords mem e820Buffer values inside
    have length : u32 (bios.highKb * 1024) = bios.highKb * 1024 := u32_of_lt (by unfold Bios.highKb; omega)
    have low : StoresEntry (storeDwords mem e820Buffer values) e820Buffer ⟨0, 0x9F000, 1, by decide⟩ :=
      .of_dwords (read 0 (by decide)) (read 1 (by decide)) (read 2 (by decide)) (read 3 (by decide)) (read 4 (by decide)) _
    have high : StoresEntry (storeDwords mem e820Buffer values) (e820Buffer + 24)
        ⟨0x100000, bios.highKb * 1024, 1, by unfold Bios.highKb; omega⟩ :=
      .of_dwords (read 6 (by decide)) (read 7 (by decide)) ((read 8 (by decide)).trans length) (read 9 (by decide))
        (read 10 (by decide)) _
    exact storedDwords_analysed mem values 0x02 (List.cons_ne_nil _ _) (Nat.le_of_ble_eq_true rfl) rfl ⟨low, high, trivial⟩

/-- Without E820h stage 2 goes on from 388 KB above one megabyte on; `int 12h` would have to tell more than a megabyte. -/
theorem fallback_passes_iff (bios : Bios) :
    PassesMap (fallbackEntries bios) ↔ if bios.e801Carry then 1025 ≤ bios.int12Ax % 65536 else 388 ≤ bios.highKb := by
  unfold PassesMap fallbackEntries
  split
  · have small : bios.int12Ax % 65536 < 65536 := Nat.mod_lt _ (by decide)
    generalize amount : bios.int12Ax % 65536 = kb at small
    simp only [List.mem_singleton, exists_eq_left, PassesCheck, int12Entry, lowKb, List.map_cons, List.map_nil, List.sum_cons,
      List.sum_nil, amount, if_true, true_and, u32]
    omega
  · have small : bios.highKb < 65536 := Nat.mod_lt _ (by decide)
    simp only [e801Entries, List.mem_cons, List.not_mem_nil, or_false, exists_eq_or_imp, exists_eq_left, PassesCheck, lowKb,
      List.map_cons, List.map_nil, List.sum_cons, List.sum_nil, if_true, true_and, u32]
    omega

end LivlyOS.Boot
