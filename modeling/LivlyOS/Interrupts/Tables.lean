import LivlyOS.Lib.Bytes

namespace LivlyOS.Interrupts

open LivlyOS.Lib

/-- `idt` is given as the memory from its first entry on. -/
def idtSetEntry (index : UInt8) (handlerAddr : UInt64) (flags : UInt8) (idt : Bytes) : Bytes :=
  let entry := index.toNat * 16
  let idt := putWord idt (entry + 2) 2 0x08
  let idt := putWord idt (entry + 4) 1 0
  let idt := putWord idt (entry + 12) 4 0
  let idt := putWord idt (entry + 5) 1 flags.toNat
  let idt := putWord idt entry 2 (handlerAddr &&& 0xFFFF).toNat
  let idt := putWord idt (entry + 6) 2 ((handlerAddr >>> 16) &&& 0xFFFF).toNat
  putWord idt (entry + 8) 4 (handlerAddr >>> 32).toNat

/-- The loop of `idt_init` with the first `count` entries. -/
def idtFill (isrTable : Nat → UInt64) (idt : Bytes) : (count : Nat) → Bytes
  | 0 => idt
  | i + 1 => idtSetEntry (UInt8.ofNat i) (isrTable i) 0x8E (idtFill isrTable idt i)

def idtInit (isrTable : Nat → UInt64) (idt : Bytes) : Bytes := idtFill isrTable idt 256

/-- `idtr.limit` -/
def idtLimit : UInt16 := UInt16.ofNat (256 * 16 - 1)

/-- A gate as the processor reads it. -/
structure Gate where
  offset : Nat
  selector : Nat
  ist : Nat
  flags : Nat
deriving DecidableEq

def gate (idt : Bytes) (vector : Nat) : Gate where
  offset := word idt (vector * 16) 2 + 65536 * word idt (vector * 16 + 6) 2 + 4294967296 * word idt (vector * 16 + 8) 4
  selector := word idt (vector * 16 + 2) 2
  ist := word idt (vector * 16 + 4) 1
  flags := word idt (vector * 16 + 5) 1

/-- An ordinary descriptor. -/
def gdtSetEntry (index : Nat) (access granularity : UInt8) (gdt : Bytes) : Bytes :=
  let entry := index * 8
  let gdt := putWord gdt entry 2 0xFFFF
  let gdt := putWord gdt (entry + 2) 2 0
  let gdt := putWord gdt (entry + 4) 1 0
  let gdt := putWord gdt (entry + 5) 1 access.toNat
  let gdt := putWord gdt (entry + 6) 1 granularity.toNat
  putWord gdt (entry + 7) 1 0

/-- The descriptor of the task state segment, copied to the address of entry 7. -/
def gdtSetTss (base : UInt64) (limit : UInt32) (gdt : Bytes) : Bytes :=
  let gdt := putWord gdt 56 2 (limit &&& 0xFFFF).toNat
  let gdt := putWord gdt 58 2 (base &&& 0xFFFF).toNat
  let gdt := putWord gdt 60 1 ((base >>> 16) &&& 0xFF).toNat
  let gdt := putWord gdt 61 1 0x89
  let gdt := putWord gdt 62 1 0x00
  let gdt := putWord gdt 63 1 ((base >>> 24) &&& 0xFF).toNat
  let gdt := putWord gdt 64 4 (base >>> 32).toNat
  putWord gdt 68 4 0

/-- `sizeof(gdt)` -/
def sizeofGdt : Nat := 8 * 8

def sizeofTss : UInt32 := 104

/-- The writes of `gdt_init` from the first entry on; the task state segment is at `tss`. -/
def gdtInit (tss : UInt64) (gdt : Bytes) : Bytes :=
  let gdt := putWord gdt 0 8 0
  let gdt := gdtSetEntry 1 0x9A 0xA0 gdt
  let gdt := gdtSetEntry 2 0x92 0xA0 gdt
  let gdt := gdtSetEntry 3 0xBA 0xA0 gdt
  let gdt := gdtSetEntry 4 0xB2 0xA0 gdt
  let gdt := gdtSetEntry 5 0xFA 0xA0 gdt
  let gdt := gdtSetEntry 6 0xF2 0xA0 gdt
  gdtSetTss tss (sizeofTss - 1) gdt

/-- `gdtr.limit` -/
def gdtLimit : UInt16 := UInt16.ofNat (7 * 8 + 16 - 1)

/-- A descriptor as the processor reads it. -/
structure Descriptor where
  base : Nat
  limit : Nat
  access : Nat
  flags : Nat
deriving DecidableEq

def descriptor (gdt : Bytes) (selector : Nat) : Descriptor where
  base := word gdt (selector + 2) 2 + 65536 * word gdt (selector + 4) 1 + 16777216 * word gdt (selector + 7) 1
  limit := word gdt selector 2 + 65536 * (word gdt (selector + 6) 1 % 16)
  access := word gdt (selector + 5) 1
  flags := word gdt (selector + 6) 1 / 16

/-- A system descriptor has the upper half of its base behind it. -/
def systemDescriptor (gdt : Bytes) (selector : Nat) : Descriptor :=
  { descriptor gdt selector with base := (descriptor gdt selector).base + 4294967296 * word gdt (selector + 8) 4 }

theorem toNat_low16 (value : UInt64) : (value &&& 0xFFFF).toNat = value.toNat % 65536 :=
  (UInt64.toNat_and ..).trans (Nat.and_two_pow_sub_one_eq_mod value.toNat 16)

theorem toNat_low8 (value : UInt64) : (value &&& 0xFF).toNat = value.toNat % 256 :=
  (UInt64.toNat_and ..).trans (Nat.and_two_pow_sub_one_eq_mod value.toNat 8)

theorem toNat_shift (value : UInt64) (amount : Nat) (small : amount < 64) :
    (value >>> UInt64.ofNat amount).toNat = value.toNat / 2 ^ amount := by
  have same : (UInt64.ofNat amount).toNat = amount := UInt64.toNat_ofNat_of_lt' (by change _ < 18446744073709551616; omega)
  rw [UInt64.toNat_shiftRight, same, Nat.mod_eq_of_lt small, Nat.shiftRight_eq_div_pow]

section Idt

variable {isrTable : Nat → UInt64} {idt : Bytes}

theorem gate_congr {left right : Bytes} {vector : Nat}
    (same : ∀ position, vector * 16 ≤ position → position < vector * 16 + 16 → left position = right position) :
    gate left vector = gate right vector := by
  have words (offset width : Nat) (inside : offset + width ≤ 16) :
      word left (vector * 16 + offset) width = word right (vector * 16 + offset) width :=
    word_congr fun position above below => same position (by omega) (by omega)
  rw [gate, gate, words 6 2 (by omega), words 8 4 (by omega), words 2 2 (by omega), words 4 1 (by omega),
    words 5 1 (by omega), ← Nat.add_zero (vector * 16), words 0 2 (by omega)]

/-- An entry is written with all its fields, and nothing else is. -/
theorem idtSetEntry_gate (index : UInt8) (handlerAddr : UInt64) (flags : UInt8) (idt : Bytes) :
    gate (idtSetEntry index handlerAddr flags idt) index.toNat = ⟨handlerAddr.toNat, 8, 0, flags.toNat⟩ := by
  have high := handlerAddr.toNat_lt
  have low := flags.toNat_lt
  have middle := toNat_shift handlerAddr 16 (by decide)
  have upper := toNat_shift handlerAddr 32 (by decide)
  simp only [UInt64.reduceOfNat] at middle upper
  unfold idtSetEntry gate
  simp (disch := omega) only [word_putWord_other, word_putWord_same, toNat_low16, middle, upper]
  congr 1
  · omega
  · exact Nat.mod_eq_of_lt low

theorem idtSetEntry_outside (index : UInt8) (handlerAddr : UInt64) (flags : UInt8) (idt : Bytes) {position : Nat}
    (outside : position < index.toNat * 16 ∨ index.toNat * 16 + 16 ≤ position) :
    idtSetEntry index handlerAddr flags idt position = idt position := by
  unfold idtSetEntry
  simp (disch := omega) only [putWord_outside]

theorem idtFill_spec (isrTable : Nat → UInt64) (idt : Bytes) {count : Nat} (few : count ≤ 256) :
    (∀ vector < count, gate (idtFill isrTable idt count) vector = ⟨(isrTable vector).toNat, 8, 0, 0x8E⟩) ∧
      ∀ position, count * 16 ≤ position → idtFill isrTable idt count position = idt position := by
  induction count with
  | zero => exact ⟨fun _ none => absurd none (Nat.not_lt_zero _), fun _ _ => rfl⟩
  | succ i ih =>
    obtain ⟨filled, behind⟩ := ih (by omega)
    have index : (UInt8.ofNat i).toNat = i := UInt8.toNat_ofNat_of_lt' (by change _ < 256; omega)
    refine ⟨fun vector below => ?_, fun position above => ?_⟩
    · rcases Nat.lt_succ_iff_lt_or_eq.mp below with earlier | rfl
      · rw [← filled vector earlier]
        exact gate_congr fun position _ high => idtSetEntry_outside _ _ _ _ (by omega)
      · have written := idtSetEntry_gate (UInt8.ofNat vector) (isrTable vector) 0x8E (idtFill isrTable idt vector)
        rw [index] at written
        exact written
    · rw [idtFill, idtSetEntry_outside _ _ _ _ (by omega), behind position (by omega)]

/-- Every vector up to the limit leads to its own stub, in the kernel's code segment and
through a present interrupt gate without a stack of its own; nothing behind the table is
written. -/
theorem idtInit_gate (isrTable : Nat → UInt64) (idt : Bytes) :
    (∀ vector, vector * 16 + 15 ≤ idtLimit.toNat →
        gate (idtInit isrTable idt) vector = ⟨(isrTable vector).toNat, 8, 0, 0x8E⟩) ∧
      ∀ position, idtLimit.toNat < position → idtInit isrTable idt position = idt position := by
  have limit : idtLimit.toNat = 4095 := by decide
  obtain ⟨filled, behind⟩ := idtFill_spec isrTable idt (Nat.le_refl 256)
  rw [limit]
  exact ⟨fun vector inside => filled vector (by omega), fun position above => behind position (by omega)⟩

end Idt

section Gdt

variable {gdt : Bytes}

theorem descriptor_congr {left right : Bytes} {selector : Nat}
    (same : ∀ position, selector ≤ position → position < selector + 8 → left position = right position) :
    descriptor left selector = descriptor right selector := by
  have words (offset width : Nat) (inside : offset + width ≤ 8) :
      word left (selector + offset) width = word right (selector + offset) width :=
    word_congr fun position above below => same position (by omega) (by omega)
  rw [descriptor, descriptor, words 2 2 (by omega), words 4 1 (by omega), words 7 1 (by omega), words 6 1 (by omega),
    words 5 1 (by omega), ← Nat.add_zero selector, words 0 2 (by omega)]

theorem gdtSetEntry_descriptor (index : Nat) (access granularity : UInt8) (gdt : Bytes) :
    descriptor (gdtSetEntry index access granularity gdt) (index * 8) =
      ⟨0, 0xFFFF + 65536 * (granularity.toNat % 16), access.toNat, granularity.toNat / 16⟩ := by
  have accessLow := access.toNat_lt
  have granularityLow := granularity.toNat_lt
  unfold gdtSetEntry descriptor
  simp (disch := omega) only [word_putWord_other, word_putWord_same]
  congr 1 <;> omega

theorem gdtSetEntry_outside (index : Nat) (access granularity : UInt8) (gdt : Bytes) {position : Nat}
    (outside : position < index * 8 ∨ index * 8 + 8 ≤ position) :
    gdtSetEntry index access granularity gdt position = gdt position := by
  unfold gdtSetEntry
  simp (disch := omega) only [putWord_outside]

theorem gdtSetTss_descriptor (base : UInt64) (limit : UInt32) (gdt : Bytes) (small : limit.toNat < 65536) :
    systemDescriptor (gdtSetTss base limit gdt) 56 = ⟨base.toNat, limit.toNat, 0x89, 0⟩ := by
  have high := base.toNat_lt
  have middle := toNat_shift base 16 (by decide)
  have third := toNat_shift base 24 (by decide)
  have upper := toNat_shift base 32 (by decide)
  have cut : (limit &&& 0xFFFF).toNat = limit.toNat % 65536 :=
    (UInt32.toNat_and ..).trans (Nat.and_two_pow_sub_one_eq_mod limit.toNat 16)
  simp only [UInt64.reduceOfNat] at middle third upper
  unfold gdtSetTss systemDescriptor descriptor
  simp (disch := omega) only [word_putWord_other, word_putWord_same, toNat_low16, toNat_low8, middle, third, upper, cut]
  congr 1 <;> omega

theorem gdtSetTss_outside (base : UInt64) (limit : UInt32) (gdt : Bytes) {position : Nat}
    (outside : position < 56 ∨ 72 ≤ position) : gdtSetTss base limit gdt position = gdt position := by
  unfold gdtSetTss
  simp (disch := omega) only [putWord_outside]

theorem descriptor_other (different : index ≠ other) (access granularity : UInt8) (gdt : Bytes) :
    descriptor (gdtSetEntry other access granularity gdt) (index * 8) = descriptor gdt (index * 8) :=
  descriptor_congr fun _ above below => gdtSetEntry_outside _ _ _ _ (by omega)

theorem descriptor_tss (ordinary : index ≤ 6) (base : UInt64) (limit : UInt32) (gdt : Bytes) :
    descriptor (gdtSetTss base limit gdt) (index * 8) = descriptor gdt (index * 8) :=
  descriptor_congr fun _ _ below => gdtSetTss_outside _ _ _ (.inl (by omega))

/-- The last entry of the array takes half of the descriptor. -/
theorem gdtSetTss_behind (base : UInt64) (limit : UInt32) (gdt : Bytes) :
    word (gdtSetTss base limit gdt) sizeofGdt 8 = base.toNat / 4294967296 := by
  have high := base.toNat_lt
  have upper := toNat_shift base 32 (by decide)
  simp only [UInt64.reduceOfNat] at upper
  have halves := word_append (gdtSetTss base limit gdt) sizeofGdt 4 4
  have first : word (gdtSetTss base limit gdt) sizeofGdt 4 = base.toNat / 4294967296 := by
    unfold gdtSetTss sizeofGdt
    simp (disch := omega) only [word_putWord_other, word_putWord_same, upper]
    omega
  have second : word (gdtSetTss base limit gdt) (sizeofGdt + 4) 4 = 0 := by
    unfold gdtSetTss sizeofGdt
    simp (disch := omega) only [word_putWord_same, Nat.zero_mod]
  rw [halves, first, second]
  rfl

/-- The access bytes of the selectors 8 to 0x30. -/
def gdtAccess : Nat → Nat
  | 1 => 0x9A
  | 2 => 0x92
  | 3 => 0xBA
  | 4 => 0xB2
  | 5 => 0xFA
  | _ => 0xF2

/-- Every selector gives the segment of its ring, and that of the task state segment its
whole address. The table is as long as its limit says, eight bytes more than its array
has: they get the upper half of that address. -/
theorem gdtInit_descriptors (tss : UInt64) (gdt : Bytes) :
    (∀ index, 1 ≤ index → index ≤ 6 → descriptor (gdtInit tss gdt) (index * 8) = ⟨0, 0xFFFF, gdtAccess index, 10⟩) ∧
      systemDescriptor (gdtInit tss gdt) 0x38 = ⟨tss.toNat, 103, 0x89, 0⟩ ∧
      (∀ position, gdtLimit.toNat < position → gdtInit tss gdt position = gdt position) ∧
      sizeofGdt + 8 = gdtLimit.toNat + 1 ∧ word (gdtInit tss gdt) sizeofGdt 8 = tss.toNat / 4294967296 := by
  refine ⟨fun index low high => ?_, gdtSetTss_descriptor tss _ _ (by decide), fun position above => ?_, by decide,
    gdtSetTss_behind tss _ _⟩
  · rw [gdtInit, descriptor_tss high]
    have entry (index : Nat) (access : UInt8) (gdt : Bytes) :
        descriptor (gdtSetEntry index access 0xA0 gdt) (index * 8) = ⟨0, 0xFFFF, access.toNat, 10⟩ :=
      gdtSetEntry_descriptor index access 0xA0 gdt
    rcases (by omega : index = 6 ∨ index = 1 ∨ index = 2 ∨ index = 3 ∨ index = 4 ∨ index = 5) with
      rfl | rfl | rfl | rfl | rfl | rfl
    · exact entry 6 0xF2 _
    all_goals
      simp (disch := decide) only [descriptor_other]
      exact entry _ _ _
  · have limit : gdtLimit.toNat = 71 := by decide
    rw [limit] at above
    unfold gdtInit
    simp (disch := omega) only [gdtSetTss_outside, gdtSetEntry_outside, putWord_outside]

end Gdt

end LivlyOS.Interrupts
