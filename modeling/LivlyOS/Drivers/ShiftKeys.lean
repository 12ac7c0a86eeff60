import LivlyOS.Drivers.Keyboard

/-! The Shift flag of the keyboard handler against the two Shift keys: it follows the
last of their scancodes, so that letting go of one key also lets go of the other. -/

namespace LivlyOS.Drivers

open LivlyOS.Lib

inductive ShiftKey where
  | left
  | right

namespace ShiftKey

def makeCode : ShiftKey → UInt8
  | left => 0x2A
  | right => 0x36

def breakCode : ShiftKey → UInt8
  | left => 0xAA
  | right => 0xB6

def other : ShiftKey → ShiftKey
  | left => right
  | right => left

theorem makeCode_ne_breakCode (key key' : ShiftKey) : key.makeCode ≠ key'.breakCode := by
  cases key <;> cases key' <;> decide

theorem breakCode_other (key : ShiftKey) : key.breakCode ≠ key.other.breakCode := by
  cases key <;> decide

theorem eq_or_other (key key' : ShiftKey) : key' = key ∨ key' = key.other := by
  cases key <;> cases key' <;> simp [other]

end ShiftKey

open ShiftKey

/-- The bytes that are no part of an 0xE0 sequence; `extended` says whether one has begun. -/
def unextended : (extended : Bool) → List UInt8 → List UInt8
  | _, [] => []
  | extended, b :: rest =>
    if b = 0xE0 then unextended true rest
    else if extended then unextended false rest
    else b :: unextended false rest

/-- A make of the key is not yet followed by its own break. -/
def Held (key : ShiftKey) (bytes : List UInt8) : Prop :=
  ∃ before after, bytes = before ++ key.makeCode :: after ∧ key.breakCode ∉ after

/-- The last scancode of a Shift key is the break of one while the other one is held. -/
def ReleasedWhileHeld (bytes : List UInt8) : Prop :=
  ∃ key before after, bytes = before ++ breakCode key :: after ∧ Held key.other before ∧
    ∀ key' : ShiftKey, key'.makeCode ∉ after ∧ key'.breakCode ∉ after

/-- What a byte outside of 0xE0 sequences does to the flag. -/
def shiftByte (flag b : UInt8) : UInt8 :=
  if b = 0x2A ∨ b = 0x36 then 1 else if b = 0xAA ∨ b = 0xB6 then 0 else flag

theorem shiftByte_breakCode (flag : UInt8) (key : ShiftKey) : shiftByte flag key.breakCode = 0 := by
  cases key <;> rfl

theorem shiftByte_cases (b : UInt8) :
    (∃ key, b = makeCode key ∧ ∀ flag, shiftByte flag b = 1) ∨
      (∃ key, b = breakCode key ∧ ∀ flag, shiftByte flag b = 0) ∨
      ((∀ key, b ≠ makeCode key ∧ b ≠ breakCode key) ∧ ∀ flag, shiftByte flag b = flag) := by
  unfold shiftByte
  by_cases made : b = 0x2A ∨ b = 0x36
  · left
    rcases made with rfl | rfl
    · exact ⟨.left, rfl, fun _ => rfl⟩
    · exact ⟨.right, rfl, fun _ => rfl⟩
  · right
    by_cases broken : b = 0xAA ∨ b = 0xB6
    · left
      rcases broken with rfl | rfl
      · exact ⟨.left, rfl, fun _ => rfl⟩
      · exact ⟨.right, rfl, fun _ => rfl⟩
    · right
      refine ⟨fun key => ?_, fun flag => by rw [if_neg made, if_neg broken]⟩
      rw [not_or] at made broken
      cases key
      · exact ⟨made.1, broken.1⟩
      · exact ⟨made.2, broken.2⟩

namespace KeyboardState

variable (kb : KeyboardState)

theorem extendedKey_flags (scancode : UInt8) :
    (kb.extendedKey scancode).shiftGedrueckt = kb.shiftGedrueckt ∧ (kb.extendedKey scancode).extended = kb.extended := by
  unfold extendedKey
  split_ifs <;> exact ⟨rfl, rfl⟩

theorem ctrlKey_flags (scancode : UInt8) :
    (kb.ctrlKey scancode).shiftGedrueckt = kb.shiftGedrueckt ∧ (kb.ctrlKey scancode).extended = kb.extended := by
  unfold ctrlKey
  split_ifs <;> exact ⟨rfl, rfl⟩

theorem charKey_flags (behind : List Char → Nat → UInt8) (scancode : UInt8) :
    (kb.charKey behind scancode).shiftGedrueckt = kb.shiftGedrueckt ∧
      (kb.charKey behind scancode).extended = kb.extended := by
  unfold charKey
  dsimp only
  split_ifs <;> exact ⟨rfl, rfl⟩

end KeyboardState

variable (behind : List Char → Nat → UInt8)

theorem keyboardHandler_extended (begun : kb.extended ≠ 0) (plain : b ≠ 0xE0) :
    (keyboardHandler behind kb b).shiftGedrueckt = kb.shiftGedrueckt ∧ (keyboardHandler behind kb b).extended = 0 := by
  unfold keyboardHandler
  rw [if_neg plain, if_pos begun]
  exact KeyboardState.extendedKey_flags _ b

theorem keyboardHandler_plain (fresh : kb.extended = 0) (plain : b ≠ 0xE0) :
    (keyboardHandler behind kb b).shiftGedrueckt = shiftByte kb.shiftGedrueckt b ∧
      (keyboardHandler behind kb b).extended = 0 := by
  unfold keyboardHandler shiftByte
  rw [if_neg plain, if_neg (not_not_intro fresh), ← fresh]
  by_cases made : b = 0x2A ∨ b = 0x36
  · rw [if_pos made, if_pos made]
    exact ⟨rfl, rfl⟩
  by_cases broken : b = 0xAA ∨ b = 0xB6
  · rw [if_neg made, if_pos broken, if_neg made, if_pos broken]
    exact ⟨rfl, rfl⟩
  rw [if_neg made, if_neg broken, if_neg made, if_neg broken]
  split_ifs
  · exact ⟨rfl, rfl⟩
  · exact ⟨rfl, rfl⟩
  · exact ⟨rfl, rfl⟩
  · exact ⟨rfl, rfl⟩
  · exact ⟨rfl, rfl⟩
  · exact kb.ctrlKey_flags b
  · exact kb.charKey_flags behind b

theorem keyboardHandler_shift (bytes : List UInt8) (kb : KeyboardState) :
    (bytes.foldl (keyboardHandler behind) kb).shiftGedrueckt =
      (unextended (decide (kb.extended ≠ 0)) bytes).foldl shiftByte kb.shiftGedrueckt := by
  induction bytes generalizing kb with
  | nil => rfl
  | cons b rest ih =>
    rw [List.foldl_cons, ih]
    by_cases begins : b = 0xE0
    · have turn : keyboardHandler behind kb b = { kb with extended := 1 } := if_pos begins
      rw [turn, unextended, if_pos begins]
      rfl
    · rw [unextended, if_neg begins]
      by_cases begun : kb.extended = 0
      · obtain ⟨shift, extended⟩ := keyboardHandler_plain behind begun begins
        rw [shift, extended, begun]
        rfl
      · obtain ⟨shift, extended⟩ := keyboardHandler_extended behind begun begins
        rw [shift, extended, decide_eq_true begun]
        rfl

theorem held_append_iff : Held key (bytes ++ [b]) ↔ b = key.makeCode ∨ (Held key bytes ∧ b ≠ key.breakCode) := by
  constructor
  · rintro ⟨before, after, split, unbroken⟩
    cases after using List.reverseRecOn with
    | nil =>
      left
      exact (List.append_inj' split rfl).2 |> List.cons.inj |>.1
    | append_singleton after last =>
      right
      rw [← List.cons_append, ← List.append_assoc] at split
      obtain ⟨same, ends⟩ := List.append_inj' split rfl
      rw [List.mem_append, not_or, List.mem_singleton, ← (List.cons.inj ends).1] at unbroken
      exact ⟨⟨before, after, same, unbroken.1⟩, Ne.symm unbroken.2⟩
  · rintro (rfl | ⟨⟨before, after, rfl, unbroken⟩, kept⟩)
    · exact ⟨bytes, [], rfl, List.not_mem_nil⟩
    · refine ⟨before, after ++ [b], by rw [List.append_assoc, List.cons_append], ?_⟩
      rw [List.mem_append, not_or, List.mem_singleton]
      exact ⟨unbroken, Ne.symm kept⟩

theorem not_held_nil (key : ShiftKey) : ¬ Held key [] := by
  rintro ⟨before, after, split, _⟩
  exact absurd split (by simp)

theorem held_of_flag (bytes : List UInt8) (set : bytes.foldl shiftByte 0 = 1) : ∃ key, Held key bytes := by
  induction bytes using List.reverseRecOn with
  | nil => exact absurd set (by decide)
  | append_singleton bytes b ih =>
    rw [List.foldl_append] at set
    rcases shiftByte_cases b with ⟨key, made, _⟩ | ⟨key, _, clears⟩ | ⟨neither, keeps⟩
    · exact ⟨key, held_append_iff.mpr (.inl made)⟩
    · exact absurd ((clears _).symm.trans set) (by decide)
    · obtain ⟨key, held⟩ := ih ((keeps _).symm.trans set)
      exact ⟨key, held_append_iff.mpr (.inr ⟨held, (neither key).2⟩)⟩

/-- A key that is held while the flag is not set was held when the other one was let go. -/
theorem releasedWhileHeld_of_held (bytes : List UInt8) (clear : bytes.foldl shiftByte 0 ≠ 1) (held : Held key bytes) :
    ReleasedWhileHeld bytes := by
  induction bytes using List.reverseRecOn with
  | nil => exact absurd held (not_held_nil key)
  | append_singleton bytes b ih =>
    rw [List.foldl_append] at clear
    rcases shiftByte_cases b with ⟨_, _, sets⟩ | ⟨released, broken, _⟩ | ⟨neither, keeps⟩
    · exact absurd (sets _) clear
    · rcases held_append_iff.mp held with made | ⟨earlier, unbroken⟩
      · exact absurd (made.symm.trans broken) (makeCode_ne_breakCode key released)
      · refine ⟨released, bytes, [], by rw [broken], ?_, fun _ => ⟨List.not_mem_nil, List.not_mem_nil⟩⟩
        rcases eq_or_other released key with rfl | rfl
        · exact absurd broken unbroken
        · exact earlier
    · rcases held_append_iff.mp held with made | ⟨earlier, _⟩
      · exact absurd made (neither key).1
      · obtain ⟨released, before, after, rfl, other, quiet⟩ := ih (fun set => clear ((keeps _).trans set)) earlier
        refine ⟨released, before, after ++ [b], by rw [List.append_assoc, List.cons_append], other, fun key' => ?_⟩
        rw [List.mem_append, List.mem_append, List.mem_singleton, List.mem_singleton, not_or, not_or]
        exact ⟨⟨(quiet key').1, (neither key').1.symm⟩, (quiet key').2, (neither key').2.symm⟩

/-- Bytes that are no scancodes of the Shift keys keep the flag. -/
theorem shiftByte_quiet {bytes : List UInt8} (quiet : ∀ key : ShiftKey, key.makeCode ∉ bytes ∧ key.breakCode ∉ bytes) (flag : UInt8) :
    bytes.foldl shiftByte flag = flag := by
  induction bytes generalizing flag with
  | nil => rfl
  | cons b rest ih =>
    have later : ∀ key : ShiftKey, key.makeCode ∉ rest ∧ key.breakCode ∉ rest := fun key =>
      ⟨fun present => (quiet key).1 (List.mem_cons_of_mem _ present),
        fun present => (quiet key).2 (List.mem_cons_of_mem _ present)⟩
    rw [List.foldl_cons, ih later]
    rcases shiftByte_cases b with ⟨made, same, _⟩ | ⟨broken, same, _⟩ | ⟨_, keeps⟩
    · exact absurd (same ▸ List.mem_cons_self) (quiet made).1
    · exact absurd (same ▸ List.mem_cons_self) (quiet broken).2
    · exact keeps flag

/-- Letting go of one key clears the flag and leaves the other key held. -/
theorem ReleasedWhileHeld.untracked (released : ReleasedWhileHeld bytes) :
    bytes.foldl shiftByte 0 ≠ 1 ∧ ∃ key, Held key bytes := by
  obtain ⟨key, before, after, rfl, ⟨early, late, rfl, unbroken⟩, quiet⟩ := released
  constructor
  · rw [List.foldl_append, List.foldl_cons, shiftByte_quiet quiet, shiftByte_breakCode]
    decide
  · refine ⟨key.other, early, late ++ breakCode key :: after, by rw [List.append_assoc, List.cons_append], ?_⟩
    rw [List.mem_append, List.mem_cons, not_or, not_or]
    exact ⟨unbroken, (breakCode_other key).symm, (quiet _).2⟩

/-- The flag after a stream says whether a Shift key is held. -/
def ShiftTracks (behind : List Char → Nat → UInt8) (bytes : List UInt8) : Prop :=
  (bytes.foldl (keyboardHandler behind) keyboardStart).shiftGedrueckt = 1 ↔ ∃ key, Held key (unextended false bytes)

theorem shift_tracks_iff (behind : List Char → Nat → UInt8) (bytes : List UInt8) :
    ShiftTracks behind bytes ↔ ¬ ReleasedWhileHeld (unextended false bytes) := by
  unfold ShiftTracks
  have flag : (bytes.foldl (keyboardHandler behind) keyboardStart).shiftGedrueckt =
      (unextended false bytes).foldl shiftByte 0 := keyboardHandler_shift behind bytes keyboardStart
  rw [flag]
  constructor
  · intro tracks released
    obtain ⟨clear, held⟩ := released.untracked
    exact clear (tracks.mpr held)
  · intro never
    refine ⟨held_of_flag _, fun ⟨key, held⟩ => ?_⟩
    by_contra clear
    exact never (releasedWhileHeld_of_held _ clear held)

/-- Both Shift keys are pressed and the left one is let go. -/
theorem shift_lost : ¬ ShiftTracks (fun _ _ => 0) [0x2A, 0x36, 0xAA] := by
  have held : ∃ key, Held key (unextended false [0x2A, 0x36, 0xAA]) := ⟨.right, [0x2A], [0xAA], by decide, by decide⟩
  intro tracks
  exact absurd (tracks.mpr held) (by decide)

end LivlyOS.Drivers
