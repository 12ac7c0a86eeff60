import LivlyOS.Shell.Commands

namespace LivlyOS.Shell

open LivlyOS.Lib LivlyOS.Proc

/-- Word number `index` of a line, empty behind the last one. -/
def nthWord (index : Nat) (input : List UInt8) : List UInt8 := (input.splitOn 32)[index]?.getD []

@[simp] theorem nthWord_nil (index : Nat) : nthWord index [] = [] := by
  cases index <;> rfl

theorem nthWord_space (index : Nat) (rest : List UInt8) :
    nthWord 0 (32 :: rest) = [] ∧ nthWord (index + 1) (32 :: rest) = nthWord index rest := by
  unfold nthWord
  rw [List.splitOn_cons_eq_if_modifyHead, if_pos (beq_self_eq_true (32 : UInt8))]
  exact ⟨rfl, rfl⟩

theorem nthWord_char (index : Nat) (other : c ≠ 32) (rest : List UInt8) :
    nthWord 0 (c :: rest) = c :: nthWord 0 rest ∧ nthWord (index + 1) (c :: rest) = nthWord (index + 1) rest := by
  unfold nthWord
  obtain ⟨first, more, split⟩ := List.exists_cons_of_ne_nil (List.splitOn_ne_nil (32 : UInt8) rest)
  rw [List.splitOn_cons_eq_if_modifyHead, if_neg (by simpa using other), split]
  exact ⟨rfl, rfl⟩

theorem nthWord_subset (index : Nat) (input : List UInt8) : nthWord index input ⊆ input := by
  induction input generalizing index with
  | nil =>
    rw [nthWord_nil]
    exact List.Subset.refl []
  | cons c rest ih =>
    by_cases space : c = 32
    · subst space
      cases index with
      | zero =>
        rw [(nthWord_space 0 rest).1]
        exact List.nil_subset _
      | succ index =>
        rw [(nthWord_space index rest).2]
        exact List.subset_cons_of_subset _ (ih index)
    · cases index with
      | zero =>
        rw [(nthWord_char 0 space rest).1]
        exact List.cons_subset_cons c (ih 0)
      | succ index =>
        rw [(nthWord_char index space rest).2]
        exact List.subset_cons_of_subset _ (ih (index + 1))

/-- An array holds a string with its terminator. -/
def HoldsString (cells : Int → UInt8) (text : List UInt8) : Prop := Spells cells 0 text ∧ cells text.length = 0

theorem spells_write {cells : Int → UInt8} {text : List UInt8} (spells : Spells cells 0 text) (c : UInt8) :
    Spells (Function.update cells text.length c) 0 (text ++ [c]) := by
  rw [Spells.append_iff]
  constructor
  · apply spells.congr
    intro i _ high
    exact Function.update_of_ne (by omega) ..
  · rw [Int.zero_add]
    exact ⟨Function.update_self .., trivial⟩

/-- The terminator behind a text completes the string. -/
theorem holdsString_end {cells : Int → UInt8} {text : List UInt8} (spells : Spells cells 0 text) :
    HoldsString (Function.update cells text.length 0) text := by
  constructor
  · apply spells.congr
    intro i _ high
    exact Function.update_of_ne (by omega) ..
  · exact Function.update_self ..

/-- Within the word that is looked for, its characters go behind those already there, up to
63 of them. -/
theorem splitFrom_within (index : Nat) (input : List UInt8) {text : List UInt8} {out : Int → UInt8}
    (spells : Spells out 0 text) (short : text.length ≤ 63) :
    ∃ out', splitFrom index input index text.length out = some out' ∧
      HoldsString out' ((text ++ nthWord 0 input).take 63) := by
  induction input generalizing text out with
  | nil =>
    refine ⟨_, writeCell_eq out (by omega) 0, ?_⟩
    rw [nthWord_nil, List.append_nil, List.take_of_length_le short]
    exact holdsString_end spells
  | cons c rest ih =>
    unfold splitFrom
    by_cases space : c = 32
    · subst space
      rw [if_pos rfl, if_pos rfl]
      refine ⟨_, writeCell_eq out (by omega) 0, ?_⟩
      rw [(nthWord_space 0 rest).1, List.append_nil, List.take_of_length_le short]
      exact holdsString_end spells
    · rw [if_neg space, if_pos rfl, (nthWord_char 0 space rest).1]
      by_cases room : (text.length : Int) < 63
      · rw [if_pos room, writeCell_eq out (by omega) c, Option.bind_some]
        have length : ((text ++ [c]).length : Int) = text.length + 1 := by simp
        obtain ⟨out', ran, holds⟩ := ih (spells_write spells c) (by omega)
        rw [length] at ran
        rw [List.append_assoc, List.singleton_append] at holds
        exact ⟨out', ran, holds⟩
      · -- a full array takes nothing more
        have full : text.length = 63 := by omega
        rw [if_neg room]
        obtain ⟨out', ran, holds⟩ := ih spells short
        refine ⟨out', ran, ?_⟩
        rw [List.take_append_of_le_length (Nat.le_of_eq full.symm)] at holds ⊢
        exact holds

/-- In front of the word, only the words are counted. -/
theorem splitFrom_before (ahead word : Nat) (input : List UInt8) (out : Int → UInt8) :
    ∃ out', splitFrom (word + ahead) input word 0 out = some out' ∧
      HoldsString out' ((nthWord ahead input).take 63) := by
  induction input generalizing ahead word with
  | nil =>
    refine ⟨_, writeCell_eq out (by omega) 0, ?_⟩
    rw [nthWord_nil, List.take_nil]
    exact @holdsString_end out [] trivial
  | cons c rest ih =>
    cases ahead with
    | zero =>
      obtain ⟨out', ran, holds⟩ := @splitFrom_within word (c :: rest) [] out trivial (by simp)
      exact ⟨out', ran, holds⟩
    | succ ahead =>
      unfold splitFrom
      have later : ¬word = word + (ahead + 1) := by omega
      by_cases space : c = 32
      · subst space
        rw [if_pos rfl, if_neg later, (nthWord_space ahead rest).2]
        obtain ⟨out', ran, holds⟩ := ih ahead (word + 1)
        rw [Nat.succ_add_eq_add_succ] at ran
        exact ⟨out', ran, holds⟩
      · rw [if_neg space, if_neg later, (nthWord_char ahead space rest).2]
        exact ih (ahead + 1) word

/-- Whatever is left to do, only the 64 bytes of the output change. -/
theorem splitFrom_outside {word : Nat} {out out' : Int → UInt8} (ran : splitFrom index input word j out = some out')
    (outside : i < 0 ∨ 64 ≤ i) : out' i = out i := by
  induction input generalizing word j out with
  | nil =>
    obtain ⟨inside, rfl⟩ := writeCell_some ran
    exact Function.update_of_ne (by omega) ..
  | cons c rest ih =>
    unfold splitFrom at ran
    split at ran
    · split at ran
      · obtain ⟨inside, rfl⟩ := writeCell_some ran
        exact Function.update_of_ne (by omega) ..
      · exact ih ran
    · split at ran
      · split at ran
        · obtain ⟨stored, written, later⟩ := Option.bind_eq_some_iff.mp ran
          obtain ⟨inside, rfl⟩ := writeCell_some written
          rw [ih later]
          exact Function.update_of_ne (by omega) ..
        · exact ih ran
      · exact ih ran

/-- The array holds the start of the word as a string. -/
theorem strSplit_spec (input : List UInt8) (nonzero : 0 ∉ input) (index : Nat) (out : Int → UInt8) :
    ∃ out', strSplit input index out = some out' ∧ cString 64 out' = some ((nthWord index input).take 63) := by
  obtain ⟨out', ran, spells, ended⟩ := splitFrom_before index 0 input out
  rw [Nat.zero_add] at ran
  have length := List.length_take_le 63 (nthWord index input)
  refine ⟨out', ran, cString_spells spells (fun member => ?_) ended (by omega)⟩
  exact nonzero (nthWord_subset index input (List.mem_of_mem_take member))

/-- Every word of every line is split off into its 64 bytes, cut to 63 characters. -/
theorem str_split_exact (input : List UInt8) (nonzero : 0 ∉ input) (index : Nat) (out : Int → UInt8) :
    ∃ out', strSplit input index out = some out' ∧
      cString 64 out' = some (((input.splitOn 32)[index]?.getD []).take 63) ∧
      ∀ i, i < 0 ∨ 64 ≤ i → out' i = out i := by
  obtain ⟨out', ran, holds⟩ := strSplit_spec input nonzero index out
  exact ⟨out', ran, holds, fun _ outside => splitFrom_outside ran outside⟩

/-- Between the two spaces is an empty word. -/
theorem str_split_empty_word :
    ∃ out', strSplit (bytes "mv  b") 1 (fun _ => 0xFF) = some out' ∧
      cString 64 out' = some ((((bytes "mv  b").splitOn 32)[1]?.getD []).take 63) ∧
      ∀ i, i < 0 ∨ 64 ≤ i → out' i = 0xFF :=
  str_split_exact (bytes "mv  b") (by decide) 1 fun _ => 0xFF

theorem wordOf_eq (input : List UInt8) (nonzero : 0 ∉ input) (index : Nat) :
    wordOf input index = some ((nthWord index input).take 63) := by
  obtain ⟨out, ran, holds⟩ := strSplit_spec input nonzero index fun _ => 0
  rw [wordOf, ran, Option.bind_some, holds]

/-- A copy stays in its array exactly when the terminator still fits. -/
theorem copyFrom_spec (size : Nat) (src : List UInt8) {text : List UInt8} {dst : Int → UInt8}
    (spells : Spells dst 0 text) :
    (text.length + src.length < size →
      ∃ dst', copyFrom size src text.length dst = some dst' ∧ HoldsString dst' (text ++ src)) ∧
    (size ≤ text.length + src.length → copyFrom size src text.length dst = none) := by
  induction src generalizing text dst with
  | nil =>
    rw [List.append_nil, List.length_nil, Nat.add_zero]
    constructor
    · intro fits
      exact ⟨_, writeCell_eq dst (by omega) 0, holdsString_end spells⟩
    · intro long
      exact if_neg (by omega)
  | cons c rest ih =>
    obtain ⟨inside, outside⟩ := ih (spells_write spells c)
    have length : ((text ++ [c]).length : Int) = text.length + 1 := by simp
    rw [length] at inside outside
    rw [List.length_append, List.length_singleton, List.append_assoc, List.singleton_append] at inside
    rw [List.length_append, List.length_singleton] at outside
    rw [List.length_cons]
    unfold copyFrom
    constructor
    · intro fits
      rw [writeCell_eq dst (by omega) c, Option.bind_some]
      exact inside (by omega)
    · intro long
      by_cases here : text.length < size
      · rw [writeCell_eq dst (by omega) c, Option.bind_some]
        exact outside (by omega)
      · unfold writeCell
        rw [if_neg (by omega), Option.bind_none]

theorem cmdMkdir_isSome_iff (stack : Int → UInt8) (nonzero : 0 ∉ arg) :
    (cmdMkdir stack arg).isSome ↔ arg.length < 16 := by
  have copied : ∀ src : List UInt8, 0 ∉ src → ((do
      let name ← strCopy 16 src stack
      let name ← cString 16 name
      some [Call.fatCreateDir name]).isSome = true ↔ src.length < 16) := by
    intro src nonzero
    obtain ⟨inside, outside⟩ := @copyFrom_spec 16 src [] stack trivial
    rw [List.length_nil, Nat.zero_add] at inside outside
    by_cases fits : src.length < 16
    · obtain ⟨dst, ran, spells, ended⟩ := inside fits
      have copy : strCopy 16 src stack = some dst := ran
      rw [List.nil_append] at spells ended
      simp [copy, cString_spells spells nonzero ended fits, fits]
    · have copy : strCopy 16 src stack = none := outside (by omega)
      simp [copy, fits]
  unfold cmdMkdir
  split
  · rename_i empty
    subst empty
    exact (copied (bytes "default") (by decide)).trans (by decide)
  · exact copied arg nonzero

theorem strEqual_iff (a b : List UInt8) : strEqual a b = true ↔ a = b := by
  induction a generalizing b with
  | nil => cases b <;> simp [strEqual]
  | cons x a ih =>
    cases b with
    | nil => simp [strEqual]
    | cons y b =>
      unfold strEqual
      by_cases same : x = y
      · subst same
        rw [if_neg (not_not_intro rfl), ih, List.cons_inj_right]
      · rw [if_pos same]
        simp [same]

/-- Every handler but the one of mkdir keeps no array. -/
theorem commands_handlers (command) (listed : command ∈ commands) :
    command = ("mkdir", fun stack arg _ => cmdMkdir stack arg) ∨
      bytes command.1 ≠ bytes "mkdir" ∧ ∀ stack arg arg2, (command.2 stack arg arg2).isSome := by
  simp only [commands, List.mem_cons, List.not_mem_nil, or_false] at listed
  rcases listed with rfl | rfl | rfl | rfl | rfl | rfl | rfl | rfl | rfl | rfl | rfl | rfl | rfl | rfl | rfl | rfl
  case inr.inr.inr.inr.inr.inr.inr.inr.inr.inl => exact .inl rfl
  all_goals exact .inr ⟨by decide, fun _ _ _ => rfl⟩

theorem dispatch_isSome_iff (stack : Int → UInt8) (cmd arg2 : List UInt8) (nonzero : 0 ∉ arg) :
    (dispatch stack cmd arg arg2).isSome ↔ ¬(cmd = bytes "mkdir" ∧ 16 ≤ arg.length) := by
  unfold dispatch
  cases found : commands.find? fun command => strEqual cmd (bytes command.1) with
  | none =>
    have unlisted := List.find?_eq_none.mp found ("mkdir", fun stack arg _ => cmdMkdir stack arg) (by simp [commands])
    rw [strEqual_iff] at unlisted
    simp [unlisted]
  | some command =>
    have named := List.find?_some found
    rw [strEqual_iff] at named
    dsimp only
    rcases commands_handlers command (List.mem_of_find?_eq_some found) with rfl | ⟨other, safe⟩
    · rw [cmdMkdir_isSome_iff stack nonzero]
      simp [named]
    · simp [safe stack arg arg2, named, other]

/-- The lines `shell_run` hands over. -/
def IsLine (input : List UInt8) : Prop := input.length < maxInput ∧ ∀ c ∈ input, 0x20 ≤ c ∧ c < 0x80

instance (input : List UInt8) : Decidable (IsLine input) :=
  @instDecidableAnd _ _ (Nat.decLt _ _) (List.decidableBAll _ input)

theorem IsLine.nonzero (line : IsLine input) : 0 ∉ input := by
  intro member
  exact absurd (line.2 0 member).1 (by decide)

/-- Every array write of a command is inside its array, unless it is a mkdir whose name and
terminator do not fit 16 bytes. -/
theorem shellExecute_isSome_iff (stack : Int → UInt8) (line : IsLine input) :
    (shellExecute stack input).isSome ↔ ¬(nthWord 0 input = bytes "mkdir" ∧ 16 ≤ (nthWord 1 input).length) := by
  have argNonzero : 0 ∉ (nthWord 1 input).take 63 :=
    fun member => line.nonzero (nthWord_subset 1 input (List.mem_of_mem_take member))
  have named : (nthWord 0 input).take 63 = bytes "mkdir" ↔ nthWord 0 input = bytes "mkdir" := by
    constructor
    · intro cut
      have length := congrArg List.length cut
      rw [List.length_take, show (bytes "mkdir").length = 5 from rfl] at length
      rwa [List.take_of_length_le (by omega)] at cut
    · intro whole
      rw [whole]
      rfl
  have long : 16 ≤ ((nthWord 1 input).take 63).length ↔ 16 ≤ (nthWord 1 input).length := by
    rw [List.length_take]
    omega
  simp only [shellExecute, wordOf_eq input line.nonzero, bind, Option.bind_some]
  rw [← named, ← long]
  split
  · rename_i slash
    have other : (nthWord 0 input).take 63 ≠ bytes "mkdir" := by
      intro same
      rw [same] at slash
      cases slash
    simp [other]
  · exact dispatch_isSome_iff stack _ _ argNonzero

/-- A name of 15 letters still fits. -/
theorem shellExecute_isSome_iff_mkdir : (shellExecute (fun _ => 7) (bytes "mkdir abcdefghijklmno")).isSome :=
  (shellExecute_isSome_iff (fun _ => 7) (by decide)).mpr (by decide)

/-- A name of 16 letters writes its terminator behind the array. -/
theorem shellExecute_longName :
    IsLine (bytes "mkdir abcdefghijklmnop") ∧ shellExecute (fun _ => 0) (bytes "mkdir abcdefghijklmnop") = none := by
  decide

end LivlyOS.Shell
