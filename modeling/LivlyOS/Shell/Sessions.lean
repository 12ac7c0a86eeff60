import LivlyOS.Shell.LineEditor

namespace LivlyOS.Shell

open LivlyOS.Lib

theorem entered_length (line : List UInt8) (lines : List (List UInt8)) :
    (entered lines).length ≤ (entered (line :: lines)).length := by
  unfold entered
  rw [List.filter_cons]
  split
  · exact Nat.le_succ _
  · exact Nat.le_refl _

namespace LineEditor

variable (ref : LineEditor)

/-- A key enters the line or leaves the lines alone. -/
theorem press_lines (c : UInt8) : (ref.press c).lines = ref.lines ∨ (ref.press c).lines = ref.line.text :: ref.lines := by
  unfold press
  split
  · exact .inr rfl
  · unfold up down type goTo
    split_ifs <;> exact .inl rfl

theorem press_entered (c : UInt8) : (entered ref.lines).length ≤ (entered (ref.press c).lines).length := by
  rcases ref.press_lines c with same | more
  · rw [same]
  · rw [more]
    exact entered_length ..

theorem run_entered (keys : List UInt8) : (entered ref.lines).length ≤ (entered (ref.run keys).lines).length := by
  induction keys generalizing ref with
  | nil => exact Nat.le_refl _
  | cons c rest ih => exact Nat.le_trans (ref.press_entered c) (ih (ref.press c))

theorem press_up : ref.press 0x80 = ref.up := rfl

theorem press_down : ref.press 0x81 = ref.down := rfl

/-- Up goes further back as long as there are lines. -/
theorem run_up (steps : Nat) (within : ref.depth + (steps + 1) ≤ ref.reach) :
    ref.run (List.replicate (steps + 1) 0x80) = ref.goTo (ref.depth + (steps + 1)) := by
  induction steps generalizing ref with
  | zero =>
    change ref.press 0x80 = _
    rw [press_up]
    exact if_pos (by omega)
  | succ steps ih =>
    have first : ref.press 0x80 = ref.goTo (ref.depth + 1) := ref.press_up.trans (if_pos (by omega))
    have later := ih (ref.goTo (ref.depth + 1)) (by
      change ref.depth + 1 + (steps + 1) ≤ ref.reach
      omega)
    rw [List.replicate_succ]
    change (ref.press 0x80).run _ = _
    rw [first, later]
    change ref.goTo (ref.depth + 1 + (steps + 1)) = _
    rw [Nat.add_right_comm, Nat.add_assoc]

theorem run_down (steps : Nat) (depth : ref.depth = steps + 1) :
    ref.run (List.replicate (steps + 1) 0x81) = ref.goTo 0 := by
  induction steps generalizing ref with
  | zero =>
    have only : ref.press 0x81 = ref.goTo (ref.depth - 1) := ref.press_down.trans (if_pos (by omega))
    rw [depth] at only
    exact only
  | succ steps ih =>
    have first : ref.press 0x81 = ref.goTo (ref.depth - 1) := ref.press_down.trans (if_pos (by omega))
    rw [List.replicate_succ]
    change (ref.press 0x81).run _ = _
    rw [first]
    apply ih (ref.goTo (ref.depth - 1))
    change ref.depth - 1 = steps + 1
    omega

end LineEditor

section Runs

variable {sh : ShellState} {ref : LineEditor}

theorem shellRun_cons (c : UInt8) (rest : List UInt8) (sh : ShellState) :
    shellRun (c :: rest) sh = (shellKey c sh).bind (shellRun rest) := rfl

theorem shellKey_shows (shows : Shows sh ref) (c : UInt8) (few : (entered (ref.press c).lines).length < 2 ^ 31) :
    ∃ sh', shellKey c sh = some sh' ∧ Shows sh' (ref.press c) := by
  unfold LineEditor.press at few ⊢
  unfold shellKey
  split
  · rename_i enter
    rw [if_pos enter] at few
    exact keyEnter_shows shows few
  · split_ifs with up down left right back printable
    · exact keyUp_shows shows
    · exact keyDown_shows shows
    · exact ⟨_, rfl, keyLeft_shows shows⟩
    · exact ⟨_, rfl, keyRight_shows shows⟩
    · exact keyBackspace_shows shows
    · exact keyChar_shows shows printable
    · exact ⟨sh, rfl, shows⟩

theorem shellRun_shows (shows : Shows sh ref) (keys : List UInt8) (few : (entered (ref.run keys).lines).length < 2 ^ 31) :
    ∃ sh', shellRun keys sh = some sh' ∧ Shows sh' (ref.run keys) := by
  induction keys generalizing sh ref with
  | nil => exact ⟨sh, rfl, shows⟩
  | cons c rest ih =>
    have later : (entered (ref.press c).lines).length < 2 ^ 31 := Nat.lt_of_le_of_lt ((ref.press c).run_entered rest) few
    obtain ⟨sh1, ran, shows1⟩ := shellKey_shows shows c later
    obtain ⟨sh2, rest', shows2⟩ := ih shows1 few
    refine ⟨sh2, ?_, shows2⟩
    rw [shellRun_cons, ran]
    exact rest'

theorem shellRun_append (first second : List UInt8) (sh : ShellState) :
    shellRun (first ++ second) sh = (shellRun first sh).bind (shellRun second) := by
  induction first generalizing sh with
  | nil => rfl
  | cons c rest ih =>
    rw [List.cons_append, shellRun_cons, shellRun_cons]
    cases shellKey c sh with
    | none => rfl
    | some sh' => exact ih sh'

theorem keyUp_oldest (shows : Shows sh ref) (oldest : ref.depth = ref.reach) : keyUp sh = some sh := by
  have back := shows.back
  have count := shows.history.count
  have reach : ref.reach = min (entered ref.lines).length 20 := rfl
  exact if_neg (by omega)

theorem shellRun_oldest (stays : keyUp sh = some sh) (presses : Nat) :
    shellRun (List.replicate presses 0x80) sh = some sh := by
  induction presses with
  | zero => rfl
  | succ presses ih =>
    have first : shellKey 0x80 sh = some sh := stays
    rw [List.replicate_succ, shellRun_cons, first]
    exact ih

end Runs

/-- The input is a text with the cursor behind it. -/
def ShellState.Holds (sh : ShellState) (text : List UInt8) : Prop :=
  sh.pos = text.length ∧ sh.cur = text.length ∧ Spells sh.input 0 text

theorem Shows.holds {ref : LineEditor} {depth : Nat} (shows : Shows sh (ref.goTo depth)) : sh.Holds (ref.recalled depth) := by
  obtain ⟨spells, pos, cur, _⟩ := shows.line
  have text : (ref.goTo depth).line.text = ref.recalled depth := List.append_nil _
  rw [text] at spells pos
  exact ⟨pos, cur, spells⟩

section Prompt

variable {sh : ShellState} {ref : LineEditor}

/-- From the end of the history, up finds the latest lines one by one and down the way back. -/
theorem shellRun_recalls (shows : Shows sh ref) (fresh : ref.depth = 0) (few : (entered ref.lines).length < 2 ^ 31)
    {k : Nat} (positive : 1 ≤ k) (within : k ≤ ref.reach) :
    ∃ line up down, (entered ref.lines)[k - 1]? = some line ∧
      shellRun (List.replicate k 0x80) sh = some up ∧ up.Holds line ∧
      shellRun (List.replicate k 0x81) up = some down ∧ down.Holds [] := by
  obtain ⟨steps, rfl⟩ := Nat.exists_eq_succ_of_ne_zero (Nat.ne_of_gt positive)
  have short : steps + 1 ≤ (entered ref.lines).length := Nat.le_trans within (Nat.min_le_left ..)
  have ups : ref.run (List.replicate (steps + 1) 0x80) = ref.goTo (steps + 1) := by
    rw [ref.run_up steps (by omega), fresh, Nat.zero_add]
  have downs := (ref.goTo (steps + 1)).run_down steps rfl
  obtain ⟨up, rose, atLine⟩ := shellRun_shows shows (List.replicate (steps + 1) 0x80) (by rw [ups]; exact few)
  rw [ups] at atLine
  obtain ⟨down, sank, atStart⟩ := shellRun_shows atLine (List.replicate (steps + 1) 0x81) (by rw [downs]; exact few)
  rw [downs] at atStart
  refine ⟨(entered ref.lines)[steps], up, down, List.getElem?_eq_getElem short, rose, ?_, sank, atStart.holds⟩
  have found : ref.recalled (steps + 1) = (entered ref.lines)[steps] := by
    unfold LineEditor.recalled
    rw [List.getElem?_cons_succ, List.getElem?_eq_getElem short, Option.getD_some]
  rw [← found]
  exact atLine.holds

/-- More presses of up than there are lines change nothing. -/
theorem shellRun_pastOldest (shows : Shows sh ref) (fresh : ref.depth = 0) (few : (entered ref.lines).length < 2 ^ 31)
    (more : Nat) :
    shellRun (List.replicate (ref.reach + more) 0x80) sh = shellRun (List.replicate ref.reach 0x80) sh := by
  have oldest : ∃ sh', shellRun (List.replicate ref.reach 0x80) sh = some sh' ∧ keyUp sh' = some sh' := by
    cases reach : ref.reach with
    | zero => exact ⟨sh, rfl, keyUp_oldest shows (fresh.trans reach.symm)⟩
    | succ steps =>
      have ups : ref.run (List.replicate (steps + 1) 0x80) = ref.goTo (steps + 1) := by
        rw [ref.run_up steps (by omega), fresh, Nat.zero_add]
      obtain ⟨sh', ran, shows'⟩ := shellRun_shows shows (List.replicate (steps + 1) 0x80) (by rw [ups]; exact few)
      rw [ups] at shows'
      exact ⟨sh', ran, keyUp_oldest shows' reach.symm⟩
  obtain ⟨sh', ran, stays⟩ := oldest
  rw [List.replicate_add, shellRun_append, ran, Option.bind_some]
  exact shellRun_oldest stays more

end Prompt

/-- What a session hands to `shell_execute` is what the editor was given, as long as fewer than
2^31 lines go to the history; and wherever the history was not followed back, up finds the
latest lines, down returns to the empty one, and the oldest one within reach is the last. -/
theorem shell_session (stack : Int → UInt8) (keys : List UInt8)
    (few : (entered (LineEditor.start.run keys).lines).length < 2 ^ 31) :
    ∃ sh, shellRun keys (shellInit stack) = some sh ∧ sh.executed = (LineEditor.start.run keys).lines ∧
      (sh.historyPos = sh.historyCount →
        (∀ k : Nat, 1 ≤ k → (k : Int) ≤ min sh.historyCount 20 →
          ∃ line up down, (entered sh.executed)[k - 1]? = some line ∧
            shellRun (List.replicate k 0x80) sh = some up ∧ up.Holds line ∧
            shellRun (List.replicate k 0x81) up = some down ∧ down.Holds []) ∧
        ∀ more, shellRun (List.replicate ((min sh.historyCount 20).toNat + more) 0x80) sh =
          shellRun (List.replicate (min sh.historyCount 20).toNat 0x80) sh) := by
  obtain ⟨sh, ran, shows⟩ := shellRun_shows (shellInit_shows stack) keys few
  refine ⟨sh, ran, shows.history.executed, fun fresh => ?_⟩
  have count := shows.history.count
  have back := shows.back
  generalize LineEditor.start.run keys = ref at few shows count back
  have depth : ref.depth = 0 := by omega
  have reach : (min sh.historyCount 20).toNat = ref.reach := by
    unfold LineEditor.reach
    omega
  rw [shows.history.executed, reach]
  constructor
  · intro k positive within
    exact shellRun_recalls shows depth few positive (by omega)
  · exact shellRun_pastOldest shows depth few

theorem shell_session_letter : ∃ sh, shellRun [97, 10] (shellInit fun _ => 7) = some sh ∧ sh.executed = [[97]] := by
  obtain ⟨sh, ran, executed, _⟩ := shell_session (fun _ => 7) [97, 10] (by decide)
  exact ⟨sh, ran, executed⟩

/-- A letter and Enter, again and again. -/
def letters (rounds : Nat) : List UInt8 := (List.replicate rounds [97, 10]).flatten

theorem letters_succ (rounds : Nat) : letters (rounds + 1) = letters rounds ++ [97, 10] := by
  unfold letters
  rw [List.replicate_succ', List.flatten_append]
  rfl

theorem run_letters (rounds : Nat) :
    LineEditor.start.run (letters rounds) = ⟨⟨[], []⟩, List.replicate rounds [97], 0⟩ := by
  induction rounds with
  | zero => rfl
  | succ rounds ih =>
    rw [letters_succ]
    unfold LineEditor.run at ih ⊢
    rw [List.foldl_append, ih]
    rfl

theorem entered_letters (rounds : Nat) : entered (List.replicate rounds [97]) = List.replicate rounds [97] := by
  apply List.filter_eq_self.mpr
  intro line member
  rw [List.eq_of_mem_replicate member]
  rfl

/-- The line that would take the counter past its end ends the run. -/
theorem keyEnter_overflows (shows : Shows sh ref) (text : ref.line.text ≠ [])
    (full : (entered ref.lines).length + 1 = 2 ^ 31) : keyEnter sh = none := by
  obtain ⟨written, holds⟩ := shows.terminated
  obtain ⟨⟨_, pos, _, isLine⟩, history, _, _⟩ := shows
  obtain ⟨executed, areLines, count, rows⟩ := history
  have positive := List.length_pos_iff.mpr text
  have kept : ShowsHistory { sh with input := Function.update sh.input sh.pos 0 } ref.lines :=
    ⟨executed, areLines, count, rows⟩
  have overflow := (saveLine_shows kept holds isLine).2 (by dsimp only; omega)
  unfold keyEnter
  simp only [written, bind, Option.bind_some]
  rw [if_pos (by omega), overflow, Option.bind_none]

theorem shellRun_letters (stack : Int → UInt8) {rounds : Nat} (full : rounds + 1 = 2 ^ 31) :
    shellRun (letters (rounds + 1)) (shellInit stack) = none := by
  have before := run_letters rounds
  obtain ⟨sh, ran, shows⟩ := shellRun_shows (shellInit_shows stack) (letters rounds) (by
    rw [before, entered_letters, List.length_replicate]
    omega)
  rw [before] at shows
  obtain ⟨sh1, typed, shows1⟩ := keyChar_shows shows (c := 97) (by decide)
  have last : keyEnter sh1 = none := by
    apply keyEnter_overflows shows1
    · exact List.cons_ne_nil 97 []
    · change (entered (List.replicate rounds [97])).length + 1 = 2 ^ 31
      rw [entered_letters, List.length_replicate]
      exact full
  rw [letters_succ, shellRun_append, ran, Option.bind_some, shellRun_cons]
  change (keyChar 97 sh).bind _ = none
  rw [typed, Option.bind_some, shellRun_cons]
  change (keyEnter sh1).bind _ = none
  rw [last]
  rfl

/-- A session that enters 2^31 lines does not reach its end. -/
theorem shell_session_overflows :
    ¬∃ sh, shellRun (letters (2 ^ 31)) (shellInit fun _ => 0) = some sh ∧
      sh.executed = (LineEditor.start.run (letters (2 ^ 31))).lines := by
  have stops := @shellRun_letters (fun _ => 0) (2 ^ 31 - 1) (by decide)
  rw [show 2 ^ 31 - 1 + 1 = 2 ^ 31 by decide] at stops
  rintro ⟨sh, ran, _⟩
  cases stops.symm.trans ran

end LivlyOS.Shell
