import LivlyOS.Lib.TextBuffer

namespace LivlyOS.Lib.LineDoc

variable [DecidableEq α] (newline : α)

/-- A newline splits the line, other characters go into it. -/
def type (doc : LineDoc α) (c : α) : LineDoc α := if c = newline then doc.split else doc.insert c

/-- Typing within a width and a number of lines: what has no room is dropped. -/
def typeWithin (width rows : Nat) (doc : LineDoc α) (c : α) : LineDoc α :=
  if c = newline then if doc.above.length + 1 + doc.below.length < rows then doc.split else doc
  else if doc.left.length + doc.right.length < width then doc.insert c
  else doc

/-- Every line of a run that is not empty fits in front of what follows the cursor. The first
one goes behind the `left` characters before it. -/
def LinesFit (width right : Nat) : (left : Nat) → List (List α) → Prop
  | _, [] => True
  | left, line :: rest => (line = [] ∨ left + line.length + right ≤ width) ∧ LinesFit width right 0 rest

instance LinesFit.decidable (width right : Nat) : ∀ left lines, Decidable (LinesFit (α := α) width right left lines)
  | _, [] => .isTrue trivial
  | _, _ :: rest => @instDecidableAnd _ _ inferInstance (decidable width right 0 rest)

section Whole

variable {newline}

theorem flat_type (doc : LineDoc α) (c : α) : (doc.type newline c).flat newline = (doc.flat newline).insert c := by
  unfold type
  split
  · rename_i same
    rw [same]
    exact flat_split newline doc
  · exact flat_insert newline doc c

/-- A run typed into the lines is inserted at the cursor of the flat text. -/
theorem flat_foldl_type (chars : List α) (doc : LineDoc α) :
    (chars.foldl (type newline) doc).flat newline = ⟨(doc.flat newline).before ++ chars, (doc.flat newline).after⟩ := by
  induction chars generalizing doc with
  | nil => rw [List.foldl_nil, List.append_nil]
  | cons c rest ih => rw [List.foldl_cons, ih, flat_type, TextBuffer.insert, List.append_assoc, List.singleton_append]

theorem plain_type {doc : LineDoc α} (plain : doc.Plain newline) (c : α) : (doc.type newline c).Plain newline := by
  unfold type
  split
  · exact plain_split plain
  · rename_i other
    exact plain_insert plain (Ne.symm other)

theorem plain_foldl_type (chars : List α) {doc : LineDoc α} (plain : doc.Plain newline) :
    (chars.foldl (type newline) doc).Plain newline := by
  induction chars generalizing doc with
  | nil => exact plain
  | cons c rest ih => exact ih (plain_type plain c)

theorem foldl_type_lines (chars : List α) (doc : LineDoc α) :
    (chars.foldl (type newline) doc).lines.length = doc.lines.length + chars.count newline := by
  induction chars generalizing doc with
  | nil => rfl
  | cons c rest ih =>
    rw [List.foldl_cons, ih, type]
    by_cases same : c = newline
    · rw [if_pos same, same, List.count_cons_self]
      simp only [lines, split, List.length_append, List.length_cons, List.length_nil]
      omega
    · rw [if_neg same, List.count_cons_of_ne same]
      simp only [lines, insert, List.length_append, List.length_cons]

end Whole

section Within

variable {newline} {width rows : Nat}

theorem linesFit_newline (right left : Nat) (rest : List α) :
    LinesFit width right left ((newline :: rest).splitOn newline) ↔ LinesFit width right 0 (rest.splitOn newline) := by
  rw [List.splitOn_cons_eq_if_modifyHead, if_pos (beq_self_eq_true newline), LinesFit]
  exact and_iff_right (.inl rfl)

theorem linesFit_char (other : c ≠ newline) (right left : Nat) (rest : List α) :
    LinesFit width right left ((c :: rest).splitOn newline) ↔
      left + right < width ∧ LinesFit width right (left + 1) (rest.splitOn newline) := by
  obtain ⟨line, more, split⟩ := List.exists_cons_of_ne_nil (List.splitOn_ne_nil newline rest)
  rw [List.splitOn_cons_eq_if_modifyHead, if_neg (by simpa using other), split, List.modifyHead_cons, LinesFit, LinesFit,
    List.length_cons]
  constructor
  · rintro ⟨room, tail⟩
    have room := room.resolve_left (List.cons_ne_nil c line)
    exact ⟨by omega, .inr (by omega), tail⟩
  · rintro ⟨room, empty | more, tail⟩
    · rw [empty, List.length_nil]
      exact ⟨.inr (by omega), tail⟩
    · exact ⟨.inr (by omega), tail⟩

theorem foldl_typeWithin_le (chars : List α) (doc : LineDoc α) :
    ((chars.foldl (typeWithin newline width rows) doc).flat newline).before.length ≤
      (doc.flat newline).before.length + chars.length := by
  induction chars generalizing doc with
  | nil => exact Nat.le_refl _
  | cons c rest ih =>
    have step : ((doc.typeWithin newline width rows c).flat newline).before.length ≤ (doc.flat newline).before.length + 1 := by
      have taken : ((doc.type newline c).flat newline).before.length = (doc.flat newline).before.length + 1 := by
        rw [flat_type, TextBuffer.insert, List.length_append, List.length_singleton]
      unfold typeWithin
      unfold type at taken
      split at taken
      · rw [if_pos ‹_›]
        split <;> omega
      · rw [if_neg ‹_›]
        split <;> omega
    have tail := ih (doc.typeWithin newline width rows c)
    rw [List.foldl_cons, List.length_cons]
    omega

theorem foldl_typeWithin_eq (chars : List α) (doc : LineDoc α)
    (fit : LinesFit width doc.right.length doc.left.length (chars.splitOn newline))
    (few : doc.above.length + 1 + doc.below.length + chars.count newline ≤ rows) :
    chars.foldl (typeWithin newline width rows) doc = chars.foldl (type newline) doc := by
  induction chars generalizing doc with
  | nil => rfl
  | cons c rest ih =>
    rw [List.foldl_cons, List.foldl_cons, typeWithin, type]
    by_cases same : c = newline
    · subst same
      rw [linesFit_newline] at fit
      rw [List.count_cons_self] at few
      rw [if_pos rfl, if_pos rfl, if_pos (by omega)]
      apply ih doc.split fit
      simp only [split, List.length_append, List.length_singleton]
      omega
    · rw [linesFit_char same] at fit
      rw [List.count_cons_of_ne same] at few
      rw [if_neg same, if_neg same, if_pos fit.1]
      apply ih (doc.insert c) _ few
      simp only [insert, List.length_append, List.length_singleton]
      exact fit.2

theorem foldl_typeWithin_lt (chars : List α) (doc : LineDoc α)
    (long : ¬LinesFit width doc.right.length doc.left.length (chars.splitOn newline)) :
    ((chars.foldl (typeWithin newline width rows) doc).flat newline).before.length <
      (doc.flat newline).before.length + chars.length := by
  induction chars generalizing doc with
  | nil =>
    refine absurd ⟨.inl rfl, trivial⟩ long
  | cons c rest ih =>
    rw [List.foldl_cons, List.length_cons, typeWithin]
    by_cases same : c = newline
    · subst same
      rw [linesFit_newline] at long
      rw [if_pos rfl]
      split
      · have tail := ih doc.split long
        rw [flat_split, TextBuffer.insert, List.length_append, List.length_singleton] at tail
        omega
      · have kept := @foldl_typeWithin_le α _ c width rows rest doc
        omega
    · rw [linesFit_char same] at long
      rw [if_neg same]
      split
      · rename_i room
        have tail := ih (doc.insert c) (by
          simp only [insert, List.length_append, List.length_singleton]
          exact fun fit => long ⟨room, fit⟩)
        rw [flat_insert, TextBuffer.insert, List.length_append, List.length_singleton] at tail
        omega
      · have kept := @foldl_typeWithin_le α _ newline width rows rest doc
        omega

end Within

end LivlyOS.Lib.LineDoc
