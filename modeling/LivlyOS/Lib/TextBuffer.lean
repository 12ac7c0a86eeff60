import Mathlib.Data.List.Basic
import Mathlib.Data.List.TakeWhile
import Mathlib.Tactic.Common

namespace LivlyOS.Lib

/-- A text around the offset of its cursor. -/
structure TextBuffer (α : Type u) where
  before : List α
  after : List α

/-- Lines around a cursor, which stands between `left` and `right` of one of them. -/
structure LineDoc (α : Type u) where
  above : List (List α)
  left : List α
  right : List α
  below : List (List α)

namespace TextBuffer

def text (buffer : TextBuffer α) : List α := buffer.before ++ buffer.after

def offset (buffer : TextBuffer α) : Nat := buffer.before.length

/-- Move the offset; the text stays. -/
def seek (buffer : TextBuffer α) (offset : Nat) : TextBuffer α :=
  ⟨buffer.text.take offset, buffer.text.drop offset⟩

/-- Insert at the offset. -/
def insert (buffer : TextBuffer α) (c : α) : TextBuffer α := ⟨buffer.before ++ [c], buffer.after⟩

/-- Remove what stands before the offset. -/
def erase (buffer : TextBuffer α) : TextBuffer α := ⟨buffer.before.dropLast, buffer.after⟩

def moveLeft (buffer : TextBuffer α) : TextBuffer α := buffer.seek (buffer.offset - 1)

def moveRight (buffer : TextBuffer α) : TextBuffer α := buffer.seek (buffer.offset + 1)

section Lines
variable [DecidableEq α] (newline : α)

/-- What stands before the offset on its line. -/
def lineBefore (buffer : TextBuffer α) : List α := (buffer.before.reverse.takeWhile (· != newline)).reverse

/-- What stands after the offset on its line. -/
def lineAfter (buffer : TextBuffer α) : List α := buffer.after.takeWhile (· != newline)

def lineLength (buffer : TextBuffer α) : Nat :=
  (buffer.lineBefore newline).length + (buffer.lineAfter newline).length

def lineCount (buffer : TextBuffer α) : Nat := buffer.text.count newline + 1

/-- The start of the offset's line. -/
def lineStart (buffer : TextBuffer α) : Nat := buffer.offset - (buffer.lineBefore newline).length

/-- Move to the same column of the line above, or its end. -/
def moveUp (buffer : TextBuffer α) : TextBuffer α :=
  if buffer.lineStart newline = 0 then buffer
  else
    let above := buffer.seek (buffer.lineStart newline - 1)
    above.seek (above.lineStart newline + min (buffer.lineBefore newline).length (above.lineBefore newline).length)

/-- Move to the same column of the line below, or its end. -/
def moveDown (buffer : TextBuffer α) : TextBuffer α :=
  if buffer.lineAfter newline = buffer.after then buffer
  else
    let below := buffer.seek (buffer.offset + (buffer.lineAfter newline).length + 1)
    below.seek (below.offset + min (buffer.lineBefore newline).length (below.lineAfter newline).length)

/-- Remove what stands before the offset, a newline only if the joined line satisfies `fits`. -/
def eraseWithin (fits : Nat → Prop) [DecidablePred fits] (buffer : TextBuffer α) : TextBuffer α :=
  match buffer.before.getLast? with
  | some c => if c = newline ∧ ¬fits (buffer.erase.lineLength newline) then buffer else buffer.erase
  | none => buffer

end Lines

theorem seek_text (buffer : TextBuffer α) (offset : Nat) : (buffer.seek offset).text = buffer.text :=
  List.take_append_drop ..

theorem seek_offset (buffer : TextBuffer α) (offset : Nat) :
    (buffer.seek offset).offset = min offset buffer.text.length := List.length_take

theorem seek_of_append (buffer : TextBuffer α) (before after : List α) {offset : Nat}
    (split : buffer.text = before ++ after) (length : offset = before.length) :
    buffer.seek offset = ⟨before, after⟩ := by
  rw [seek, split, length, List.take_left, List.drop_left]

end TextBuffer

namespace LineDoc

def lines (doc : LineDoc α) : List (List α) := doc.above ++ (doc.left ++ doc.right) :: doc.below

/-- Insert a character into the line. -/
def insert (doc : LineDoc α) (c : α) : LineDoc α := { doc with left := doc.left ++ [c] }

/-- Split the line. -/
def split (doc : LineDoc α) : LineDoc α := ⟨doc.above ++ [doc.left], [], doc.right, doc.below⟩

/-- Remove the character before the cursor, or join the line to the one above if the two
together satisfy `fits`. -/
def erase (fits : Nat → Prop) [DecidablePred fits] (doc : LineDoc α) : LineDoc α :=
  match doc.left.getLast? with
  | some _ => { doc with left := doc.left.dropLast }
  | none =>
    match doc.above.getLast? with
    | some line =>
      if fits (line.length + doc.right.length) then ⟨doc.above.dropLast, line, doc.right, doc.below⟩ else doc
    | none => doc

def moveLeft (doc : LineDoc α) : LineDoc α :=
  match doc.left.getLast? with
  | some c => { doc with left := doc.left.dropLast, right := c :: doc.right }
  | none =>
    match doc.above.getLast? with
    | some line => ⟨doc.above.dropLast, line, [], doc.right :: doc.below⟩
    | none => doc

def moveRight (doc : LineDoc α) : LineDoc α :=
  match doc.right with
  | c :: right => { doc with left := doc.left ++ [c], right := right }
  | [] =>
    match doc.below with
    | line :: below => ⟨doc.above ++ [doc.left], [], line, below⟩
    | [] => doc

def moveUp (doc : LineDoc α) : LineDoc α :=
  match doc.above.getLast? with
  | some line =>
    ⟨doc.above.dropLast, line.take doc.left.length, line.drop doc.left.length, (doc.left ++ doc.right) :: doc.below⟩
  | none => doc

def moveDown (doc : LineDoc α) : LineDoc α :=
  match doc.below with
  | line :: below =>
    ⟨doc.above ++ [doc.left ++ doc.right], line.take doc.left.length, line.drop doc.left.length, below⟩
  | [] => doc

/-- The lines joined by newlines. -/
def flat (newline : α) (doc : LineDoc α) : TextBuffer α where
  before := doc.above.flatMap (· ++ [newline]) ++ doc.left
  after := doc.right ++ doc.below.flatMap (newline :: ·)

/-- No line has a newline in it. -/
def Plain (newline : α) (doc : LineDoc α) : Prop := ∀ line ∈ doc.lines, newline ∉ line

theorem plain_iff (doc : LineDoc α) (newline : α) : doc.Plain newline ↔
    (∀ line ∈ doc.above, newline ∉ line) ∧ newline ∉ doc.left ∧ newline ∉ doc.right ∧
      ∀ line ∈ doc.below, newline ∉ line := by
  simp only [Plain, lines, List.mem_append, List.mem_cons]
  constructor
  · intro plain
    have line := plain (doc.left ++ doc.right) (.inr (.inl rfl))
    simp only [List.mem_append, not_or] at line
    exact ⟨fun line member => plain line (.inl member), line.1, line.2,
      fun line member => plain line (.inr (.inr member))⟩
  · rintro ⟨above, left, right, below⟩ line (member | rfl | member)
    · exact above line member
    · simp only [List.mem_append, not_or]
      exact ⟨left, right⟩
    · exact below line member

theorem plain_insert {doc : LineDoc α} {newline : α} (plain : doc.Plain newline) (other : newline ≠ c) :
    (doc.insert c).Plain newline := by
  obtain ⟨above, left, right, below⟩ := (plain_iff doc newline).mp plain
  refine (plain_iff _ newline).mpr ⟨above, ?_, right, below⟩
  simp only [insert, List.mem_append, List.mem_singleton, not_or]
  exact ⟨left, other⟩

theorem plain_split {doc : LineDoc α} {newline : α} (plain : doc.Plain newline) : doc.split.Plain newline := by
  obtain ⟨above, left, right, below⟩ := (plain_iff doc newline).mp plain
  refine (plain_iff _ newline).mpr ⟨fun line member => ?_, List.not_mem_nil, right, below⟩
  rcases List.mem_append.mp member with old | new
  · exact above line old
  · rw [List.mem_singleton.mp new]
    exact left

theorem plain_erase {doc : LineDoc α} {newline : α} (plain : doc.Plain newline) (fits : Nat → Prop)
    [DecidablePred fits] : (doc.erase fits).Plain newline := by
  obtain ⟨aboveOk, leftOk, rightOk, belowOk⟩ := (plain_iff doc newline).mp plain
  obtain ⟨above, left, right, below⟩ := doc
  unfold erase
  split
  · exact (plain_iff _ newline).mpr ⟨aboveOk, fun member => leftOk (List.dropLast_subset _ member), rightOk, belowOk⟩
  · split
    · rename_i line last
      split
      · exact (plain_iff _ newline).mpr ⟨fun line member => aboveOk line (List.dropLast_subset _ member),
          aboveOk line (List.mem_of_getLast? last), rightOk, belowOk⟩
      · exact plain
    · exact plain

theorem plain_of_lines {doc doc' : LineDoc α} {newline : α} (plain : doc.Plain newline) (same : doc'.lines = doc.lines) :
    doc'.Plain newline := fun line member => plain line (same ▸ member)

theorem intercalate_cons (newline : α) (line : List α) (below : List (List α)) :
    List.intercalate [newline] (line :: below) = line ++ below.flatMap (newline :: ·) := by
  induction below generalizing line with
  | nil => simp [List.intercalate]
  | cons next rest ih =>
    have tail := ih next
    simp only [List.intercalate, List.intersperse_cons_cons, List.flatten_cons, List.flatMap_cons] at tail ⊢
    rw [tail]
    simp

theorem flat_text (newline : α) (doc : LineDoc α) :
    (doc.flat newline).text = List.intercalate [newline] doc.lines := by
  obtain ⟨above, left, right, below⟩ := doc
  simp only [flat, lines, TextBuffer.text]
  induction above with
  | nil => simp [intercalate_cons]
  | cons line rest ih =>
    have shape : ∃ head tail, rest ++ (left ++ right) :: below = head :: tail := by
      cases rest with
      | nil => exact ⟨_, _, rfl⟩
      | cons head tail => exact ⟨_, _, rfl⟩
    obtain ⟨head, tail, shape⟩ := shape
    have joined : List.intercalate [newline] (line :: head :: tail) =
        line ++ newline :: List.intercalate [newline] (head :: tail) := by
      rw [intercalate_cons, intercalate_cons, List.flatMap_cons, List.cons_append]
    rw [List.cons_append, shape, joined, ← shape, ← ih]
    simp

theorem newline_flatMap (newline : α) (lines : List (List α)) :
    newline :: lines.flatMap (· ++ [newline]) = lines.flatMap (newline :: ·) ++ [newline] := by
  induction lines with
  | nil => rfl
  | cons line rest ih =>
    simp only [List.flatMap_cons, List.append_assoc, List.cons_append, List.nil_append, ih]

/-- The newline in front of the lines moves behind them. -/
theorem newline_flatMap_append (newline : α) (lines : List (List α)) (rest : List α) :
    lines.flatMap (newline :: ·) ++ newline :: rest = newline :: (lines.flatMap (· ++ [newline]) ++ rest) := by
  rw [← List.cons_append, newline_flatMap, List.append_assoc, List.singleton_append]

/-- Every line ended by a newline is the text and one more newline. -/
theorem lines_flatMap (newline : α) (doc : LineDoc α) :
    doc.lines.flatMap (· ++ [newline]) = (doc.flat newline).text ++ [newline] := by
  simp only [lines, flat, TextBuffer.text, List.flatMap_append, List.flatMap_cons, List.append_assoc,
    List.cons_append, List.nil_append, newline_flatMap]

theorem flat_insert (newline : α) (doc : LineDoc α) (c : α) :
    (doc.insert c).flat newline = (doc.flat newline).insert c := by
  simp [flat, insert, TextBuffer.insert]

theorem flat_split (newline : α) (doc : LineDoc α) :
    doc.split.flat newline = (doc.flat newline).insert newline := by
  simp [flat, split, TextBuffer.insert]

section Places
variable (above below : List (List α)) (left right line : List α) (c : α)

@[simp] theorem erase_char (fits : Nat → Prop) [DecidablePred fits] :
    (⟨above, left ++ [c], right, below⟩ : LineDoc α).erase fits = ⟨above, left, right, below⟩ := by
  simp [erase]

@[simp] theorem erase_line (fits : Nat → Prop) [DecidablePred fits] :
    (⟨above ++ [line], [], right, below⟩ : LineDoc α).erase fits =
      if fits (line.length + right.length) then ⟨above, line, right, below⟩
      else ⟨above ++ [line], [], right, below⟩ := by
  simp [erase]

@[simp] theorem erase_start (fits : Nat → Prop) [DecidablePred fits] :
    (⟨[], [], right, below⟩ : LineDoc α).erase fits = ⟨[], [], right, below⟩ := rfl

@[simp] theorem moveLeft_char :
    (⟨above, left ++ [c], right, below⟩ : LineDoc α).moveLeft = ⟨above, left, c :: right, below⟩ := by
  simp [moveLeft]

@[simp] theorem moveLeft_line :
    (⟨above ++ [line], [], right, below⟩ : LineDoc α).moveLeft = ⟨above, line, [], right :: below⟩ := by
  simp [moveLeft]

@[simp] theorem moveLeft_start : (⟨[], [], right, below⟩ : LineDoc α).moveLeft = ⟨[], [], right, below⟩ := rfl

@[simp] theorem moveRight_char :
    (⟨above, left, c :: right, below⟩ : LineDoc α).moveRight = ⟨above, left ++ [c], right, below⟩ := rfl

@[simp] theorem moveRight_line :
    (⟨above, left, [], line :: below⟩ : LineDoc α).moveRight = ⟨above ++ [left], [], line, below⟩ := rfl

@[simp] theorem moveRight_end : (⟨above, left, [], []⟩ : LineDoc α).moveRight = ⟨above, left, [], []⟩ := rfl

@[simp] theorem moveUp_line : (⟨above ++ [line], left, right, below⟩ : LineDoc α).moveUp =
    ⟨above, line.take left.length, line.drop left.length, (left ++ right) :: below⟩ := by
  simp [moveUp]

@[simp] theorem moveUp_start : (⟨[], left, right, below⟩ : LineDoc α).moveUp = ⟨[], left, right, below⟩ := rfl

@[simp] theorem moveDown_line : (⟨above, left, right, line :: below⟩ : LineDoc α).moveDown =
    ⟨above ++ [left ++ right], line.take left.length, line.drop left.length, below⟩ := rfl

@[simp] theorem moveDown_end : (⟨above, left, right, []⟩ : LineDoc α).moveDown = ⟨above, left, right, []⟩ := rfl

end Places

theorem moveLeft_lines (doc : LineDoc α) : doc.moveLeft.lines = doc.lines := by
  obtain ⟨above, left, right, below⟩ := doc
  rcases List.eq_nil_or_concat' left with rfl | ⟨front, c, rfl⟩
  · rcases List.eq_nil_or_concat' above with rfl | ⟨rest, line, rfl⟩ <;> simp [lines]
  · simp [lines]

theorem moveRight_lines (doc : LineDoc α) : doc.moveRight.lines = doc.lines := by
  obtain ⟨above, left, right, below⟩ := doc
  cases right with
  | nil => cases below <;> simp [lines]
  | cons c right => simp [lines]

theorem moveUp_lines (doc : LineDoc α) : doc.moveUp.lines = doc.lines := by
  obtain ⟨above, left, right, below⟩ := doc
  rcases List.eq_nil_or_concat' above with rfl | ⟨rest, line, rfl⟩ <;> simp [lines]

theorem moveDown_lines (doc : LineDoc α) : doc.moveDown.lines = doc.lines := by
  obtain ⟨above, left, right, below⟩ := doc
  cases below <;> simp [lines]

theorem flat_moveLeft (newline : α) (doc : LineDoc α) :
    doc.moveLeft.flat newline = (doc.flat newline).moveLeft := by
  obtain ⟨above, left, right, below⟩ := doc
  rcases List.eq_nil_or_concat' left with rfl | ⟨front, c, rfl⟩
  · rcases List.eq_nil_or_concat' above with rfl | ⟨rest, line, rfl⟩
    · simp [flat, TextBuffer.moveLeft, TextBuffer.seek, TextBuffer.offset, TextBuffer.text]
    · rw [moveLeft_line]
      exact (TextBuffer.seek_of_append _ _ _ (by simp [flat, TextBuffer.text]) (by simp [flat, TextBuffer.offset])).symm
  · rw [moveLeft_char]
    exact (TextBuffer.seek_of_append _ _ _ (by simp [flat, TextBuffer.text]) (by simp [flat, TextBuffer.offset])).symm

theorem flat_moveRight (newline : α) (doc : LineDoc α) :
    doc.moveRight.flat newline = (doc.flat newline).moveRight := by
  obtain ⟨above, left, right, below⟩ := doc
  rcases right with _ | ⟨c, right⟩
  · rcases below with _ | ⟨line, below⟩
    · have short : ((⟨above, left, [], []⟩ : LineDoc α).flat newline).text.length ≤
          ((⟨above, left, [], []⟩ : LineDoc α).flat newline).offset + 1 := by
        simp [flat, TextBuffer.text, TextBuffer.offset]
      rw [moveRight_end, TextBuffer.moveRight, TextBuffer.seek, List.take_of_length_le short,
        List.drop_of_length_le short]
      simp [flat, TextBuffer.text]
    · rw [moveRight_line]
      exact (TextBuffer.seek_of_append _ _ _ (by simp [flat, TextBuffer.text]) (by simp [flat, TextBuffer.offset]; omega)).symm
  · rw [moveRight_char]
    exact (TextBuffer.seek_of_append _ _ _ (by simp [flat, TextBuffer.text]) (by simp [flat, TextBuffer.offset]; omega)).symm

section Lines
variable [DecidableEq α] {newline : α}

/-- What is before the cursor ends the lines above, or is nothing. -/
theorem lineBefore_append (above : List (List α)) {left : List α} (plain : newline ∉ left) (after : List α) :
    (⟨above.flatMap (· ++ [newline]) ++ left, after⟩ : TextBuffer α).lineBefore newline = left := by
  have own : ∀ c ∈ left.reverse, (c != newline) = true := fun c member =>
    bne_iff_ne.mpr fun same => plain (same ▸ List.mem_reverse.mp member)
  have stop : ((above.flatMap (· ++ [newline])).reverse.takeWhile (· != newline)) = [] := by
    rcases List.eq_nil_or_concat' above with rfl | ⟨rest, line, rfl⟩ <;> simp
  simp only [TextBuffer.lineBefore, List.reverse_append, List.takeWhile_append_of_pos own, stop, List.append_nil,
    List.reverse_reverse]

theorem lineAfter_append (below : List (List α)) {right : List α} (plain : newline ∉ right) (before : List α) :
    (⟨before, right ++ below.flatMap (newline :: ·)⟩ : TextBuffer α).lineAfter newline = right := by
  have own : ∀ c ∈ right, (c != newline) = true := fun c member =>
    bne_iff_ne.mpr fun same => plain (same ▸ member)
  have stop : (below.flatMap (newline :: ·)).takeWhile (· != newline) = [] := by
    cases below <;> simp
  simp only [TextBuffer.lineAfter, List.takeWhile_append_of_pos own, stop, List.append_nil]

variable {doc : LineDoc α} (plain : doc.Plain newline)
include plain

theorem flat_lineBefore : (doc.flat newline).lineBefore newline = doc.left :=
  lineBefore_append doc.above ((plain_iff doc newline).mp plain).2.1 _

theorem flat_lineAfter : (doc.flat newline).lineAfter newline = doc.right :=
  lineAfter_append doc.below ((plain_iff doc newline).mp plain).2.2.1 _

theorem flat_lineLength : (doc.flat newline).lineLength newline = doc.left.length + doc.right.length := by
  rw [TextBuffer.lineLength, flat_lineBefore plain, flat_lineAfter plain]

theorem flat_lineCount : (doc.flat newline).lineCount newline = doc.above.length + 1 + doc.below.length := by
  obtain ⟨aboveOk, leftOk, rightOk, belowOk⟩ := (plain_iff doc newline).mp plain
  have above : ∀ lines : List (List α), (∀ line ∈ lines, newline ∉ line) →
      (lines.flatMap (· ++ [newline])).count newline = lines.length := by
    intro lines each
    induction lines with
    | nil => rfl
    | cons line rest ih =>
      simp [List.count_eq_zero_of_not_mem (each line List.mem_cons_self),
        ih fun line member => each line (List.mem_cons_of_mem _ member)]
  have below : ∀ lines : List (List α), (∀ line ∈ lines, newline ∉ line) →
      (lines.flatMap (newline :: ·)).count newline = lines.length := by
    intro lines each
    induction lines with
    | nil => rfl
    | cons line rest ih =>
      simp [List.count_eq_zero_of_not_mem (each line List.mem_cons_self),
        ih fun line member => each line (List.mem_cons_of_mem _ member)]
  simp only [TextBuffer.lineCount, TextBuffer.text, flat, List.count_append, above _ aboveOk, below _ belowOk,
    List.count_eq_zero_of_not_mem leftOk, List.count_eq_zero_of_not_mem rightOk]
  omega

theorem flat_moveUp : doc.moveUp.flat newline = (doc.flat newline).moveUp newline := by
  obtain ⟨above, left, right, below⟩ := doc
  have column := flat_lineBefore plain
  rcases List.eq_nil_or_concat' above with rfl | ⟨rest, line, rfl⟩
  · have start : (LineDoc.flat newline ⟨[], left, right, below⟩).lineStart newline = 0 := by
      rw [TextBuffer.lineStart, column]
      simp [flat, TextBuffer.offset]
    rw [moveUp_start, TextBuffer.moveUp, if_pos start]
  · have lineOk : newline ∉ line := ((plain_iff _ newline).mp plain).1 line (by simp)
    have start : (LineDoc.flat newline ⟨rest ++ [line], left, right, below⟩).lineStart newline =
        (rest.flatMap (· ++ [newline]) ++ line).length + 1 := by
      rw [TextBuffer.lineStart, column]
      simp [flat, TextBuffer.offset]
      omega
    have above := TextBuffer.seek_of_append (LineDoc.flat newline ⟨rest ++ [line], left, right, below⟩)
      (rest.flatMap (· ++ [newline]) ++ line) (newline :: (left ++ right ++ below.flatMap (newline :: ·)))
      (by simp [flat, TextBuffer.text]) rfl
    rw [moveUp_line, TextBuffer.moveUp, if_neg (by omega), column, start, Nat.add_sub_cancel, above]
    simp only [TextBuffer.lineStart, lineBefore_append rest lineOk]
    refine (TextBuffer.seek_of_append _ _ _ ?_ ?_).symm
    · simp only [TextBuffer.text, List.append_assoc, List.append_cancel_left_eq]
      rw [← List.append_assoc (List.take _ line), List.take_append_drop]
      simp
    · simp [TextBuffer.offset]

theorem flat_moveDown : doc.moveDown.flat newline = (doc.flat newline).moveDown newline := by
  obtain ⟨above, left, right, below⟩ := doc
  have column := flat_lineBefore plain
  have tail := flat_lineAfter plain
  rcases below with _ | ⟨line, below⟩
  · have last : (LineDoc.flat newline ⟨above, left, right, []⟩).lineAfter newline =
        (LineDoc.flat newline ⟨above, left, right, []⟩).after := by
      rw [tail]
      simp [flat]
    rw [moveDown_end, TextBuffer.moveDown, if_pos last]
  · have lineOk : newline ∉ line := ((plain_iff _ newline).mp plain).2.2.2 line (by simp)
    have more : (LineDoc.flat newline ⟨above, left, right, line :: below⟩).lineAfter newline ≠
        (LineDoc.flat newline ⟨above, left, right, line :: below⟩).after := by
      rw [tail]
      simp [flat]
    have next := TextBuffer.seek_of_append (LineDoc.flat newline ⟨above, left, right, line :: below⟩)
      (above.flatMap (· ++ [newline]) ++ left ++ right ++ [newline]) (line ++ below.flatMap (newline :: ·))
      (by simp [flat, TextBuffer.text])
      (show (LineDoc.flat newline ⟨above, left, right, line :: below⟩).offset + right.length + 1 = _ by
        simp [flat, TextBuffer.offset]
        omega)
    rw [moveDown_line, TextBuffer.moveDown, if_neg more, column, tail, next]
    simp only [lineAfter_append below lineOk]
    refine (TextBuffer.seek_of_append _ _ _ ?_ ?_).symm
    · simp only [TextBuffer.text, List.append_assoc]
      rw [← List.append_assoc (List.take _ line), List.take_append_drop]
      simp
    · simp [TextBuffer.offset]
      omega

theorem flat_erase (fits : Nat → Prop) [DecidablePred fits] :
    (doc.erase fits).flat newline = (doc.flat newline).eraseWithin newline fits := by
  obtain ⟨aboveOk, leftOk, rightOk, _⟩ := (plain_iff doc newline).mp plain
  obtain ⟨above, left, right, below⟩ := doc
  rcases List.eq_nil_or_concat' left with rfl | ⟨front, c, rfl⟩
  · rcases List.eq_nil_or_concat' above with rfl | ⟨rest, line, rfl⟩
    · simp [flat, TextBuffer.eraseWithin]
    · have lineOk : newline ∉ line := aboveOk line (by simp)
      have joined : (LineDoc.flat newline ⟨rest ++ [line], [], right, below⟩).erase =
          LineDoc.flat newline ⟨rest, line, right, below⟩ := by
        simp [flat, TextBuffer.erase, ← List.append_assoc]
      have length : (LineDoc.flat newline ⟨rest, line, right, below⟩).lineLength newline =
          line.length + right.length := by
        rw [TextBuffer.lineLength]
        simp only [flat]
        rw [lineBefore_append rest lineOk, lineAfter_append below rightOk]
      have last : (LineDoc.flat newline ⟨rest ++ [line], [], right, below⟩).before.getLast? = some newline := by
        simp [flat, ← List.append_assoc]
      rw [erase_line, TextBuffer.eraseWithin, last]
      simp only [joined, length, true_and]
      split <;> simp_all
  · have other : c ≠ newline := fun same => leftOk (by simp [same])
    have last : (LineDoc.flat newline ⟨above, front ++ [c], right, below⟩).before.getLast? = some c := by
      simp [flat, ← List.append_assoc]
    rw [erase_char, TextBuffer.eraseWithin, last]
    simp only [other, false_and, if_false]
    simp [flat, TextBuffer.erase, ← List.append_assoc]

end Lines

end LineDoc

end LivlyOS.Lib
