import Mathlib.Tactic.Common

namespace LivlyOS.Lib

/-- The rows that are complete and the row that the text ends in. -/
structure Wrapped (α : Type) where
  above : List (List α)
  current : List α

namespace Wrapped

variable {α : Type} {width : Nat} {newline : α}

def start : Wrapped α := ⟨[], []⟩

def rows (text : Wrapped α) : List (List α) := text.above ++ [text.current]

/-- Leave the current row. -/
def feed (text : Wrapped α) : Wrapped α := ⟨text.rows, []⟩

/-- Put a character at the end of the current row. -/
def put (text : Wrapped α) (c : α) : Wrapped α := { text with current := text.current ++ [c] }

/-- The last rows that fit on a screen. -/
def window (height : Nat) (text : Wrapped α) : List (List α) := text.rows.drop (text.rows.length - height)

theorem rows_length (text : Wrapped α) : text.rows.length = text.above.length + 1 := by
  rw [rows, List.length_append, List.length_singleton]

theorem window_eq (positive : 0 < height) (text : Wrapped α) :
    text.window height = text.above.drop (text.above.length + 1 - height) ++ [text.current] := by
  rw [window, rows_length, rows, List.drop_append_of_le_length (by omega)]

theorem window_length (height : Nat) (text : Wrapped α) : (text.window height).length = min height (text.above.length + 1) := by
  rw [window, List.length_drop, rows_length]
  omega

/-- A new row comes below the others, or pushes the uppermost one out. -/
theorem window_feed (positive : 0 < height) (text : Wrapped α) :
    text.feed.window height =
      (if (text.window height).length < height then text.window height else (text.window height).drop 1) ++ [[]] := by
  rw [window_eq positive, window_length]
  change text.rows.drop (text.rows.length + 1 - height) ++ [[]] = _
  congr 1
  have length := text.rows_length
  split
  · rw [window, show text.rows.length + 1 - height = 0 by omega, show text.rows.length - height = 0 by omega]
  · rw [window, List.drop_drop, show text.rows.length + 1 - height = text.rows.length - height + 1 by omega]

variable [DecidableEq α]

def type (width : Nat) (newline : α) (text : Wrapped α) (c : α) : Wrapped α :=
  if c = newline then text.feed
  else if text.current.length + 1 = width then (text.put c).feed
  else text.put c

/-- The last row has room for one more character. -/
def Open (width : Nat) (text : Wrapped α) : Prop := text.current.length < width

theorem type_open (newline : α) (isOpen : Open width text) (c : α) : Open width (type width newline text c) := by
  unfold Open at *
  unfold type
  split_ifs
  · exact Nat.zero_lt_of_lt isOpen
  · exact Nat.zero_lt_of_lt isOpen
  · change (text.current ++ [c]).length < width
    rw [List.length_append, List.length_singleton]
    omega

end Wrapped

/-- The rows of a text. -/
def wrap [DecidableEq α] (width : Nat) (newline : α) (text : List α) : Wrapped α :=
  text.foldl (Wrapped.type width newline) Wrapped.start

end LivlyOS.Lib
