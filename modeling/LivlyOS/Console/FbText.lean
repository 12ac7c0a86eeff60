import LivlyOS.Console.FbScreen
import LivlyOS.Lib.Wrapping

namespace LivlyOS.Console

open LivlyOS.Lib Wrapped

/-- The rows of a text that come to stand on a line of the screen. -/
def rowsOn (lines line : Nat) (rows : List (List UInt8)) : List (List UInt8) :=
  if line + 1 < lines then (rows.drop line).take 1 else rows.drop line

/-- The last row that reaches a column shows there. -/
def overlay (rows : List (List UInt8)) (column : Nat) : UInt8 :=
  (rows.reverse.findSome? (fun row => row[column]?)).getD 0x20

theorem overlay_put (rows : List (List UInt8)) (current : List UInt8) (c : UInt8) (column : Nat) :
    overlay (rows ++ [current ++ [c]]) column = if column = current.length then c else overlay (rows ++ [current]) column := by
  unfold overlay
  rw [List.reverse_append, List.reverse_append, List.reverse_singleton, List.reverse_singleton, List.singleton_append,
    List.singleton_append, List.findSome?_cons, List.findSome?_cons]
  by_cases here : column = current.length
  · rw [if_pos here, here, List.getElem?_concat_length]
    rfl
  · rw [if_neg here]
    rcases Nat.lt_or_gt_of_ne here with before | behind
    · rw [List.getElem?_append_left before]
    · rw [List.getElem?_eq_none (Nat.le_of_lt behind), List.getElem?_eq_none]
      rw [List.length_append, List.length_singleton]
      omega

theorem overlay_feed (rows : List (List UInt8)) (column : Nat) : overlay (rows ++ [[]]) column = overlay rows column := by
  unfold overlay
  rw [List.reverse_append, List.reverse_singleton, List.singleton_append, List.findSome?_cons, List.getElem?_nil]

variable {lines line : Nat}

/-- On the line of the cursor the current row lies on top. -/
theorem rowsOn_current (above : List (List UInt8)) (positive : 0 < lines) (here : line = min above.length (lines - 1)) :
    ∃ below, ∀ current, rowsOn lines line (above ++ [current]) = below ++ [current] := by
  unfold rowsOn
  split
  · refine ⟨[], fun current => ?_⟩
    rw [show line = above.length by omega, List.drop_left]
    rfl
  · refine ⟨above.drop line, fun current => ?_⟩
    rw [List.drop_append_of_le_length (by omega)]

theorem rowsOn_other (above : List (List UInt8)) (inside : line < lines) (other : line ≠ min above.length (lines - 1))
    (current next : List UInt8) : rowsOn lines line (above ++ [current]) = rowsOn lines line (above ++ [next]) := by
  unfold rowsOn
  by_cases reached : line < above.length
  · rw [if_pos (by omega), if_pos (by omega), List.drop_append_of_le_length (by omega), List.drop_append_of_le_length (by omega),
      List.take_append_of_le_length (by rw [List.length_drop]; omega), List.take_append_of_le_length (by rw [List.length_drop]; omega)]
  · rw [List.drop_eq_nil_of_le (by rw [List.length_append, List.length_singleton]; omega),
      List.drop_eq_nil_of_le (by rw [List.length_append, List.length_singleton]; omega)]

theorem rowsOn_feed (rows : List (List UInt8)) (column : Nat) :
    overlay (rowsOn lines line (rows ++ [[]])) column = overlay (rowsOn lines line rows) column := by
  unfold rowsOn
  rcases Nat.lt_trichotomy line rows.length with before | here | behind
  · rw [List.drop_append_of_le_length (by omega), List.take_append_of_le_length (by rw [List.length_drop]; omega)]
    split
    · rfl
    · exact overlay_feed _ column
  · rw [here, List.drop_left, List.drop_length]
    split <;> exact overlay_feed [] column
  · rw [List.drop_eq_nil_of_le (by rw [List.length_append, List.length_singleton]; omega), List.drop_eq_nil_of_le (by omega)]

/-- The character that a text leaves in a cell. -/
def shownChar (lines : Nat) (text : Wrapped UInt8) (line column : Nat) : UInt8 := overlay (rowsOn lines line text.rows) column

theorem shownChar_start (line column : Nat) : shownChar lines start line column = 0x20 := by
  have empty : overlay [] column = 0x20 := rfl
  rw [shownChar, rows, start, rowsOn_feed]
  rw [rowsOn, List.drop_nil, List.take_nil, ite_self, empty]

theorem shownChar_feed (text : Wrapped UInt8) (line column : Nat) :
    shownChar lines text.feed line column = shownChar lines text line column := rowsOn_feed text.rows column

theorem shownChar_put (text : Wrapped UInt8) (c : UInt8) (inside : line < lines) (column : Nat) :
    shownChar lines (text.put c) line column =
      if line = min text.above.length (lines - 1) ∧ column = text.current.length then c else shownChar lines text line column := by
  by_cases here : line = min text.above.length (lines - 1)
  · obtain ⟨below, top⟩ := rowsOn_current text.above (by omega) here
    change overlay (rowsOn lines line (text.above ++ [text.current ++ [c]])) column =
      if _ then c else overlay (rowsOn lines line (text.above ++ [text.current])) column
    rw [top, top, overlay_put]
    simp only [here, true_and]
  · rw [if_neg fun both => here both.1]
    exact congrArg (overlay · column) (rowsOn_other text.above inside here _ _)

/-- A pixel of a character that a cursor has left, or is under. -/
def barePixel (screen : TextScreen) (char : UInt8) (line column dx dy : Nat) : UInt32 :=
  if 14 ≤ dy then (if line = screen.row ∧ column = screen.col then screen.fg else screen.bg)
  else if glyphBit char dy dx then screen.fg else screen.bg

/-- The screen shows a text from the top, with the cursor behind it. Nothing is said of the last two pixel rows of
the first cell, where no cursor needs to have been. -/
structure HoldsText (screen : TextScreen) (text : Wrapped UInt8) : Prop where
  col : screen.col = text.current.length
  row : screen.row = min text.above.length (screen.rows - 1)
  isOpen : text.current.length < screen.cols
  tall : 0 < screen.rows
  last : screen.last = ((screen.col : Int), (screen.row : Int)) ∨ text = start
  cells : ∀ line < screen.rows, ∀ column < screen.cols, ∀ dx < 8, ∀ dy < 16, (dy < 14 ∨ line ≠ 0 ∨ column ≠ 0) →
    (screen.cell line column).pixel dx dy = barePixel screen (shownChar screen.rows text line column) line column dx dy

/-- The upper pixel rows are those of the characters. -/
def Glyphs (screen : TextScreen) (text : Wrapped UInt8) : Prop :=
  ∀ line < screen.rows, ∀ column < screen.cols, ∀ dx < 8, ∀ dy < 14,
    (screen.cell line column).pixel dx dy =
      if glyphBit (shownChar screen.rows text line column) dy dx then screen.fg else screen.bg

/-- The lower ones are clear, but for the cell of the drawn cursor and the first one. -/
def Strips (screen : TextScreen) : Prop :=
  ∀ line < screen.rows, ∀ column < screen.cols, ∀ dx < 8, ∀ dy < 16, 14 ≤ dy → (line ≠ 0 ∨ column ≠ 0) →
    screen.last = ((column : Int), (line : Int)) ∨ (screen.cell line column).pixel dx dy = screen.bg

theorem mark_pixel (screen : TextScreen) (x y : Int) (color : UInt32) (line column dx dy : Nat) :
    ((screen.mark x y color).cell line column).pixel dx dy =
      if 14 ≤ dy ∧ (column : Int) = x ∧ (line : Int) = y then color else (screen.cell line column).pixel dx dy := by
  rw [TextScreen.mark, TextScreen.change_cell]
  by_cases here : (column : Int) = x ∧ (line : Int) = y
  · rw [if_pos here]
    by_cases low : 14 ≤ dy
    · rw [if_pos ⟨low, here⟩, Cell.pixel, if_pos low, Option.getD_some]
    · rw [if_neg fun both => low both.1, Cell.pixel, Cell.pixel, if_neg low, if_neg low]
      rfl
  · rw [if_neg here, if_neg fun both => here both.2]

/-- Drawing the cursor makes up for what the old one and the last character have left. -/
theorem settle {screen : TextScreen} {text : Wrapped UInt8} (col : screen.col = text.current.length)
    (row : screen.row = min text.above.length (screen.rows - 1)) (isOpen : text.current.length < screen.cols) (tall : 0 < screen.rows)
    (glyphs : Glyphs screen text) (strips : Strips screen) : HoldsText (screen.setCursor screen.col screen.row) text := by
  refine ⟨col, row, isOpen, tall, .inl rfl, fun line inside column within dx left dy below shown => ?_⟩
  change Cell.pixel (TextScreen.cell (TextScreen.mark (TextScreen.mark _ _ _ _) _ _ _) line column) dx dy =
    barePixel screen (shownChar screen.rows text line column) line column dx dy
  rw [mark_pixel, mark_pixel, barePixel]
  by_cases low : 14 ≤ dy
  · rw [if_pos low]
    by_cases here : line = screen.row ∧ column = screen.col
    · rw [if_pos here, if_pos (by omega)]
    · rw [if_neg here, if_neg (by omega)]
      rcases strips line inside column within dx left dy below low (by omega) with last | clear
      · rw [if_pos ⟨low, congrArg Prod.fst last.symm, congrArg Prod.snd last.symm⟩]
      · rw [clear, ite_self]
  · rw [if_neg low, if_neg fun both => low both.1, if_neg fun both => low both.1]
    exact glyphs line inside column within dx left dy (by omega)

theorem settle_newline {screen : TextScreen} {text : Wrapped UInt8} (tall : 0 < screen.rows) (wide : 0 < screen.cols)
    (row : screen.row = min text.above.length (screen.rows - 1)) (glyphs : Glyphs screen text) (strips : Strips screen) :
    HoldsText (screen.newline.setCursor screen.newline.col screen.newline.row) text.feed := by
  have above : text.feed.above.length = text.above.length + 1 := text.rows_length
  refine settle rfl ?_ wide tall (fun line inside column within dx left dy below => ?_) strips
  · change min (screen.row + 1) (screen.rows - 1) = min text.feed.above.length (screen.rows - 1)
    omega
  · change _ = if glyphBit (shownChar screen.rows text.feed line column) dy dx then screen.fg else screen.bg
    rw [shownChar_feed]
    exact glyphs line inside column within dx left dy below

/-- Characters change neither the size nor the colours. -/
theorem after_putchar (screen : TextScreen) (c : UInt8) :
    (screen.after (.putchar c)).cols = screen.cols ∧ (screen.after (.putchar c)).rows = screen.rows ∧
      (screen.after (.putchar c)).fg = screen.fg ∧ (screen.after (.putchar c)).bg = screen.bg := by
  change (screen.putchar c).cols = _ ∧ (screen.putchar c).rows = _ ∧ (screen.putchar c).fg = _ ∧ (screen.putchar c).bg = _
  rw [TextScreen.putchar]
  dsimp only
  split
  · exact ⟨rfl, rfl, rfl, rfl⟩
  · split <;> exact ⟨rfl, rfl, rfl, rfl⟩

theorem after_putchars (screen : TextScreen) (chars : List UInt8) {final : TextScreen}
    (ran : (chars.map ConsoleCall.putchar).foldl TextScreen.after screen = final) :
    final.cols = screen.cols ∧ final.rows = screen.rows ∧ final.fg = screen.fg ∧ final.bg = screen.bg := by
  induction chars generalizing screen with
  | nil =>
    cases ran
    exact ⟨rfl, rfl, rfl, rfl⟩
  | cons c rest ih =>
    obtain ⟨cols, rows, fg, bg⟩ := ih _ ran
    obtain ⟨cols', rows', fg', bg'⟩ := after_putchar screen c
    exact ⟨cols.trans cols', rows.trans rows', fg.trans fg', bg.trans bg'⟩

namespace HoldsText

variable {screen : TextScreen} {text : Wrapped UInt8} (holds : HoldsText screen text)
include holds

theorem glyphs : Glyphs screen text := by
  intro line inside column within dx left dy below
  rw [holds.cells line inside column within dx left dy (by omega) (.inl below), barePixel, if_neg (by omega)]

theorem strips : Strips screen := by
  intro line inside column within dx left dy below low other
  rw [holds.cells line inside column within dx left dy below (.inr other), barePixel, if_pos low]
  rcases holds.last with last | rfl
  · by_cases here : line = screen.row ∧ column = screen.col
    · rw [last, here.1, here.2]
      exact .inl rfl
    · exact .inr (if_neg here)
  · have col : screen.col = 0 := holds.col
    have row : screen.row = 0 := holds.row.trans (Nat.zero_min _)
    exact .inr (if_neg (by omega))

theorem draw (c : UInt8) : Glyphs (screen.draw screen.col screen.row c screen.fg screen.bg) (text.put c) ∧
    Strips (screen.draw screen.col screen.row c screen.fg screen.bg) := by
  constructor
  · intro line (inside : line < screen.rows) column within dx left dy below
    change Cell.pixel (TextScreen.cell (TextScreen.change _ _ _ _) line column) dx dy =
      if glyphBit (shownChar screen.rows (text.put c) line column) dy dx then screen.fg else screen.bg
    rw [TextScreen.change_cell, shownChar_put text c inside, ← holds.row, ← holds.col]
    by_cases here : line = screen.row ∧ column = screen.col
    · rw [if_pos here, if_pos (by omega), Cell.pixel, if_neg (by omega)]
      rfl
    · rw [if_neg here, if_neg (by omega)]
      exact holds.glyphs line inside column within dx left dy below
  · intro line inside column within dx left dy below low other
    change screen.last = _ ∨ Cell.pixel (TextScreen.cell (TextScreen.change _ _ _ _) line column) dx dy = screen.bg
    rw [TextScreen.change_cell]
    by_cases here : line = screen.row ∧ column = screen.col
    · left
      rcases holds.last with last | rfl
      · rw [last, here.1, here.2]
      · have col : screen.col = 0 := holds.col
        have row : screen.row = 0 := holds.row.trans (Nat.zero_min _)
        omega
    · rw [if_neg (by omega)]
      exact holds.strips line inside column within dx left dy below low other

theorem putchar (c : UInt8) : HoldsText (screen.after (.putchar c)) (type screen.cols 10 text c) := by
  have isOpen := holds.isOpen
  have tall := holds.tall
  have col := holds.col
  change HoldsText ((screen.putchar c).setCursor (screen.putchar c).col (screen.putchar c).row) _
  rw [TextScreen.putchar, type]
  by_cases feeds : c = 10
  · rw [if_pos feeds, if_pos feeds]
    exact settle_newline tall (by omega) holds.row holds.glyphs holds.strips
  · obtain ⟨glyphs, strips⟩ := holds.draw c
    rw [if_neg feeds, if_neg feeds]
    by_cases more : screen.col + 1 < screen.cols
    · dsimp only
      rw [if_pos more, if_neg (by omega)]
      have put : (text.put c).current.length = text.current.length + 1 := List.length_append
      exact @settle { screen.draw screen.col screen.row c screen.fg screen.bg with col := screen.col + 1 } (text.put c)
        (by rw [put, ← col]) holds.row (by change _ < screen.cols; omega) tall glyphs strips
    · dsimp only
      rw [if_neg more, if_pos (by omega)]
      exact @settle_newline (screen.draw screen.col screen.row c screen.fg screen.bg) (text.put c) tall
        (by change 0 < screen.cols; omega) holds.row glyphs strips

theorem print (chars : List UInt8) :
    HoldsText ((chars.map ConsoleCall.putchar).foldl TextScreen.after screen) (chars.foldl (type screen.cols 10) text) := by
  induction chars generalizing screen text with
  | nil => exact holds
  | cons c rest ih =>
    have later := ih (holds.putchar c)
    rw [(after_putchar screen c).1] at later
    exact later

end HoldsText

theorem holdsText_clear (cols rows : Nat) (wide : 0 < cols) (tall : 0 < rows) :
    HoldsText ((TextScreen.start cols rows).after .clear) start := by
  refine ⟨rfl, (Nat.zero_min _).symm, wide, tall, .inr rfl, fun line inside column within dx left dy below shown => ?_⟩
  change Cell.pixel ⟨0x20, colorWhite, colorBlack, none⟩ dx dy = _
  have blank : (if glyphBit 0x20 dy dx then colorWhite else colorBlack) = colorBlack := by
    have clear : ∀ dy < 16, ∀ dx < 8, glyphBit 0x20 dy dx = false := by decide
    rw [clear dy below dx left]
    rfl
  rw [Cell.pixel_blank _ _ left below, shownChar_start, barePixel]
  split
  · rw [if_neg]
    · rfl
    · rintro ⟨top, left⟩
      change line = 0 at top
      change column = 0 at left
      omega
  · exact blank.symm

/-- What the framebuffer shows after `fb_console_init` and a clear: every text is there from the top on, its
rows from the last line on one over the other, and no character but the first has its last two pixel rows. -/
theorem fb_shows_text {fb : Framebuffer} {console : FbConsole} (check : framebufferCheck fb bpp) (wide : 8 ≤ fb.width)
    (high : 16 ≤ fb.height) (fresh : console.lastCursorCol = -1 ∧ console.lastCursorRow = -1) (chars : List UInt8) :
    ∃ started final, fbConsoleInit fb bpp console = some started ∧
      runCalls (.clear :: chars.map .putchar) started = some final ∧
      final.cursorCol = (wrap (fb.width / 8) 10 chars).current.length ∧
      final.cursorRow = (min (wrap (fb.width / 8) 10 chars).above.length (fb.height / 16 - 1) : Nat) ∧
      ∀ x y, x < fb.width / 8 * 8 → y < fb.height / 16 * 16 → (y % 16 < 14 ∨ y / 16 ≠ 0 ∨ x / 8 ≠ 0) →
        pixel fb final.mem x y =
          (if 14 ≤ y % 16 then (if ((y / 16 : Nat) : Int) = final.cursorRow ∧ ((x / 8 : Nat) : Int) = final.cursorCol
              then colorWhite else colorBlack)
            else if glyphBit (shownChar (fb.height / 16) (wrap (fb.width / 8) 10 chars) (y / 16) (x / 8)) (y % 16) (x % 8)
              then colorWhite else colorBlack).toNat := by
  obtain ⟨started, final, first, ran, shows⟩ := fbConsole_run check wide high fresh (.clear :: chars.map .putchar) (by
    intro call member
    rcases List.mem_cons.mp member with rfl | printed
    · trivial
    · obtain ⟨c, _, rfl⟩ := List.mem_map.mp printed
      trivial)
  have holds := (holdsText_clear (fb.width / 8) (fb.height / 16) (by omega) (by omega)).print chars
  obtain ⟨cols, rows, fg, bg⟩ := after_putchars ((TextScreen.start (fb.width / 8) (fb.height / 16)).after .clear) chars rfl
  rw [List.foldl_cons] at shows
  generalize (chars.map ConsoleCall.putchar).foldl TextScreen.after
    ((TextScreen.start (fb.width / 8) (fb.height / 16)).after .clear) = screen at *
  change screen.cols = fb.width / 8 at cols
  change screen.rows = fb.height / 16 at rows
  change screen.fg = colorWhite at fg
  change screen.bg = colorBlack at bg
  have above := holds.row
  rw [rows] at above
  refine ⟨started, final, first, ran, by rw [shows.col, holds.col]; rfl, by rw [shows.row, above]; rfl, fun x y inside below shown => ?_⟩
  rw [shows.pixels x y (by omega) (by omega), holds.cells (y / 16) (by omega) (x / 8) (by omega) (x % 8) (by omega) (y % 16) (by omega)
    shown, barePixel, shows.col, shows.row, fg, bg, rows]
  simp only [Int.natCast_inj]
  rfl

/-- Two characters on two lines. -/
theorem fb_shows_text_small : ∃ started final, fbConsoleInit smallFb 32 (freshConsole smallFb) = some started ∧
    runCalls [.clear, .putchar 65, .putchar 10, .putchar 95] started = some final ∧ final.cursorCol = 1 ∧ final.cursorRow = 1 ∧
    pixel smallFb final.mem 0 30 = 0 := by
  obtain ⟨started, final, first, ran, col, row, pixels⟩ := fb_shows_text (by decide : framebufferCheck smallFb 32) (by decide) (by decide)
    (by decide : (freshConsole smallFb).lastCursorCol = -1 ∧ _) [65, 10, 95]
  refine ⟨started, final, first, ran, col, row, ?_⟩
  rw [pixels 0 30 (by decide) (by decide) (by decide), col, row]
  rfl

end LivlyOS.Console
