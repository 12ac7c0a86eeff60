import LivlyOS.Console.Vga
import LivlyOS.Lib.Wrapping

namespace LivlyOS.Console

open LivlyOS.Lib Wrapped

/-- A character with the colour attribute. -/
def attributed (c farbe : UInt8) : UInt16 := c.toUInt16 ||| farbe.toUInt16 <<< 8

/-- The cells show rows of text from the top on; what they leave is blank. -/
def Pictures (puffer : Int → UInt16) (farbe : UInt8) (rows : List (List UInt8)) : Prop :=
  ∀ r s : Nat, r < 25 → s < 80 →
    puffer (r * 80 + s) = attributed (((rows[r]?).bind fun row => row[s]?).getD 32) farbe

/-- The screen shows the end of a text, with the cursor behind it. -/
structure ShowsText (vga : VgaState) (text : Wrapped UInt8) : Prop where
  row : vga.row = (text.window 25).length - 1
  col : vga.col = text.current.length
  cells : Pictures vga.puffer vga.farbe (text.window 25)

theorem cellOf_ascii (ascii : c < 0x80) (farbe : UInt8) : cellOf c farbe = attributed c farbe := by
  rw [cellOf, if_pos ascii]
  rfl

namespace Pictures

variable {puffer : Int → UInt16} {top rows : List (List UInt8)} {current : List UInt8}

theorem put (pictures : Pictures puffer farbe (top ++ [current])) (ascii : c < 0x80) (wide : current.length < 80) :
    Pictures (Function.update puffer (top.length * 80 + current.length) (cellOf c farbe)) farbe
      (top ++ [current ++ [c]]) := by
  intro r s inside within
  have before := pictures r s inside within
  rcases Nat.lt_trichotomy r top.length with above | here | below
  · rw [List.getElem?_append_left above] at before ⊢
    rw [Function.update_of_ne (by omega), before]
  · rw [here, List.getElem?_concat_length] at before ⊢
    rw [Option.bind_some] at before ⊢
    by_cases fresh : s = current.length
    · rw [fresh, Function.update_self, cellOf_ascii ascii, List.getElem?_concat_length]
      rfl
    · rw [Function.update_of_ne (by omega), before]
      by_cases old : s < current.length
      · rw [List.getElem?_append_left old]
      · rw [List.getElem?_eq_none (by omega), List.getElem?_eq_none]
        rw [List.length_append, List.length_singleton]
        omega
  · rw [List.getElem?_eq_none (by rw [List.length_append, List.length_singleton]; omega)] at before ⊢
    rw [Function.update_of_ne (by omega), before]

/-- An empty row below the others changes nothing. -/
theorem feed (pictures : Pictures puffer farbe rows) : Pictures puffer farbe (rows ++ [[]]) := by
  intro r s inside within
  rw [pictures r s inside within]
  rcases Nat.lt_trichotomy r rows.length with above | here | below
  · rw [List.getElem?_append_left above]
  · rw [here, List.getElem?_concat_length, List.getElem?_eq_none (Nat.le_refl _)]
    rfl
  · rw [List.getElem?_eq_none (by omega), List.getElem?_eq_none]
    rw [List.length_append, List.length_singleton]
    omega

/-- On a full screen it takes the place of the uppermost one. -/
theorem scroll {puffer' : Int → UInt16} (pictures : Pictures puffer farbe rows) (full : rows.length = 25)
    (shifted : ∀ i, 0 ≤ i → i < 1920 → puffer' i = puffer (i + 80))
    (blank : ∀ i, 1920 ≤ i → i < 2000 → puffer' i = cellOf 32 farbe) :
    Pictures puffer' farbe (rows.drop 1 ++ [[]]) := by
  intro r s inside within
  have length : (rows.drop 1).length = 24 := by rw [List.length_drop, full]
  by_cases last : r = 24
  · rw [last, blank _ (by omega) (by omega), List.getElem?_append_right (by omega), length, cellOf_ascii (by decide)]
    rfl
  · have before := pictures (r + 1) s (by omega) within
    rw [show ((r + 1 : Nat) : Int) * 80 + s = r * 80 + s + 80 by omega] at before
    rw [shifted _ (by omega) (by omega), before, List.getElem?_append_left (by omega), List.getElem?_drop,
      Nat.add_comm 1 r]

end Pictures

namespace ShowsText

variable {vga : VgaState} {text : Wrapped UInt8}

/-- The end of `vga_putchar` once a row is left: the next row is begun, on a full screen by
scrolling. -/
theorem feed (vga : VgaState) (cells : Pictures vga.puffer vga.farbe (text.window 25)) (row : vga.row = (text.window 25).length)
    (col : vga.col = 0) :
    ∃ vga', (if vga.row ≥ 25 then vgaScroll vga else some vga) = some vga' ∧ vga'.farbe = vga.farbe ∧
      ShowsText vga' text.feed := by
  have window := window_feed (show 0 < 25 by decide) text
  have height := window_length 25 text
  by_cases full : (text.window 25).length < 25
  · rw [if_pos full] at window
    rw [if_neg (by omega)]
    refine ⟨vga, rfl, rfl, ?_, col, ?_⟩
    · rw [window, List.length_append, List.length_singleton, row]
      omega
    · rw [window]
      exact cells.feed
  · rw [if_neg full] at window
    rw [if_pos (by omega)]
    obtain ⟨scrolled, ran, last, cols, same, shifted, blank⟩ := vgaScroll_spec vga
    refine ⟨scrolled, ran, same, ?_, cols.trans col, ?_⟩
    · rw [window, List.length_append, List.length_drop, List.length_singleton, last]
      omega
    · rw [window, same]
      exact cells.scroll (by omega) shifted blank

/-- The row of the cursor, seen from the rows above it. -/
theorem row_eq (shows : ShowsText vga text) : vga.row = (text.above.drop (text.above.length + 1 - 25)).length := by
  rw [shows.row, window_eq (by decide), List.length_append, List.length_singleton]
  omega

/-- The cursor is in the last of at most 25 rows, and before the end of it. -/
theorem onScreen (shows : ShowsText vga text) (isOpen : text.Open 80) : vga.OnScreen := by
  have height := window_length 25 text
  have wide : text.current.length < 80 := isOpen
  obtain ⟨row, col, _⟩ := shows
  constructor <;> omega

theorem store (shows : ShowsText vga text) (isOpen : text.Open 80) (ascii : c < 0x80) :
    ∃ puffer, Pictures puffer vga.farbe ((text.put c).window 25) ∧
      vgaStore c vga = some (if vga.col + 1 ≥ 80 then { vga with puffer, col := 0, row := vga.row + 1 }
        else { vga with puffer, col := vga.col + 1 }) := by
  have wide : text.current.length < 80 := isOpen
  obtain ⟨⟨top, bottom⟩, ⟨left, right⟩⟩ := shows.onScreen isOpen
  refine ⟨Function.update vga.puffer (vga.row * 80 + vga.col) (cellOf c vga.farbe), ?_, ?_⟩
  · have cells := shows.cells
    rw [window_eq (by decide)] at cells
    rw [window_eq (by decide), shows.row_eq, shows.col]
    exact cells.put ascii wide
  · unfold vgaStore
    rw [cellIndex_screen top (by omega) left (by omega), checkInt_eq ⟨by omega, by omega⟩]
    change (writeCell 2000 vga.puffer _ _).bind _ = _
    rw [writeCell_eq _ (by omega)]
    rfl

theorem newline (shows : ShowsText vga text) (isOpen : text.Open 80) :
    ∃ lineLength, vgaNewline vga = some { vga with lineLength, col := 0, row := vga.row + 1 } := by
  obtain ⟨⟨top, bottom⟩, _⟩ := shows.onScreen isOpen
  refine ⟨Function.update vga.lineLength vga.row vga.col, ?_⟩
  rw [vgaNewline, writeCell_eq _ ⟨top, bottom⟩]
  rfl

theorem putchar (shows : ShowsText vga text) (isOpen : text.Open 80) (ascii : c < 0x80) :
    ∃ vga', vgaPutchar c vga = some vga' ∧ vga'.farbe = vga.farbe ∧ ShowsText vga' (type 80 10 text c) ∧
      vga'.cursor = UInt16.ofInt vga'.index := by
  have height := window_length 25 text
  have open' := type_open 10 isOpen c
  suffices moved : ∃ turned vga', (if c = 10 then vgaNewline vga else vgaStore c vga) = some turned ∧
      (if turned.row ≥ 25 then vgaScroll turned else some turned) = some vga' ∧ vga'.farbe = vga.farbe ∧
      ShowsText vga' (type 80 10 text c) by
    obtain ⟨turned, vga', first, second, same, shows'⟩ := moved
    obtain ⟨⟨top, bottom⟩, left, right⟩ := shows'.onScreen open'
    refine ⟨{ vga' with cursor := UInt16.ofInt vga'.index }, ?_, same, ⟨shows'.row, shows'.col, shows'.cells⟩, rfl⟩
    rw [vgaPutchar, first, Option.bind_some, second, Option.bind_some]
    exact vgaSetCursor_eq top (by omega) left (by omega) vga'
  by_cases feeds : c = 10
  · obtain ⟨lineLength, turned⟩ := shows.newline isOpen
    obtain ⟨vga', scrolled, same, shows'⟩ := feed { vga with lineLength, col := 0, row := vga.row + 1 }
      shows.cells (by change vga.row + 1 = _; rw [shows.row]; omega) rfl
    have typed : type 80 10 text c = text.feed := if_pos feeds
    exact ⟨_, vga', (if_pos feeds).trans turned, scrolled, same, typed ▸ shows'⟩
  · obtain ⟨puffer, cells, stored⟩ := shows.store isOpen ascii
    have wide : text.current.length < 80 := isOpen
    have put := window_length 25 (text.put c)
    change _ = min 25 (text.above.length + 1) at put
    by_cases filled : text.current.length + 1 = 80
    · have typed : type 80 10 text c = (text.put c).feed := (if_neg feeds).trans (if_pos filled)
      rw [if_pos (by rw [shows.col]; omega)] at stored
      obtain ⟨vga', scrolled, same, shows'⟩ := feed { vga with puffer, col := 0, row := vga.row + 1 }
        cells (by change vga.row + 1 = _; rw [shows.row, put, height]; omega) rfl
      exact ⟨_, vga', (if_neg feeds).trans stored, scrolled, same, typed ▸ shows'⟩
    · have typed : type 80 10 text c = text.put c := (if_neg feeds).trans (if_neg filled)
      rw [if_neg (by rw [shows.col]; omega)] at stored
      refine ⟨_, _, (if_neg feeds).trans stored, if_neg ?_, rfl, ?_⟩
      · change ¬ vga.row ≥ 25
        rw [shows.row]
        omega
      · rw [typed]
        refine ⟨?_, ?_, cells⟩
        · change vga.row = _
          rw [shows.row, put, height]
        · change vga.col + 1 = ((text.current ++ [c]).length : Int)
          rw [shows.col, List.length_append, List.length_singleton]
          rfl

theorem print (shows : ShowsText vga text) (isOpen : text.Open 80) (chars : List UInt8) (ascii : ∀ c ∈ chars, c < 0x80) :
    ∃ vga', vgaPrint chars vga = some vga' ∧ vga'.farbe = vga.farbe ∧
      ShowsText vga' (chars.foldl (type 80 10) text) ∧ (chars ≠ [] → vga'.cursor = UInt16.ofInt vga'.index) := by
  induction chars generalizing vga text with
  | nil => exact ⟨vga, rfl, rfl, shows, fun more => absurd rfl more⟩
  | cons c rest ih =>
    obtain ⟨next, first, same, shows', cursor⟩ := shows.putchar isOpen (ascii c List.mem_cons_self)
    obtain ⟨vga', later, same', shows'', cursor'⟩ := ih shows' (type_open 10 isOpen c)
      fun c present => ascii c (List.mem_cons_of_mem _ present)
    refine ⟨vga', ?_, same'.trans same, shows'', fun _ => ?_⟩
    · rw [vgaPrint, first, Option.bind_some, later]
    · cases rest with
      | nil =>
        cases later
        exact cursor
      | cons _ _ => exact cursor' (List.cons_ne_nil _ _)

end ShowsText

theorem vgaClear_spec (vga : VgaState) :
    ∃ cleared, vgaClear vga = some cleared ∧ cleared.farbe = vga.farbe ∧ ShowsText cleared Wrapped.start := by
  obtain ⟨puffer, ran, blank⟩ := forUp_invariant 0 2000
    (fun i puffer => writeCell 2000 puffer i (cellOf 32 vga.farbe)) vga.puffer
    (fun i puffer => ∀ k, 0 ≤ k → k < i → puffer k = cellOf 32 vga.farbe)
    (by
      intro i puffer above below blank
      refine ⟨_, writeCell_eq puffer ⟨above, below⟩ _, fun k low high => ?_⟩
      by_cases here : k = i
      · rw [here, Function.update_self]
      · rw [Function.update_of_ne here, blank k low (by omega)])
    (by omega) fun k low high => absurd low (by omega)
  refine ⟨{ vga with puffer, row := 0, col := 0 }, ?_, rfl, rfl, rfl, ?_⟩
  · rw [vgaClear, ran]
    rfl
  · intro r s inside within
    change puffer _ = _
    rw [blank _ (by omega) (by omega), cellOf_ascii (by decide)]
    change attributed 32 vga.farbe = attributed ((([[]] : List (List UInt8))[r]?.bind fun row => row[s]?).getD 32) vga.farbe
    cases r <;> rfl

/-- After a clear the screen shows the tail of what is printed, and no write misses it. -/
theorem vga_shows_tail (vga : VgaState) (ascii : ∀ c ∈ text, c < 0x80) :
    ∃ final, (vgaClear vga).bind (vgaPrint text) = some final ∧ final.farbe = vga.farbe ∧
      Pictures final.puffer vga.farbe ((wrap 80 10 text).window 25) ∧
      final.row = ((wrap 80 10 text).window 25).length - 1 ∧ final.col = (wrap 80 10 text).current.length ∧
      (text ≠ [] → final.cursor = UInt16.ofInt (final.row * 80 + final.col)) := by
  obtain ⟨cleared, first, same, shows⟩ := vgaClear_spec vga
  obtain ⟨final, printed, same', shows', cursor⟩ := shows.print (show 0 < 80 by decide) text ascii
  have colour := same'.trans same
  refine ⟨final, by rw [first, Option.bind_some, printed], colour, ?_, shows'.row, shows'.col, cursor⟩
  rw [← colour]
  exact shows'.cells

theorem vga_shows_two_rows :
    ∃ final, (vgaClear (vgaStart fun _ => 0)).bind (vgaPrint [72, 105, 10]) = some final ∧ final.farbe = 7 ∧
      Pictures final.puffer 7 [[72, 105], []] ∧ final.row = 1 ∧ final.col = 0 ∧
      ([72, 105, 10] ≠ ([] : List UInt8) → final.cursor = UInt16.ofInt (final.row * 80 + final.col)) :=
  vga_shows_tail (vgaStart fun _ => 0) (by simp)

end LivlyOS.Console
