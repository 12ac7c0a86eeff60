import LivlyOS.Lib.Bytes
import LivlyOS.Lib.Cells
import LivlyOS.Lib.Loop
import LivlyOS.Lib.MachineInt

namespace LivlyOS.Console

open LivlyOS.Lib

/-- `framebuffer_t` as `fb_init` fills it: the address has 32 bits, the sizes have 16, and the rows
of 32-bit pixels do not reach into each other. -/
structure Framebuffer where
  address : Nat
  width : Nat
  height : Nat
  pitch : Nat
  address_lt : address < 2 ^ 32
  width_lt : width < 2 ^ 16
  height_lt : height < 2 ^ 16
  pitch_lt : pitch < 2 ^ 16
  rows : 4 * width ≤ pitch

def fbInBounds (fb : Framebuffer) (x y : Int) : Prop := x ≥ 0 ∧ y ≥ 0 ∧ x.toNat < fb.width ∧ y.toNat < fb.height

instance (fb : Framebuffer) (x y : Int) : Decidable (fbInBounds fb x y) := inferInstanceAs (Decidable (_ ∧ _))

/-- `fb->address + y * fb->pitch + x * 4`; the product has 32 bits. -/
def pixelAddress (fb : Framebuffer) (x y : Nat) : Nat := u64 (fb.address + u32 (y * fb.pitch) + x * 4)

def fbDrawPixel (fb : Framebuffer) (x y : Int) (color : UInt32) (mem : Bytes) : Bytes :=
  if fbInBounds fb x y then putWord mem (pixelAddress fb x.toNat y.toNat) 4 color.toNat else mem

def fbDrawRect (fb : Framebuffer) (x y w h : Int) (color : UInt32) (mem : Bytes) : Option Bytes :=
  forUp 0 h (fun dy => forUp 0 w (fun dx mem => do
    let px ← checkInt (x + dx)
    let py ← checkInt (y + dy)
    some (fbDrawPixel fb px py color mem))) mem

/-- The variables of the loop in `fb_draw_line`, and the points it has drawn so far. -/
structure LineState where
  x0 : Int
  y0 : Int
  err : Int
  mem : Bytes
  visits : List (Int × Int)

/-- `if (e2 > -dy) { err -= dy; x0 += sx; }` -/
def lineStepX (dy sx e2 : Int) (st : LineState) : Option LineState :=
  if e2 > -dy then do
    let err ← checkInt (st.err - dy)
    let x0 ← checkInt (st.x0 + sx)
    some { st with err, x0 }
  else some st

/-- `if (e2 < dx) { err += dx; y0 += sy; }` -/
def lineStepY (dx sy e2 : Int) (st : LineState) : Option LineState :=
  if e2 < dx then do
    let err ← checkInt (st.err + dx)
    let y0 ← checkInt (st.y0 + sy)
    some { st with err, y0 }
  else some st

/-- The loop of `fb_draw_line` behind the pixel and the test for the end. -/
def lineStep (dx dy sx sy : Int) (st : LineState) : Option LineState :=
  (checkInt (2 * st.err)).bind fun e2 => (lineStepX dy sx e2 st).bind (lineStepY dx sy e2)

def lineTurn (fb : Framebuffer) (x1 y1 dx dy sx sy : Int) (color : UInt32) (st : LineState) :
    Turn LineState (Option LineState) :=
  let st := { st with mem := fbDrawPixel fb st.x0 st.y0 color st.mem, visits := st.visits ++ [(st.x0, st.y0)] }
  if st.x0 = x1 ∧ st.y0 = y1 then .leave (some st) else (lineStep dx dy sx sy st).elim (.leave none) .again

/-- `fb_draw_line` with a bound on the turns. -/
def fbDrawLine (fb : Framebuffer) (x0 y0 x1 y1 : Int) (color : UInt32) (mem : Bytes) (fuel : Nat) : Option LineState := do
  let dx ← checkInt (if x1 > x0 then x1 - x0 else x0 - x1)
  let dy ← checkInt (if y1 > y0 then y1 - y0 else y0 - y1)
  let sx := if x0 < x1 then 1 else -1
  let sy := if y0 < y1 then 1 else -1
  let err ← checkInt (dx - dy)
  (loop (lineTurn fb x1 y1 dx dy sx sy color) fuel ⟨x0, y0, err, mem, []⟩).join

/-- `fb_console_clear_line` with the framebuffer and the background colour of the console. -/
def fbConsoleClearLine (fb : Framebuffer) (bgColor : UInt32) (y : Int) (mem : Bytes) : Option Bytes :=
  (checkInt (y * 16)).bind fun top => fbDrawRect fb 0 top fb.width fb.height bgColor mem

/-- The colour of a pixel. -/
def pixel (fb : Framebuffer) (mem : Bytes) (x y : Nat) : Nat := word mem (pixelAddress fb x y) 4

variable {fb : Framebuffer} {x y x' y' : Nat}

theorem pixelAddress_eq (wide : x < fb.width) (high : y < fb.height) :
    pixelAddress fb x y = fb.address + y * fb.pitch + x * 4 := by
  have size : y * fb.pitch ≤ 65534 * 65535 :=
    Nat.mul_le_mul (by have := fb.height_lt; omega) (by have := fb.pitch_lt; omega)
  have address := fb.address_lt
  have width := fb.width_lt
  rw [pixelAddress, u32_of_lt (by omega), u64_of_lt (by omega)]

theorem pixelAddress_apart (wide : x < fb.width) (high : y < fb.height) (wide' : x' < fb.width) (high' : y' < fb.height)
    (other : ¬ (x = x' ∧ y = y')) :
    pixelAddress fb x y + 4 ≤ pixelAddress fb x' y' ∨ pixelAddress fb x' y' + 4 ≤ pixelAddress fb x y := by
  rw [pixelAddress_eq wide high, pixelAddress_eq wide' high']
  have rows := fb.rows
  rcases Nat.lt_trichotomy y y' with above | same | below
  · have next : (y + 1) * fb.pitch ≤ y' * fb.pitch := Nat.mul_le_mul_right _ above
    rw [Nat.add_mul] at next
    omega
  · rw [same]
    omega
  · have next : (y' + 1) * fb.pitch ≤ y * fb.pitch := Nat.mul_le_mul_right _ below
    rw [Nat.add_mul] at next
    omega

theorem pixel_draw (wide : x < fb.width) (high : y < fb.height) (px py : Int) (color : UInt32) (mem : Bytes) :
    pixel fb (fbDrawPixel fb px py color mem) x y = if px = x ∧ py = y then color.toNat else pixel fb mem x y := by
  unfold fbDrawPixel pixel
  by_cases inside : fbInBounds fb px py
  · obtain ⟨left, top, wide', high'⟩ := inside
    rw [if_pos ⟨left, top, wide', high'⟩]
    by_cases here : px = x ∧ py = y
    · obtain ⟨rfl, rfl⟩ := here
      rw [if_pos ⟨rfl, rfl⟩, Int.toNat_natCast, Int.toNat_natCast, word_putWord_same]
      exact Nat.mod_eq_of_lt color.toNat_lt
    · rw [if_neg here]
      apply word_putWord_other
      have apart := pixelAddress_apart wide high wide' high' fun same => here (by omega)
      omega
  · rw [if_neg inside, if_neg]
    rintro ⟨rfl, rfl⟩
    exact inside ⟨Int.natCast_nonneg x, Int.natCast_nonneg y, by omega, by omega⟩

/-- A rectangle colours its own pixels on the screen and no others. -/
theorem fbDrawRect_spec (fb : Framebuffer) (left top w h : Int) (color : UInt32) (mem : Bytes) (size : 0 ≤ w ∧ 0 ≤ h)
    (low : 0 ≤ left ∧ 0 ≤ top) (fits : FitsInt (left + w) ∧ FitsInt (top + h)) :
    ∃ mem', fbDrawRect fb left top w h color mem = some mem' ∧ ∀ x y, x < fb.width → y < fb.height →
      pixel fb mem' x y = if (left ≤ x ∧ x < left + w) ∧ top ≤ y ∧ y < top + h then color.toNat else pixel fb mem x y := by
  obtain ⟨⟨_, farRight⟩, _, bottom⟩ := fits
  refine forUp_invariant 0 h _ mem (fun dy mem' => ∀ x y, x < fb.width → y < fb.height →
    pixel fb mem' x y = if (left ≤ x ∧ x < left + w) ∧ top ≤ y ∧ y < top + dy then color.toNat else pixel fb mem x y)
    ?_ size.2 fun x y _ _ => (if_neg (by omega)).symm
  intro dy rows above below painted
  obtain ⟨next, ran, painted'⟩ := forUp_invariant 0 w
    (fun dx mem => (checkInt (left + dx)).bind fun px => (checkInt (top + dy)).bind fun py =>
      some (fbDrawPixel fb px py color mem)) rows
    (fun dx mem' => ∀ x y, x < fb.width → y < fb.height →
      pixel fb mem' x y = if (left ≤ x ∧ x < left + dx) ∧ (y : Int) = top + dy then color.toNat else pixel fb rows x y)
    (by
      intro dx cells first last painted
      refine ⟨fbDrawPixel fb (left + dx) (top + dy) color cells, ?_, fun x y wide high => ?_⟩
      · rw [checkInt_eq ⟨by omega, by omega⟩, Option.bind_some, checkInt_eq ⟨by omega, by omega⟩, Option.bind_some]
      · rw [pixel_draw wide high, painted x y wide high]
        by_cases here : left + dx = x ∧ top + dy = y
        · rw [if_pos here, if_pos (by omega)]
        · rw [if_neg here]
          congr 1
          apply propext
          omega)
    size.1 fun x y _ _ => (if_neg (by omega)).symm
  refine ⟨next, ran, fun x y wide high => ?_⟩
  rw [painted' x y wide high, painted x y wide high]
  by_cases here : (left ≤ x ∧ x < left + w) ∧ (y : Int) = top + dy
  · rw [if_pos here, if_pos (by omega)]
  · rw [if_neg here]
    congr 1
    apply propext
    omega

end LivlyOS.Console
