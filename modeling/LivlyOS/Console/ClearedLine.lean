import LivlyOS.Console.Framebuffer
import LivlyOS.Console.Vga

/-! Clearing a line on both back ends. The VGA blanks one row; the framebuffer passes its
whole height for that of the rectangle and clears everything from the line down. -/

namespace LivlyOS.Console

open LivlyOS.Lib

variable {y yVga : Int}

/-- The cells of row `y` are blank, all others are as before. -/
def VgaClearsOnly (vga : VgaState) (y : Int) : Prop :=
  ∃ cleared, vgaClearLine y vga = some cleared ∧
    (∀ i, y * 80 ≤ i → i < (y + 1) * 80 → cleared.puffer i = cellOf 32 vga.farbe) ∧
    ∀ i, i < y * 80 ∨ (y + 1) * 80 ≤ i → cleared.puffer i = vga.puffer i

/-- The 16 pixel rows of line `y` have the background colour, all other pixels are as before. -/
def FbClearsOnly (fb : Framebuffer) (bgColor : UInt32) (mem : Bytes) (y : Int) : Prop :=
  ∃ cleared, fbConsoleClearLine fb bgColor y mem = some cleared ∧ ∀ px py, px < fb.width → py < fb.height →
    pixel fb cleared px py = if 16 * y ≤ py ∧ py < 16 * y + 16 then bgColor.toNat else pixel fb mem px py

/-- Every pixel below line `y` has the background colour. -/
def BlankBelow (fb : Framebuffer) (bgColor : UInt32) (mem : Bytes) (y : Int) : Prop :=
  ∀ px py, px < fb.width → py < fb.height → 16 * y + 16 ≤ py → pixel fb mem px py = bgColor.toNat

theorem vgaClearLine_spec (vga : VgaState) (row : 0 ≤ y ∧ y < 25) : VgaClearsOnly vga y := by
  obtain ⟨low, high⟩ := row
  obtain ⟨cleared, ran, same, blank, kept⟩ := forUp_invariant 0 80 (fun x => vgaWriteAt x y 32) vga
    (fun x cleared => cleared.farbe = vga.farbe ∧
      (∀ i, y * 80 ≤ i → i < y * 80 + x → cleared.puffer i = cellOf 32 vga.farbe) ∧
      ∀ i, i < y * 80 ∨ y * 80 + x ≤ i → cleared.puffer i = vga.puffer i)
    (by
      rintro x cleared left right ⟨same, blank, kept⟩
      refine ⟨{ cleared with puffer := Function.update cleared.puffer (y * 80 + x) (cellOf 32 cleared.farbe) },
        ?_, same, ?_, ?_⟩
      · rw [vgaWriteAt, if_neg (by omega), if_neg (by omega), writeCell_eq _ (by omega)]
        rfl
      · intro i first last
        by_cases here : i = y * 80 + x
        · rw [here]
          exact (Function.update_self ..).trans (by rw [same])
        · exact (Function.update_of_ne here _ _).trans (blank i first (by omega))
      · intro i outside
        exact (Function.update_of_ne (by omega) _ _).trans (kept i (by omega)))
    (by omega) ⟨rfl, fun i first last => absurd first (by omega), fun _ _ => rfl⟩
  exact ⟨cleared, ran, fun i first last => blank i first (by omega), fun i outside => kept i (by omega)⟩

theorem fbConsoleClearLine_spec (fb : Framebuffer) (bgColor : UInt32) (mem : Bytes) (row : 0 ≤ y ∧ y < fb.height / 16) :
    ∃ cleared, fbConsoleClearLine fb bgColor y mem = some cleared ∧ ∀ px py, px < fb.width → py < fb.height →
      pixel fb cleared px py = if 16 * y ≤ py then bgColor.toNat else pixel fb mem px py := by
  obtain ⟨low, high⟩ := row
  have width := fb.width_lt
  have height := fb.height_lt
  obtain ⟨cleared, ran, painted⟩ := fbDrawRect_spec fb 0 (y * 16) fb.width fb.height bgColor mem
    ⟨by omega, by omega⟩ ⟨by omega, by omega⟩ ⟨⟨by omega, by omega⟩, by omega, by omega⟩
  refine ⟨cleared, ?_, fun px py wide inside => ?_⟩
  · rw [fbConsoleClearLine, checkInt_eq ⟨by omega, by omega⟩, Option.bind_some, ran]
  · rw [painted px py wide inside]
    congr 1
    apply propext
    omega

theorem fbClearsOnly_iff (fb : Framebuffer) (bgColor : UInt32) (mem : Bytes) (row : 0 ≤ y ∧ y < fb.height / 16) :
    FbClearsOnly fb bgColor mem y ↔ BlankBelow fb bgColor mem y := by
  obtain ⟨cleared, ran, painted⟩ := fbConsoleClearLine_spec fb bgColor mem row
  constructor
  · rintro ⟨cleared', ran', only⟩ px py wide inside below
    cases ran.symm.trans ran'
    have kept := only px py wide inside
    rw [if_neg (by omega), painted px py wide inside, if_pos (by omega)] at kept
    exact kept.symm
  · intro blank
    refine ⟨cleared, ran, fun px py wide inside => ?_⟩
    rw [painted px py wide inside]
    by_cases line : 16 * y ≤ py ∧ py < 16 * y + 16
    · rw [if_pos line.1, if_pos line]
    · rw [if_neg line]
      split
      · exact (blank px py wide inside (by omega)).symm
      · rfl

/-- Both back ends clear just the line exactly when there is nothing to lose below it. -/
theorem clear_line_iff (vga : VgaState) (fb : Framebuffer) (bgColor : UInt32) (mem : Bytes) (rowVga : 0 ≤ yVga ∧ yVga < 25)
    (row : 0 ≤ y ∧ y < fb.height / 16) :
    (VgaClearsOnly vga yVga ∧ FbClearsOnly fb bgColor mem y) ↔ BlankBelow fb bgColor mem y := by
  rw [fbClearsOnly_iff fb bgColor mem row]
  exact ⟨And.right, fun blank => ⟨vgaClearLine_spec vga rowVga, blank⟩⟩

/-- One column of 32 pixels, two lines high. -/
def smallFramebuffer : Framebuffer := ⟨0xFD000000, 1, 32, 4, by decide, by decide, by decide, by decide, by decide⟩

theorem clear_line_small :
    (VgaClearsOnly (vgaStart fun _ => 0) 24 ∧ FbClearsOnly smallFramebuffer 0 (fun _ => 0) 1) ↔
      BlankBelow smallFramebuffer 0 (fun _ => 0) 1 :=
  clear_line_iff _ smallFramebuffer 0 _ (by decide) (by decide)

/-- On a white screen, clearing line 0 also clears line 1. -/
theorem clear_line_clears_below : ¬ FbClearsOnly smallFramebuffer 0 (fun _ => 0xFF) 0 := by
  rw [fbClearsOnly_iff _ _ _ (by decide)]
  intro blank
  exact absurd (blank 0 16 (by decide) (by decide) (by decide)) (by decide)

end LivlyOS.Console
