import Enil.Lib.CType
import Mathlib.Algebra.Ring.Int.Defs
import Mathlib.Data.Int.Order.Basic
import Mathlib.Tactic.Common

/-!
# The size of a thumbnail

The longer side of an image is cut to the size of the box and the shorter one goes with it.
The product of the two is an `int`: where it does not fit, the program has no meaning.
-/

namespace Enil

open Lib

/-- `a * b`; `none` where it overflows. -/
def intMul (a b : Int) : Option Int :=
  if -intMax - 1 ≤ a * b ∧ a * b ≤ intMax then some (a * b) else none

def clampPickerImageSize (imageSize fallback : Int) : Int :=
  if imageSize > 0 then imageSize else fallback

/-- The sides before the floor of a pixel. -/
def scaledDims (w h imageSize : Int) : Option (Int × Int) :=
  if w ≤ 0 ∨ h ≤ 0 then some (imageSize, imageSize)
  else if w > h ∧ w > imageSize then
    (intMul h imageSize).map fun p => (imageSize, p.tdiv w)
  else if h > imageSize then
    (intMul w imageSize).map fun p => (p.tdiv h, imageSize)
  else some (w, h)

def floorPixel (n : Int) : Int := if n ≤ 0 then 1 else n

def pickerThumbDims (imageWidth imageHeight imageSize fallback : Int) : Option (Int × Int) :=
  (scaledDims imageWidth imageHeight (clampPickerImageSize imageSize fallback)).map fun d =>
    (floorPixel d.1, floorPixel d.2)

/-- Both sides are between a pixel and the size of the box. -/
def Fits (size : Int) (d : Int × Int) : Prop :=
  (1 ≤ d.1 ∧ d.1 ≤ size) ∧ 1 ≤ d.2 ∧ d.2 ≤ size

theorem floorPixel_mem {n size : Int} (hsize : 1 ≤ size) (hn : n ≤ size) :
    1 ≤ floorPixel n ∧ floorPixel n ≤ size := by
  unfold floorPixel
  split <;> omega

theorem fits_floorPixel {size : Int} {d : Int × Int} (hsize : 1 ≤ size) (hw : d.1 ≤ size)
    (hh : d.2 ≤ size) : Fits size (floorPixel d.1, floorPixel d.2) :=
  ⟨floorPixel_mem hsize hw, floorPixel_mem hsize hh⟩

/-- The shorter side goes with the longer one. -/
theorem tdiv_le_size {short long size : Int} (hshort : 0 ≤ short) (hle : short ≤ long)
    (hlong : 0 < long) (hsize : 0 ≤ size) : (short * size).tdiv long ≤ size := by
  have hnonneg : 0 ≤ short * size := Int.mul_nonneg hshort hsize
  have hmul : short * size ≤ size * long := by
    rw [Int.mul_comm size]
    exact Int.mul_le_mul_of_nonneg_right hle hsize
  rw [Int.tdiv_eq_ediv_of_nonneg hnonneg]
  exact Int.ediv_le_of_le_mul hlong hmul

theorem intMul_of_nonneg {a b : Int} (ha : 0 ≤ a) (hb : 0 ≤ b) :
    intMul a b = if a * b ≤ intMax then some (a * b) else none := by
  have h : 0 ≤ a * b := Int.mul_nonneg ha hb
  unfold intMul
  split <;> split <;> first | rfl | omega

section

variable {w h size fallback : Int}

/-- The sides are there unless the product overflows. -/
theorem isSome_scaledDims (hw : 1 ≤ w) (hh : 1 ≤ h) (hsize : 1 ≤ size) :
    (scaledDims w h size).isSome ↔ max w h ≤ size ∨ min w h * size ≤ intMax := by
  rw [scaledDims, if_neg (by omega), intMul_of_nonneg (by omega) (by omega),
    intMul_of_nonneg (by omega) (by omega)]
  by_cases hwide : w > h ∧ w > size
  · have hlong : ¬ max w h ≤ size := by omega
    rw [if_pos hwide, Int.min_eq_right (by omega), or_iff_right hlong]
    by_cases hmul : h * size ≤ intMax <;> simp [hmul]
  · rw [if_neg hwide]
    by_cases htall : h > size
    · have hlong : ¬ max w h ≤ size := by omega
      rw [if_pos htall, Int.min_eq_left (by omega), or_iff_right hlong]
      by_cases hmul : w * size ≤ intMax <;> simp [hmul]
    · rw [if_neg htall]
      exact ⟨fun _ => .inl (by omega), fun _ => rfl⟩

/-- Without an overflow no side is longer than the box. -/
theorem scaledDims_le (hw : 1 ≤ w) (hh : 1 ≤ h) (hsize : 1 ≤ size) {d : Int × Int}
    (hd : scaledDims w h size = some d) : d.1 ≤ size ∧ d.2 ≤ size := by
  rw [scaledDims, if_neg (by omega), intMul_of_nonneg (by omega) (by omega),
    intMul_of_nonneg (by omega) (by omega)] at hd
  split at hd
  · have hle := tdiv_le_size (show 0 ≤ h by omega) (show h ≤ w by omega) (by omega)
      (show 0 ≤ size by omega)
    obtain ⟨p, hp, rfl⟩ := Option.map_eq_some_iff.mp hd
    obtain ⟨-, hp⟩ := Option.ite_none_right_eq_some.mp hp
    cases hp
    exact ⟨Int.le_refl _, hle⟩
  · split at hd
    · have hle := tdiv_le_size (show 0 ≤ w by omega) (show w ≤ h by omega) (by omega)
        (show 0 ≤ size by omega)
      obtain ⟨p, hp, rfl⟩ := Option.map_eq_some_iff.mp hd
      obtain ⟨-, hp⟩ := Option.ite_none_right_eq_some.mp hp
      cases hp
      exact ⟨hle, Int.le_refl _⟩
    · cases hd
      exact ⟨by omega, by omega⟩

/-- A thumbnail fits its box if the image does, or if the shorter side times the size of
the box is an `int`; else the product overflows. -/
theorem pickerThumbDims_fits_iff (hw : 1 ≤ w ∧ w ≤ intMax) (hh : 1 ≤ h ∧ h ≤ intMax)
    (hsize : 1 ≤ size ∧ size ≤ intMax) :
    (∃ d, pickerThumbDims w h size fallback = some d ∧ Fits size d) ↔
      max w h ≤ size ∨ min w h * size ≤ intMax := by
  have hclamp : clampPickerImageSize size fallback = size := if_pos (by omega)
  rw [← isSome_scaledDims hw.1 hh.1 hsize.1, pickerThumbDims, hclamp]
  constructor
  · rintro ⟨d, hd, -⟩
    obtain ⟨e, he, -⟩ := Option.map_eq_some_iff.mp hd
    rw [he]
    rfl
  · intro hsome
    obtain ⟨d, hd⟩ := Option.isSome_iff_exists.mp hsome
    obtain ⟨hdw, hdh⟩ := scaledDims_le hw.1 hh.1 hsize.1 hd
    exact ⟨_, Option.map_eq_some_iff.mpr ⟨d, hd, rfl⟩, fits_floorPixel hsize.1 hdw hdh⟩

/-- A sticker of 370 by 320 pixels. -/
theorem pickerThumbDims_fits_sticker :
    ∃ d, pickerThumbDims 370 320 64 64 = some d ∧ Fits 64 d :=
  (pickerThumbDims_fits_iff (by decide) (by decide) (by decide)).mpr (.inr (by decide))

example : pickerThumbDims 370 320 64 64 = some (64, 55) := by decide

end

/-- Sides that a header may have. -/
theorem pickerThumbDims_overflow :
    ¬ ∀ w h size fallback : Int, 1 ≤ w ∧ w ≤ intMax → 1 ≤ h ∧ h ≤ intMax →
      1 ≤ size ∧ size ≤ intMax →
      ∃ d, pickerThumbDims w h size fallback = some d ∧ Fits size d := by
  intro hall
  have hnone : pickerThumbDims 2147483647 2147483646 64 64 = none := by decide
  obtain ⟨d, hd, -⟩ := hall 2147483647 2147483646 64 64 (by decide) (by decide) (by decide)
  rw [hnone] at hd
  cases hd

end Enil
