import Geospatial.Cell.Outline
import Mathlib.Algebra.Group.ModEq
import Mathlib.Algebra.Order.Floor.Ring
import Mathlib.Tactic

/-!
# Angles within half a turn

Exact numbers are taken to whole numbers by their floor. An angle difference taken back into half a
turn differs from itself by whole turns only, and this and its range determine it. Its size does not
depend on the direction in which the difference is taken, also where it is half a turn.
-/

namespace Geospatial

open AddCommGroup (ModEq)

variable {α : Type} [Field α] [LinearOrder α] [FloorRing α]

def nearestWhole (a : α) : ℤ :=
  if Int.fract a < 0.5 then ⌊a⌋
  else if 0.5 < Int.fract a then ⌊a⌋ + 1
  else if ⌊a⌋ % 2 = 0 then ⌊a⌋
  else ⌊a⌋ + 1

instance roundingExact : Rounding α where
  modulo a m := a - m * ⌊a / m⌋
  ceiling a := ⌈a⌉
  floor a := ⌊a⌋
  nearest := nearestWhole

theorem ceiling_exact (a : α) : Rounding.ceiling a = ⌈a⌉ := rfl

theorem wrapDegrees_eq (a : α) : wrapDegrees a = a - 360 * ⌊(a + 180) / 360⌋ := by
  have h180 : (180.0 : α) = 180 := by norm_num
  have h360 : (360.0 : α) = 360 := by norm_num
  change a + 180.0 - 360.0 * ⌊(a + 180.0) / 360.0⌋ - 180.0 = _
  rw [h180, h360]
  ring

theorem wrapDegrees_modEq (a : α) : wrapDegrees a ≡ a [PMOD (360 : α)] := by
  refine AddCommGroup.modEq_iff_zsmul.mpr ⟨⌊(a + 180) / 360⌋, ?_⟩
  rw [wrapDegrees_eq, zsmul_eq_mul]
  ring

variable [IsStrictOrderedRing α]

theorem nearest_intCast (k : ℤ) : Rounding.nearest (k : α) = k := by
  change nearestWhole (k : α) = k
  rw [nearestWhole, Int.fract_intCast, if_pos (by norm_num), Int.floor_intCast]

theorem wrapDegrees_mem (a : α) : wrapDegrees a ∈ Set.Ico (-180 : α) 180 := by
  have hlow := Int.floor_le ((a + 180) / 360)
  have hhigh := Int.lt_floor_add_one ((a + 180) / 360)
  rw [le_div_iff₀ (by norm_num)] at hlow
  rw [div_lt_iff₀ (by norm_num)] at hhigh
  rw [wrapDegrees_eq]
  constructor <;> linarith

/-- Whole turns that add up to less than a turn are none. -/
theorem eq_of_modEq_of_abs_lt {a b : α} (h : a ≡ b [PMOD (360 : α)]) (hlt : |b - a| < 360) :
    a = b := by
  obtain ⟨k, hk⟩ := AddCommGroup.modEq_iff_zsmul.mp h
  rw [zsmul_eq_mul] at hk
  have hsize : |(k : α)| < 1 := by
    rw [← hk, abs_mul, abs_of_pos (by norm_num : (0 : α) < 360)] at hlt
    linarith
  have hzero : k = 0 := by
    rw [← Int.cast_abs] at hsize
    exact Int.abs_lt_one_iff.mp (by exact_mod_cast hsize)
  rw [hzero, Int.cast_zero, zero_mul] at hk
  linarith

/-- The size of an angle difference taken back into half a turn. -/
theorem abs_wrapDegrees_eq {a b : α} (h : a ≡ b [PMOD (360 : α)]) (hb : |b| ≤ 180) :
    |wrapDegrees a| = |b| := by
  obtain ⟨hlow, hhigh⟩ := abs_le.mp hb
  have hmem := wrapDegrees_mem a
  have hsame := (wrapDegrees_modEq a).trans h
  rcases hhigh.lt_or_eq with hlt | heq
  · rw [eq_of_modEq_of_abs_lt hsame (abs_lt.mpr ⟨by linarith [hmem.2], by linarith [hmem.1]⟩)]
  · -- half a turn to the east is taken as half a turn to the west
    have hturn : b ≡ -180 [PMOD (360 : α)] := by
      refine AddCommGroup.modEq_iff_zsmul.mpr ⟨-1, ?_⟩
      rw [heq]
      norm_num
    have hwest := eq_of_modEq_of_abs_lt (hsame.trans hturn)
      (abs_lt.mpr ⟨by linarith [hmem.2], by linarith [hmem.1]⟩)
    rw [hwest, heq, abs_neg]

theorem abs_wrapDegrees_le (a : α) : |wrapDegrees a| ≤ 180 :=
  abs_le.mpr ⟨(wrapDegrees_mem a).1, (wrapDegrees_mem a).2.le⟩

theorem abs_wrapDegrees_neg (a : α) : |wrapDegrees (-a)| = |wrapDegrees a| := by
  rw [abs_wrapDegrees_eq (wrapDegrees_modEq a).symm.neg (by rw [abs_neg]; exact abs_wrapDegrees_le a),
    abs_neg]

end Geospatial
