import Geospatial.Number.Scalar
import Mathlib.Analysis.SpecialFunctions.Sqrt
import Mathlib.Tactic

/-!
# Exact numbers

The algorithms run on doubles; their laws are those of the same definitions over the real numbers,
with the square root of analysis.
-/

namespace Geospatial

noncomputable instance rootReal : Root ℝ := ⟨Real.sqrt⟩

theorem sqrt_real (a : ℝ) : Root.sqrt a = √a := rfl

theorem magnitude_eq_abs (a : ℝ) : magnitude a = |a| := by
  unfold magnitude
  split
  · rw [abs_of_neg ‹_›]
  · rw [abs_of_nonneg (not_lt.mp ‹_›)]

theorem clampUnit_eq_max_min (t : ℝ) : clampUnit t = max 0 (min t 1) := by
  have hcap : (if t < 1 then t else 1) = min t 1 := by
    by_cases h : t < 1
    · rw [if_pos h, min_eq_left h.le]
    · rw [if_neg h, min_eq_right (not_lt.mp h)]
  simp only [clampUnit, hcap]
  by_cases h : 0 < min t 1
  · rw [if_pos h, max_eq_right h.le]
  · rw [if_neg h, max_eq_left (not_lt.mp h)]

theorem clampUnit_nonneg (t : ℝ) : 0 ≤ clampUnit t := by
  rw [clampUnit_eq_max_min]
  exact le_max_left _ _

theorem clampUnit_le_one (t : ℝ) : clampUnit t ≤ 1 := by
  rw [clampUnit_eq_max_min]
  exact max_le zero_le_one (min_le_right _ _)

/-- A number of `[0, 1]` is its own nearest one. -/
theorem clampUnit_of_mem {t : ℝ} (h0 : 0 ≤ t) (h1 : t ≤ 1) : clampUnit t = t := by
  rw [clampUnit_eq_max_min, min_eq_left h1, max_eq_right h0]

theorem clampUnit_of_nonpos {t : ℝ} (h : t ≤ 0) : clampUnit t = 0 := by
  rw [clampUnit_eq_max_min, min_eq_left (h.trans zero_le_one), max_eq_left h]

theorem clampUnit_of_one_le {t : ℝ} (h : 1 ≤ t) : clampUnit t = 1 := by
  rw [clampUnit_eq_max_min, min_eq_right h, max_eq_right zero_le_one]

theorem clampUnit_one_sub (t : ℝ) : clampUnit (1 - t) = 1 - clampUnit t := by
  rcases le_or_gt t 0 with h0 | h0
  · rw [clampUnit_of_nonpos h0, clampUnit_of_one_le (by linarith), sub_zero]
  · rcases le_or_gt t 1 with h1 | h1
    · rw [clampUnit_of_mem h0.le h1, clampUnit_of_mem (by linarith) (by linarith)]
    · rw [clampUnit_of_one_le h1.le, clampUnit_of_nonpos (by linarith), sub_self]

end Geospatial
