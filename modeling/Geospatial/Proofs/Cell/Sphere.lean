import Geospatial.Proofs.Cell.Wrapping
import Geospatial.Proofs.Exact
import Mathlib.Analysis.SpecialFunctions.Complex.Arg
import Mathlib.Analysis.SpecialFunctions.Trigonometric.Inverse

/-!
# Directions over exact numbers

The circular functions of exact numbers are those of analysis. The samples of an edge are the points
of the chord between its ends, taken to the sphere; as long as the ends are not opposite, no point
of the chord is the centre, and every sample has length one.
-/

namespace Geospatial

noncomputable instance trigonometryReal : Trigonometry ℝ where
  pi := Real.pi
  sin := Real.sin
  cos := Real.cos
  arcsin := Real.arcsin
  arccos := Real.arccos
  arctan2 y x := Complex.arg ⟨x, y⟩

namespace Direction

theorem ext {p q : Direction ℝ} (hx : p.x = q.x) (hy : p.y = q.y) (hz : p.z = q.z) : p = q := by
  cases p
  cases q
  exact (Direction.mk.injEq ..).mpr ⟨hx, hy, hz⟩

theorem dot_comm (p q : Direction ℝ) : p.dot q = q.dot p := by
  unfold dot
  ring

theorem dot_self_nonneg (p : Direction ℝ) : 0 ≤ p.dot p :=
  add_nonneg (add_nonneg (mul_self_nonneg _) (mul_self_nonneg _)) (mul_self_nonneg _)

theorem dot_self_pos {p : Direction ℝ} (h : p ≠ ⟨0, 0, 0⟩) : 0 < p.dot p := by
  refine lt_of_le_of_ne p.dot_self_nonneg fun hzero => h ?_
  unfold dot at hzero
  refine ext ?_ ?_ ?_ <;> dsimp only <;> nlinarith [sq_nonneg p.x, sq_nonneg p.y, sq_nonneg p.z]

theorem norm_mul_norm (p : Direction ℝ) : p.norm * p.norm = p.dot p :=
  Real.mul_self_sqrt p.dot_self_nonneg

theorem norm_of_dot_self {p : Direction ℝ} (h : p.dot p = 1) : p.norm = 1 := by
  rw [norm, sqrt_real, h, Real.sqrt_one]

theorem dot_plus_self (p q : Direction ℝ) :
    (p.plus q).dot (p.plus q) = p.dot p + 2 * p.dot q + q.dot q := by
  simp only [plus, dot]
  ring

/-- Two directions that are not opposite. -/
theorem neg_one_lt_dot {p q : Direction ℝ} (hp : p.dot p = 1) (hq : q.dot q = 1)
    (h : p.plus q ≠ ⟨0, 0, 0⟩) : -1 < p.dot q := by
  have hpos := dot_self_pos h
  rw [dot_plus_self, hp, hq] at hpos
  linarith

theorem dot_le_one {p q : Direction ℝ} (hp : p.dot p = 1) (hq : q.dot q = 1) : p.dot q ≤ 1 := by
  have hnonneg := (p.plus (q.scale (-1))).dot_self_nonneg
  have hexpand : (p.plus (q.scale (-1))).dot (p.plus (q.scale (-1))) =
      p.dot p - 2 * p.dot q + q.dot q := by
    simp only [plus, scale, dot]
    ring
  rw [hexpand, hp, hq] at hnonneg
  linarith

end Direction

/-! ## Chords -/

def chordAt (a b : Direction ℝ) (t : ℝ) : Direction ℝ := (a.scale (1 - t)).plus (b.scale t)

theorem sampleAt_eq (a b : Direction ℝ) (t : ℝ) :
    sampleAt a b t = ⟨(chordAt a b t).x / (chordAt a b t).norm,
      (chordAt a b t).y / (chordAt a b t).norm, (chordAt a b t).z / (chordAt a b t).norm⟩ := by
  have h1 : (1.0 : ℝ) = 1 := by norm_num
  rw [sampleAt, h1]
  rfl

theorem chordAt_swap (a b : Direction ℝ) (t : ℝ) : chordAt b a t = chordAt a b (1 - t) := by
  refine Direction.ext ?_ ?_ ?_ <;> simp [chordAt, Direction.plus, Direction.scale, add_comm]

theorem chordAt_one (a b : Direction ℝ) : chordAt a b 1 = b := by
  refine Direction.ext ?_ ?_ ?_ <;> simp [chordAt, Direction.plus, Direction.scale]

theorem chordAt_zero (a b : Direction ℝ) : chordAt a b 0 = a := by
  refine Direction.ext ?_ ?_ ?_ <;> simp [chordAt, Direction.plus, Direction.scale]

theorem chordAt_dot (a b : Direction ℝ) (s t : ℝ) :
    (chordAt a b s).dot (chordAt a b t) = (1 - s) * (1 - t) * a.dot a +
      ((1 - s) * t + s * (1 - t)) * a.dot b + s * t * b.dot b := by
  simp only [chordAt, Direction.plus, Direction.scale, Direction.dot]
  ring

variable {a b : Direction ℝ}

theorem chordAt_dot_self_pos (ha : a.dot a = 1) (hb : b.dot b = 1) (hab : -1 < a.dot b) (t : ℝ) :
    0 < (chordAt a b t).dot (chordAt a b t) := by
  have hle := Direction.dot_le_one ha hb
  have hsquares : (chordAt a b t).dot (chordAt a b t) =
      (1 + a.dot b) / 2 + (1 - 2 * t) ^ 2 * ((1 - a.dot b) / 2) := by
    rw [chordAt_dot, ha, hb]
    ring
  rw [hsquares]
  have hrest : 0 ≤ (1 - 2 * t) ^ 2 * ((1 - a.dot b) / 2) :=
    mul_nonneg (sq_nonneg _) (by linarith)
  linarith

/-- Backwards an edge has the same samples. -/
theorem sampleAt_swap (a b : Direction ℝ) (t : ℝ) : sampleAt b a t = sampleAt a b (1 - t) := by
  rw [sampleAt_eq, sampleAt_eq, chordAt_swap]

theorem sampleAt_one (a : Direction ℝ) (hb : b.dot b = 1) : sampleAt a b 1 = b := by
  rw [sampleAt_eq, chordAt_one, Direction.norm_of_dot_self hb, div_one, div_one, div_one]

theorem sampleAt_dot_self (ha : a.dot a = 1) (hb : b.dot b = 1) (hab : -1 < a.dot b) (t : ℝ) :
    (sampleAt a b t).dot (sampleAt a b t) = 1 := by
  have hpos := chordAt_dot_self_pos ha hb hab t
  have hnorm : (chordAt a b t).norm ≠ 0 := by
    intro hzero
    rw [← Direction.norm_mul_norm, hzero, mul_zero] at hpos
    exact lt_irrefl 0 hpos
  have hsquare := (chordAt a b t).norm_mul_norm
  rw [sampleAt_eq]
  unfold Direction.dot at hsquare ⊢
  field_simp
  linarith

end Geospatial
