import Geospatial.Proofs.Cell.Chord
import Geospatial.Proofs.Cell.Edges
import Mathlib.Analysis.Complex.Angle

/-!
# Arcs and longitudes as angles

The arc between two directions of length one is the angle between them. The difference of their
longitudes, taken back into half a turn, has the size of the angle between the parts of them that
lie in the plane of the equator. The samples of an edge lie over the points of a chord in that plane
too, so that both are angles along a chord.
-/

namespace Geospatial

theorem toDegrees_real (angle : ℝ) : toDegrees angle = angle * (180 / Real.pi) := by
  have h180 : (180.0 : ℝ) = 180 := by norm_num
  rw [toDegrees, h180]
  rfl

theorem toDegrees_le_iff {angle degrees : ℝ} :
    toDegrees angle ≤ degrees ↔ angle ≤ degrees * (Real.pi / 180) := by
  have hpi := Real.pi_pos
  rw [toDegrees_real, ← le_div_iff₀ (by positivity)]
  refine iff_of_eq (congrArg (angle ≤ ·) ?_)
  field_simp

namespace Direction

variable {p q : Direction ℝ}

def horizontal (p : Direction ℝ) : Direction ℝ := ⟨p.x, p.y, 0⟩

theorem axisDistance_eq (p : Direction ℝ) : p.axisDistance = p.horizontal.norm := by
  simp [axisDistance, norm, dot, horizontal]

theorem horizontal_scale (p : Direction ℝ) (k : ℝ) :
    (p.scale k).horizontal = p.horizontal.scale k := by
  simp [horizontal, scale]

def inPlane (p : Direction ℝ) : ℂ := ⟨p.x, p.y⟩

theorem norm_inPlane (p : Direction ℝ) : ‖p.inPlane‖ = p.horizontal.norm := by
  rw [Complex.norm_def, Complex.normSq_apply]
  simp [norm, dot, horizontal, inPlane, sqrt_real]

theorem longitude_eq (p : Direction ℝ) : p.longitude = p.inPlane.arg * (180 / Real.pi) :=
  toDegrees_real _

theorem angle_horizontal (p q : Direction ℝ) :
    p.horizontal.angle q.horizontal = InnerProductGeometry.angle q.inPlane p.inPlane := by
  have hinner : inner ℝ q.inPlane p.inPlane = p.horizontal.dot q.horizontal := by
    rw [Complex.inner, Complex.mul_re, Complex.conj_re, Complex.conj_im]
    simp [inPlane, dot, horizontal]
  rw [angle, InnerProductGeometry.angle, hinner, norm_inPlane, norm_inPlane,
    mul_comm q.horizontal.norm]

/-- The size of a difference of longitudes, away from the poles. -/
theorem abs_wrapDegrees_longitude (hp : 0 < p.axisDistance) (hq : 0 < q.axisDistance) :
    |wrapDegrees (q.longitude - p.longitude)| = toDegrees (p.horizontal.angle q.horizontal) := by
  have hne : ∀ {r : Direction ℝ}, 0 < r.axisDistance → r.inPlane ≠ 0 := by
    intro r hr
    rw [axisDistance_eq, ← norm_inPlane] at hr
    exact norm_pos_iff.mp hr
  have hpi : (180 : ℝ) / Real.pi ≠ 0 := by positivity
  obtain ⟨k, hk⟩ := Real.Angle.angle_eq_iff_two_pi_dvd_sub.mp
    ((Complex.arg_div_coe_angle (hne hq) (hne hp)).trans (Real.Angle.coe_sub _ _).symm)
  have hturns : q.longitude - p.longitude ≡
      (q.inPlane / p.inPlane).arg * (180 / Real.pi) [PMOD (360 : ℝ)] := by
    refine AddCommGroup.modEq_iff_zsmul.mpr ⟨k, ?_⟩
    rw [longitude_eq, longitude_eq, ← sub_mul, ← sub_mul, hk, zsmul_eq_mul]
    field_simp
    ring
  have hsize : |(q.inPlane / p.inPlane).arg * (180 / Real.pi)| =
      toDegrees (p.horizontal.angle q.horizontal) := by
    rw [toDegrees_real, angle_horizontal, Complex.angle_eq_abs_arg (hne hq) (hne hp), abs_mul,
      abs_of_pos (by positivity : (0 : ℝ) < 180 / Real.pi)]
  have hhalf : toDegrees (p.horizontal.angle q.horizontal) ≤ 180 := by
    rw [toDegrees_le_iff]
    exact (Real.arccos_le_pi _).trans (le_of_eq (by field_simp))
  rw [abs_wrapDegrees_eq hturns (hsize.trans_le hhalf), hsize]

end Direction

/-! ## Arcs -/

variable {a b p q : Direction ℝ}

theorem clampSigned_of_mem {t : ℝ} (h : |t| ≤ 1) : clampSigned t = t := by
  obtain ⟨hlow, hhigh⟩ := abs_le.mp h
  have h1 : (1.0 : ℝ) = 1 := by norm_num
  rw [clampSigned, h1, if_neg (not_lt.mpr hlow), if_neg (not_lt.mpr hhigh)]

theorem arcDegrees_eq (hp : p.dot p = 1) (hq : q.dot q = 1) :
    arcDegrees p q = toDegrees (p.angle q) := by
  have habs : |p.dot q| ≤ 1 := by
    refine abs_le_of_sq_le_sq ?_ zero_le_one
    have := Direction.dot_sq_le p q
    rwa [hp, hq, mul_one, ← one_pow 2] at this
  rw [arcDegrees, clampSigned_of_mem habs, Direction.angle, Direction.norm_of_dot_self hp,
    Direction.norm_of_dot_self hq, mul_one, div_one]
  rfl

/-! ## Samples over a chord -/

theorem sampleAt_eq_scale (a b : Direction ℝ) (t : ℝ) :
    sampleAt a b t = (chordAt a b t).scale (chordAt a b t).norm⁻¹ := by
  rw [sampleAt_eq]
  rfl

theorem horizontal_chordAt (a b : Direction ℝ) (t : ℝ) :
    (chordAt a b t).horizontal = chordAt a.horizontal b.horizontal t := by
  simp [chordAt, Direction.horizontal, Direction.plus, Direction.scale]

/-- The samples of an edge lie at angles along its chord. -/
theorem arcDegrees_samples (ha : a.dot a = 1) (hb : b.dot b = 1) (hab : -1 < a.dot b) (s t : ℝ) :
    arcDegrees (sampleAt a b s) (sampleAt a b t) =
      toDegrees ((chordAt a b s).angle (chordAt a b t)) := by
  have hpos : ∀ r, 0 < (chordAt a b r).norm := fun r =>
    Real.sqrt_pos.mpr (chordAt_dot_self_pos ha hb hab r)
  rw [arcDegrees_eq (sampleAt_dot_self ha hb hab s) (sampleAt_dot_self ha hb hab t),
    sampleAt_eq_scale, sampleAt_eq_scale,
    Direction.angle_scale (inv_pos.mpr (hpos s)) (inv_pos.mpr (hpos t))]

/-- The longitudes of the samples lie at angles along the chord in the plane of the equator. -/
theorem longitude_samples (ha : a.dot a = 1) (hb : b.dot b = 1) (hab : -1 < a.dot b) {s t : ℝ}
    (hs : 0 < (chordAt a.horizontal b.horizontal s).norm)
    (ht : 0 < (chordAt a.horizontal b.horizontal t).norm) :
    |wrapDegrees ((sampleAt a b t).longitude - (sampleAt a b s).longitude)| =
      toDegrees ((chordAt a.horizontal b.horizontal s).angle
        (chordAt a.horizontal b.horizontal t)) := by
  have hpos : ∀ r, 0 < (chordAt a b r).norm⁻¹ := fun r =>
    inv_pos.mpr (Real.sqrt_pos.mpr (chordAt_dot_self_pos ha hb hab r))
  have haxis : ∀ r, 0 < (chordAt a.horizontal b.horizontal r).norm →
      0 < (sampleAt a b r).axisDistance := by
    intro r hr
    rw [Direction.axisDistance_eq, sampleAt_eq_scale, Direction.horizontal_scale,
      horizontal_chordAt, Direction.norm_scale (hpos r)]
    exact mul_pos hr (hpos r)
  rw [Direction.abs_wrapDegrees_longitude (haxis s hs) (haxis t ht), sampleAt_eq_scale,
    sampleAt_eq_scale, Direction.horizontal_scale, Direction.horizontal_scale, horizontal_chordAt,
    horizontal_chordAt, Direction.angle_scale (hpos s) (hpos t)]

end Geospatial
