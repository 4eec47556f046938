import Geospatial.Proofs.Cell.Grid

/-!
# Edges over the sides of squares

The corners of a cell are directions over the corners of its square. What an edge is like depends on
whether its face lies around the equator or around a pole, and there on which axis of the face the
side runs: longitudes stay the same along it, or the distance from the axis changes by a limited
factor. In all cases the ends are at most a quarter turn apart and the edge is a mild chord in the
plane of the equator.
-/

namespace Geospatial

namespace Direction

theorem unit_eq (p : Direction ℝ) : p.unit = p.scale p.norm⁻¹ := by
  have h1 : (1.0 : ℝ) = 1 := by norm_num
  rw [unit, h1, one_div]

variable {p q : Direction ℝ}

theorem unit_dot_self (hp : 0 < p.norm) : p.unit.dot p.unit = 1 := by
  rw [unit_eq, dot_scale, ← norm_mul_norm]
  field_simp

theorem unit_dot_nonneg (h : 0 ≤ p.dot q) : 0 ≤ p.unit.dot q.unit := by
  rw [unit_eq, unit_eq, dot_scale]
  exact mul_nonneg h (mul_nonneg (inv_nonneg.mpr p.norm_nonneg) (inv_nonneg.mpr q.norm_nonneg))

theorem angle_eq_zero (hp : 0 < p.norm) (hq : 0 < q.norm) (h : p.dot q = p.norm * q.norm) :
    p.angle q = 0 := by
  rw [angle, h, div_self (mul_pos hp hq).ne', Real.arccos_one]

end Direction

/-! ## Mild chords -/

section Mild

variable {a b p q : Direction ℝ}

theorem mild_of_cos {k : ℝ} (ha : 0 < a.norm) (hb : 0 < b.norm) (hk : k ≤ Real.cos (a.angle b))
    (hab : a.dot a ≤ 2 * (1 + k) * b.dot b) (hba : b.dot b ≤ 2 * (1 + k) * a.dot a) : Mild a b := by
  have hangle := a.angle_nonneg b
  have hpi : a.angle b ≤ Real.pi := Real.arccos_le_pi _
  have hcos : 0 ≤ Real.cos (a.angle b / 2) :=
    Real.cos_nonneg_of_mem_Icc ⟨by linarith [Real.pi_pos], by linarith⟩
  have hdouble : 2 * (1 + Real.cos (a.angle b)) = (2 * Real.cos (a.angle b / 2)) ^ 2 := by
    have := Real.cos_two_mul (a.angle b / 2)
    rw [mul_div_cancel₀ _ (two_ne_zero' ℝ)] at this
    rw [this]
    ring
  have hratio : ∀ {x y : ℝ}, 0 < y → x ^ 2 ≤ 2 * (1 + k) * y ^ 2 →
      x ≤ 2 * Real.cos (a.angle b / 2) * y := by
    intro x y hy hxy
    refine abs_le_of_sq_le_sq' (b := 2 * Real.cos (a.angle b / 2) * y) ?_ (by positivity) |>.2
    rw [mul_pow, ← hdouble]
    refine hxy.trans (mul_le_mul_of_nonneg_right ?_ (sq_nonneg y))
    linarith
  rw [← Direction.norm_sq, ← Direction.norm_sq] at hab hba
  refine .near ?_
  rw [stretch, div_le_iff₀ (lt_min ha hb)]
  rcases le_total a.norm b.norm with hle | hle
  · rw [max_eq_right hle, min_eq_left hle]
    exact hratio ha hba
  · rw [max_eq_left hle, min_eq_right hle]
    exact hratio hb hab

/-- Directions that are mild once they are taken to the sphere, by inner products before that. -/
theorem mild_unit {k : ℝ} (hp : 0 < p.horizontal.norm) (hq : 0 < q.horizontal.norm)
    (hpn : 0 < p.norm) (hqn : 0 < q.norm) (hdot : 0 ≤ p.horizontal.dot q.horizontal)
    (hcos : k ^ 2 * (p.horizontal.dot p.horizontal * q.horizontal.dot q.horizontal) ≤
      p.horizontal.dot q.horizontal ^ 2)
    (hpq : p.horizontal.dot p.horizontal * q.dot q ≤
      2 * (1 + k) * (q.horizontal.dot q.horizontal * p.dot p))
    (hqp : q.horizontal.dot q.horizontal * p.dot p ≤
      2 * (1 + k) * (p.horizontal.dot p.horizontal * q.dot q)) :
    Mild p.unit.horizontal q.unit.horizontal := by
  have hpi := inv_pos.mpr hpn
  have hqi := inv_pos.mpr hqn
  have hself : ∀ r : Direction ℝ, (r.horizontal.scale r.norm⁻¹).dot (r.horizontal.scale r.norm⁻¹) =
      r.horizontal.dot r.horizontal / r.dot r := by
    intro r
    rw [Direction.dot_scale, ← r.norm_mul_norm, ← mul_inv, div_eq_mul_inv]
  have hpd : 0 < p.dot p := by rw [← p.norm_mul_norm]; exact mul_pos hpn hpn
  have hqd : 0 < q.dot q := by rw [← q.norm_mul_norm]; exact mul_pos hqn hqn
  rw [Direction.unit_eq, Direction.unit_eq, Direction.horizontal_scale, Direction.horizontal_scale]
  refine mild_of_cos (k := k) ?_ ?_ ?_ ?_ ?_
  · rw [Direction.norm_scale hpi]
    exact mul_pos hp hpi
  · rw [Direction.norm_scale hqi]
    exact mul_pos hq hqi
  · rw [Direction.angle_scale hpi hqi]
    have hnorms := mul_pos hp hq
    have hle : k * (p.horizontal.norm * q.horizontal.norm) ≤ p.horizontal.dot q.horizontal := by
      refine abs_le_of_sq_le_sq' ?_ hdot |>.2
      rwa [mul_pow, mul_pow, Direction.norm_sq, Direction.norm_sq]
    rw [← Direction.cos_angle hp hq] at hle
    exact le_of_mul_le_mul_right hle hnorms
  · rw [hself, hself, div_le_iff₀ hpd, ← mul_div_assoc, div_mul_eq_mul_div, le_div_iff₀ hqd]
    linarith
  · rw [hself, hself, div_le_iff₀ hqd, ← mul_div_assoc, div_mul_eq_mul_div, le_div_iff₀ hpd]
    linarith

theorem mild_unit_of_parallel (hp : 0 < p.horizontal.norm) (hq : 0 < q.horizontal.norm)
    (hpn : 0 < p.norm) (hqn : 0 < q.norm)
    (h : p.horizontal.dot q.horizontal = p.horizontal.norm * q.horizontal.norm) :
    Mild p.unit.horizontal q.unit.horizontal := by
  refine .aligned ?_
  rw [Direction.unit_eq, Direction.unit_eq, Direction.horizontal_scale, Direction.horizontal_scale,
    Direction.angle_scale (inv_pos.mpr hpn) (inv_pos.mpr hqn)]
  exact Direction.angle_eq_zero hp hq h

end Mild

/-! ## Directions over a side -/

/-- Inner products of the directions over the ends of a side of a square of a face. In the plane of
the equator they depend on whether the face is around the equator and its axis the side runs on, or
around a pole. -/
structure OverSide (w w' c : ℝ) (p q : Direction ℝ) : Prop where
  start : p.dot p = 1 + w ^ 2 + c ^ 2
  stop : q.dot q = 1 + w' ^ 2 + c ^ 2
  dot : p.dot q = 1 + w * w' + c ^ 2
  horizontal :
    (p.horizontal.dot p.horizontal = 1 + w ^ 2 ∧ q.horizontal.dot q.horizontal = 1 + w' ^ 2 ∧
      p.horizontal.dot q.horizontal = 1 + w * w') ∨
    (p.horizontal.dot p.horizontal = 1 + c ^ 2 ∧ q.horizontal.dot q.horizontal = 1 + c ^ 2 ∧
      p.horizontal.dot q.horizontal = 1 + c ^ 2) ∨
    p.horizontal.dot p.horizontal = w ^ 2 + c ^ 2 ∧
      q.horizontal.dot q.horizontal = w' ^ 2 + c ^ 2 ∧
      p.horizontal.dot q.horizontal = w * w' + c ^ 2

theorem toDirection_dot (face : ℕ) (u v u' v' : ℝ) :
    (Face.toDirection face u v).dot (Face.toDirection face u' v') = 1 + u * u' + v * v' := by
  unfold Face.toDirection
  split <;> norm_num [Direction.dot] <;> ring

theorem toDirection_horizontal_dot (face : ℕ) :
    (∀ u v u' v' : ℝ, (Face.toDirection face u v).horizontal.dot
      (Face.toDirection face u' v').horizontal = 1 + u * u') ∨
    (∀ u v u' v' : ℝ, (Face.toDirection face u v).horizontal.dot
      (Face.toDirection face u' v').horizontal = 1 + v * v') ∨
    ∀ u v u' v' : ℝ, (Face.toDirection face u v).horizontal.dot
      (Face.toDirection face u' v').horizontal = u * u' + v * v' := by
  have hequator : ∀ x y x' y' : ℝ, (⟨x, y, 0⟩ : Direction ℝ).dot ⟨x', y', 0⟩ = x * x' + y * y' := by
    intro x y x' y'
    simp [Direction.dot]
  unfold Direction.horizontal
  simp only [hequator]
  rcases face with _ | _ | _ | _ | _ | n
  · exact Or.inl fun u v u' v' => by norm_num [Face.toDirection]
  · exact Or.inl fun u v u' v' => by norm_num [Face.toDirection]; ring
  · exact Or.inr (Or.inr fun u v u' v' => by norm_num [Face.toDirection])
  · exact Or.inr (Or.inl fun u v u' v' => by norm_num [Face.toDirection])
  · exact Or.inr (Or.inl fun u v u' v' => by norm_num [Face.toDirection]; ring)
  · exact Or.inr (Or.inr fun u v u' v' => add_comm (v * v') (u * u'))

/-! ## Narrow sides -/

section Narrow

variable {x y e : ℝ}

theorem narrow_ratio (hx : 0 ≤ x) (h : x ≤ 1.4 * y + e) : x ^ 2 + e ^ 2 ≤ 3.4 * (y ^ 2 + e ^ 2) := by
  have hsquare := pow_le_pow_left₀ hx h 2
  nlinarith [sq_nonneg (1.2 * y - 7 / 6 * e), sq_nonneg e]

theorem narrow_cross (hx : 0 ≤ x) (hy : 0 ≤ y) (he : 0 ≤ e) (h : y ≤ 1.4 * x + e) :
    e * (y - x) ≤ x * y + e ^ 2 := by
  rcases le_total y e with hle | hle
  · nlinarith [mul_nonneg hx hy, mul_nonneg he hx, mul_le_mul_of_nonneg_left hle he]
  · nlinarith [mul_le_mul_of_nonneg_left hle hx, mul_le_mul_of_nonneg_left h he, mul_nonneg hx he]

/-- The ends of a narrow side are seen from the middle of the face at most an eighth of a turn
apart. -/
theorem narrow_angle (hx : 0 ≤ x) (hy : 0 ≤ y) (he : 0 ≤ e) (hxy : x ≤ 1.4 * y + e)
    (hyx : y ≤ 1.4 * x + e) :
    (x ^ 2 + e ^ 2) * (y ^ 2 + e ^ 2) ≤ 2 * (x * y + e ^ 2) ^ 2 := by
  have hcross : (e * (y - x)) ^ 2 ≤ (x * y + e ^ 2) ^ 2 := by
    refine sq_le_sq' ?_ (narrow_cross hx hy he hyx)
    linarith [narrow_cross hy hx he hxy]
  linarith

end Narrow

namespace OverSide

variable {w w' c : ℝ} {p q : Direction ℝ}

/-- A side on the first axis of a face. -/
theorem of_first (face : ℕ) (w w' c : ℝ) :
    OverSide w w' c (Face.toDirection face w c) (Face.toDirection face w' c) := by
  refine ⟨?_, ?_, ?_, ?_⟩
  · rw [toDirection_dot]; ring
  · rw [toDirection_dot]; ring
  · rw [toDirection_dot]; ring
  · rcases toDirection_horizontal_dot face with h | h | h
    · exact Or.inl (by simp only [h, sq, and_self])
    · exact Or.inr (Or.inl (by simp only [h, sq, and_self]))
    · exact Or.inr (Or.inr (by simp only [h, sq, and_self]))

/-- A side on the second axis of a face. -/
theorem of_second (face : ℕ) (w w' c : ℝ) :
    OverSide w w' c (Face.toDirection face c w) (Face.toDirection face c w') := by
  refine ⟨?_, ?_, ?_, ?_⟩
  · rw [toDirection_dot]; ring
  · rw [toDirection_dot]; ring
  · rw [toDirection_dot]; ring
  · rcases toDirection_horizontal_dot face with h | h | h
    · exact Or.inr (Or.inl (by simp only [h, sq, and_self]))
    · exact Or.inl (by simp only [h, sq, and_self])
    · exact Or.inr (Or.inr (by simp only [h, sq, add_comm, and_self]))

theorem symm (h : OverSide w w' c p q) : OverSide w' w c q p := by
  refine ⟨h.stop, h.start, ?_, ?_⟩
  · rw [Direction.dot_comm, h.dot, mul_comm w]
  · rw [Direction.dot_comm q.horizontal p.horizontal, mul_comm w']
    rcases h.horizontal with ⟨hp, hq, hpq⟩ | ⟨hp, hq, hpq⟩ | ⟨hp, hq, hpq⟩
    · exact Or.inl ⟨hq, hp, hpq⟩
    · exact Or.inr (Or.inl ⟨hq, hp, hpq⟩)
    · exact Or.inr (Or.inr ⟨hq, hp, hpq⟩)

variable (hover : OverSide w w' c p q) (hside : IsSide w w' c)

include hover

theorem norm_pos : 0 < p.norm ∧ 0 < q.norm := by
  constructor
  · exact Real.sqrt_pos.mpr (by rw [hover.start]; positivity)
  · exact Real.sqrt_pos.mpr (by rw [hover.stop]; positivity)

include hside

/-- The ends of an edge are at most a quarter turn apart. -/
theorem dot_nonneg : 0 ≤ p.dot q := by
  have hproduct : |w * w'| ≤ 1 := by
    rw [abs_mul]
    exact mul_le_one₀ hside.abs_le.1 (abs_nonneg _) hside.abs_le.2.1
  rw [hover.dot]
  nlinarith [neg_abs_le (w * w'), sq_nonneg c]

omit hside in
/-- An edge along a meridian: longitudes are the same along it. -/
theorem mild_of_meridian (hp : 0 < p.horizontal.norm) (hq : 0 < q.horizontal.norm)
    (hpq : p.horizontal.dot q.horizontal = p.horizontal.norm * q.horizontal.norm) :
    0 ≤ p.horizontal.dot q.horizontal ∧ Mild p.unit.horizontal q.unit.horizontal := by
  refine ⟨?_, mild_unit_of_parallel hp hq hover.norm_pos.1 hover.norm_pos.2 hpq⟩
  rw [hpq]
  exact (mul_pos hp hq).le

/-- An edge across the meridians of a face around the equator. -/
theorem mild_of_equator (hp : 0 < p.horizontal.norm) (hq : 0 < q.horizontal.norm)
    (hpp : p.horizontal.dot p.horizontal = 1 + w ^ 2)
    (hqq : q.horizontal.dot q.horizontal = 1 + w' ^ 2)
    (hpq : p.horizontal.dot q.horizontal = 1 + w * w') :
    0 ≤ p.horizontal.dot q.horizontal ∧ Mild p.unit.horizontal q.unit.horizontal := by
  obtain ⟨⟨hw, hw', hc⟩, -⟩ := hside
  have hw2 : w ^ 2 ≤ 1 := by rwa [sq_le_one_iff_abs_le_one]
  have hw2' : w' ^ 2 ≤ 1 := by rwa [sq_le_one_iff_abs_le_one]
  have hc2 : c ^ 2 ≤ 1 := by rwa [sq_le_one_iff_abs_le_one]
  have hdot : 0 ≤ p.horizontal.dot q.horizontal := by
    have := abs_le.mp (sq_le_one_iff_abs_le_one (w * w') |>.mp (by nlinarith [sq_nonneg w]))
    rw [hpq]
    linarith
  refine ⟨hdot, mild_unit (k := 0) hp hq hover.norm_pos.1 hover.norm_pos.2 hdot ?_ ?_ ?_⟩
  · rw [zero_pow two_ne_zero, zero_mul]
    exact sq_nonneg _
  · rw [hpp, hqq, hover.start, hover.stop]
    nlinarith [sq_nonneg w, sq_nonneg w', sq_nonneg c]
  · rw [hpp, hqq, hover.start, hover.stop]
    nlinarith [sq_nonneg w, sq_nonneg w', sq_nonneg c]

/-- An edge of a face around a pole: a whole side of the face, an edge straight to the axis or a
narrow one. -/
theorem mild_of_polar (hp : 0 < p.horizontal.norm) (hq : 0 < q.horizontal.norm)
    (hpp : p.horizontal.dot p.horizontal = w ^ 2 + c ^ 2)
    (hqq : q.horizontal.dot q.horizontal = w' ^ 2 + c ^ 2)
    (hpq : p.horizontal.dot q.horizontal = w * w' + c ^ 2) :
    0 ≤ p.horizontal.dot q.horizontal ∧ Mild p.unit.horizontal q.unit.horizontal := by
  obtain ⟨hpn, hqn⟩ := hover.norm_pos
  rcases hside.lies with ⟨hww, hw1, hw1', hc1⟩ | ⟨hsign, rfl | ⟨hnarrow, hnarrow'⟩⟩
  · have hdot : p.horizontal.dot q.horizontal = 0 := by rw [hpq, hww, hc1, neg_add_cancel]
    refine ⟨hdot.ge, mild_unit (k := 0) hp hq hpn hqn hdot.ge ?_ ?_ ?_⟩
    · rw [zero_pow two_ne_zero, zero_mul]
      exact sq_nonneg _
    · rw [hpp, hqq, hover.start, hover.stop, hw1, hw1', hc1]
      norm_num
    · rw [hpp, hqq, hover.start, hover.stop, hw1, hw1', hc1]
      norm_num
  · refine hover.mild_of_meridian hp hq ?_
    rw [Direction.norm, Direction.norm, hpp, hqq, hpq, zero_pow two_ne_zero, add_zero, add_zero,
      add_zero, sqrt_real, sqrt_real, Real.sqrt_sq_eq_abs, Real.sqrt_sq_eq_abs, ← abs_mul,
      abs_of_nonneg hsign]
  · have hdot : 0 ≤ p.horizontal.dot q.horizontal := by
      rw [hpq]
      positivity
    have hww : w * w' = |w| * |w'| := by rw [← abs_mul, abs_of_nonneg hsign]
    have hangle := narrow_angle (abs_nonneg w) (abs_nonneg w') (abs_nonneg c) hnarrow hnarrow'
    have hratio := narrow_ratio (abs_nonneg w) hnarrow
    have hratio' := narrow_ratio (abs_nonneg w') hnarrow'
    rw [← hww] at hangle
    rw [sq_abs, sq_abs, sq_abs] at hangle hratio hratio'
    have hnonneg := mul_nonneg (add_nonneg (sq_nonneg w) (sq_nonneg c))
      (add_nonneg (sq_nonneg w') (sq_nonneg c))
    refine ⟨hdot, mild_unit (k := 0.7) hp hq hpn hqn hdot ?_ ?_ ?_⟩
    · rw [hpp, hqq, hpq]
      norm_num
      linarith
    · rw [hpp, hqq, hover.start, hover.stop]
      nlinarith
    · rw [hpp, hqq, hover.start, hover.stop]
      nlinarith

/-- Away from the poles an edge is a mild chord in the plane of the equator, and its ends are not
opposite there. -/
theorem mild (hp : 0 < p.horizontal.norm) (hq : 0 < q.horizontal.norm) :
    0 ≤ p.horizontal.dot q.horizontal ∧ Mild p.unit.horizontal q.unit.horizontal := by
  rcases hover.horizontal with ⟨hpp, hqq, hpq⟩ | ⟨hpp, hqq, hpq⟩ | ⟨hpp, hqq, hpq⟩
  · exact hover.mild_of_equator hside hp hq hpp hqq hpq
  · refine hover.mild_of_meridian hp hq ?_
    rw [Direction.norm, Direction.norm, hpp, hqq, hpq]
    exact (Real.mul_self_sqrt (by positivity)).symm
  · exact hover.mild_of_polar hside hp hq hpp hqq hpq

end OverSide

end Geospatial
