import Geospatial.Proofs.Cell.Sphere
import Mathlib.Analysis.SpecialFunctions.Trigonometric.Arctan
import Mathlib.Analysis.SpecialFunctions.Trigonometric.Bounds

/-!
# Angles along a chord

Points that divide a chord evenly do not divide the angle over it evenly: the parts in the middle
are wider than those at the ends, and where the ends are not equally far away the parts on the near
side are. The tangent of half the angle between two points of a chord is at most that of half the
angle over the chord, times the fraction of the chord between them, times the ratio of the distances
of the ends.
-/

namespace Geospatial

/-! ## Half angles -/

theorem tan_half_arccos {c : ℝ} (hlow : -1 < c) (hhigh : c ≤ 1) :
    Real.tan (Real.arccos c / 2) = √(1 - c ^ 2) / (1 + c) := by
  have hbelow : Real.arccos c < Real.pi := by
    rw [← Real.arccos_neg_one]
    exact Real.strictAntiOn_arccos ⟨le_rfl, by norm_num⟩ ⟨hlow.le, hhigh⟩ hlow
  have hcos : 0 < Real.cos (Real.arccos c / 2) :=
    Real.cos_pos_of_mem_Ioo ⟨by linarith [Real.arccos_nonneg c, Real.pi_pos], by linarith⟩
  have hdouble : 2 * (Real.arccos c / 2) = Real.arccos c := by ring
  have hsin : √(1 - c ^ 2) =
      2 * Real.sin (Real.arccos c / 2) * Real.cos (Real.arccos c / 2) := by
    rw [← Real.sin_two_mul, hdouble, Real.sin_arccos]
  have hsum : 1 + c = 2 * Real.cos (Real.arccos c / 2) ^ 2 := by
    have := Real.cos_two_mul (Real.arccos c / 2)
    rw [hdouble, Real.cos_arccos hlow.le hhigh] at this
    linarith
  rw [hsin, hsum, Real.tan_eq_sin_div_cos]
  field_simp

namespace Direction

noncomputable def angle (p q : Direction ℝ) : ℝ := Real.arccos (p.dot q / (p.norm * q.norm))

variable {p q : Direction ℝ}

theorem norm_nonneg (p : Direction ℝ) : 0 ≤ p.norm := Real.sqrt_nonneg _

theorem norm_sq (p : Direction ℝ) : p.norm ^ 2 = p.dot p := by rw [sq, norm_mul_norm]

theorem dot_sq_le (p q : Direction ℝ) : p.dot q ^ 2 ≤ p.dot p * q.dot q := by
  simp only [dot]
  nlinarith [sq_nonneg (p.x * q.y - p.y * q.x), sq_nonneg (p.y * q.z - p.z * q.y),
    sq_nonneg (p.z * q.x - p.x * q.z)]

theorem dot_le_norm_mul_norm (p q : Direction ℝ) : p.dot q ≤ p.norm * q.norm := by
  refine abs_le_of_sq_le_sq' ?_ (mul_nonneg p.norm_nonneg q.norm_nonneg) |>.2
  rw [mul_pow, norm_sq, norm_sq]
  exact dot_sq_le p q

theorem angle_nonneg (p q : Direction ℝ) : 0 ≤ angle p q := Real.arccos_nonneg _

theorem angle_lt_pi (hp : 0 < p.norm) (hq : 0 < q.norm) (h : -(p.norm * q.norm) < p.dot q) :
    angle p q < Real.pi := by
  refine lt_of_le_of_ne (Real.arccos_le_pi _) fun heq => ?_
  rw [angle, Real.arccos_eq_pi, div_le_iff₀ (mul_pos hp hq)] at heq
  linarith

theorem cos_angle (hp : 0 < p.norm) (hq : 0 < q.norm) :
    Real.cos (angle p q) * (p.norm * q.norm) = p.dot q := by
  have hpos := mul_pos hp hq
  have habs : |p.dot q| ≤ p.norm * q.norm := by
    refine abs_le_of_sq_le_sq ?_ hpos.le
    rw [mul_pow, norm_sq, norm_sq]
    exact dot_sq_le p q
  obtain ⟨hlow, hhigh⟩ := abs_le.mp habs
  rw [angle, Real.cos_arccos, div_mul_cancel₀ _ hpos.ne']
  · rw [le_div_iff₀ hpos]
    linarith
  · exact (div_le_one hpos).mpr hhigh

theorem dot_scale (p q : Direction ℝ) (k l : ℝ) :
    (p.scale k).dot (q.scale l) = p.dot q * (k * l) := by
  simp only [dot, scale]
  ring

theorem norm_scale {k : ℝ} (hk : 0 < k) : (p.scale k).norm = p.norm * k := by
  rw [norm, sqrt_real, dot_scale, Real.sqrt_mul p.dot_self_nonneg, Real.sqrt_mul_self hk.le]
  rfl

/-- Angles do not depend on distances. -/
theorem angle_scale {k l : ℝ} (hk : 0 < k) (hl : 0 < l) :
    angle (p.scale k) (q.scale l) = angle p q := by
  rw [angle, angle, norm_scale hk, norm_scale hl, dot_scale, mul_mul_mul_comm,
    mul_div_mul_right _ _ (mul_pos hk hl).ne']

/-- The tangent of half an angle by lengths and the inner product. -/
theorem tan_half_angle (hp : 0 < p.norm) (hq : 0 < q.norm) (h : -(p.norm * q.norm) < p.dot q) :
    Real.tan (angle p q / 2) =
      √(p.dot p * q.dot q - p.dot q ^ 2) / (p.norm * q.norm + p.dot q) := by
  have hpos := mul_pos hp hq
  have hlow : -1 < p.dot q / (p.norm * q.norm) := by
    rw [lt_div_iff₀ hpos]
    linarith
  have hhigh : p.dot q / (p.norm * q.norm) ≤ 1 := (div_le_one hpos).mpr (dot_le_norm_mul_norm p q)
  have hsquare : 1 - (p.dot q / (p.norm * q.norm)) ^ 2 =
      (p.dot p * q.dot q - p.dot q ^ 2) / (p.norm * q.norm) ^ 2 := by
    rw [← norm_sq, ← norm_sq]
    field_simp
  have hroot : √(1 - (p.dot q / (p.norm * q.norm)) ^ 2) =
      √(p.dot p * q.dot q - p.dot q ^ 2) / (p.norm * q.norm) := by
    rw [hsquare, Real.sqrt_div' _ (sq_nonneg _), Real.sqrt_sq hpos.le]
  rw [angle, tan_half_arccos hlow hhigh, hroot]
  field_simp

end Direction

/-! ## Points of a chord -/

noncomputable def stretch (a b : Direction ℝ) : ℝ := max a.norm b.norm / min a.norm b.norm

/-- Ends in one direction, or ends whose distances differ by at most a factor that shrinks as the
angle between them grows. -/
inductive Mild (a b : Direction ℝ) : Prop
  | aligned (h : a.angle b = 0) : Mild a b
  | near (h : stretch a b ≤ 2 * Real.cos (a.angle b / 2)) : Mild a b

section Chord

variable {a b : Direction ℝ} {s t : ℝ}

/-- The parallelogram of two points of a chord. -/
theorem chordAt_gram (a b : Direction ℝ) (s t : ℝ) :
    (chordAt a b s).dot (chordAt a b s) * (chordAt a b t).dot (chordAt a b t) -
        (chordAt a b s).dot (chordAt a b t) ^ 2 =
      (a.dot a * b.dot b - a.dot b ^ 2) * (t - s) ^ 2 := by
  simp only [chordAt_dot]
  ring

/-- How far a point of the chord would be away if its ends had one direction. -/
noncomputable def reach (a b : Direction ℝ) (t : ℝ) : ℝ := (1 - t) * a.norm + t * b.norm

theorem min_le_reach (h0 : 0 ≤ t) (h1 : t ≤ 1) : min a.norm b.norm ≤ reach a b t := by
  have ha := mul_le_mul_of_nonneg_left (min_le_left a.norm b.norm) (sub_nonneg.mpr h1)
  have hb := mul_le_mul_of_nonneg_left (min_le_right a.norm b.norm) h0
  unfold reach
  linarith

variable (ha : 0 < a.norm) (hb : 0 < b.norm)

include ha hb

theorem reach_mul_reach_le (s t : ℝ) :
    reach a b s * reach a b t * (1 + Real.cos (a.angle b)) ≤
      (chordAt a b s).norm * (chordAt a b t).norm + (chordAt a b s).dot (chordAt a b t) := by
  have hcos := Direction.cos_angle ha hb
  obtain ⟨hlow, hhigh⟩ := abs_le.mp (Real.abs_cos_le_one (a.angle b))
  set c := Real.cos (a.angle b)
  -- in the half sum and the half difference of the ends, taken at one distance, the inner product
  -- of two points of the chord is `u * u' * (1 + c) / 2 + v * v' * (1 - c) / 2`
  set u := reach a b s with hu
  set u' := reach a b t with hu'
  set v := (1 - s) * a.norm - s * b.norm with hv
  set v' := (1 - t) * a.norm - t * b.norm with hv'
  have hdot : (chordAt a b s).dot (chordAt a b t) =
      u * u' * ((1 + c) / 2) + v * v' * ((1 - c) / 2) := by
    rw [chordAt_dot, ← Direction.norm_sq, ← Direction.norm_sq, ← hcos, hu, hu', hv, hv', reach,
      reach]
    ring
  have hself : ∀ r : ℝ, (chordAt a b r).dot (chordAt a b r) = reach a b r ^ 2 * ((1 + c) / 2) +
      ((1 - r) * a.norm - r * b.norm) ^ 2 * ((1 - c) / 2) := by
    intro r
    rw [chordAt_dot, ← Direction.norm_sq, ← Direction.norm_sq, ← hcos, reach]
    ring
  have hsquare : (u * u' * ((1 + c) / 2) - v * v' * ((1 - c) / 2)) ^ 2 ≤
      ((chordAt a b s).norm * (chordAt a b t).norm) ^ 2 := by
    rw [mul_pow, Direction.norm_sq, Direction.norm_sq, hself, hself, ← hu, ← hu', ← hv, ← hv']
    have hrest : 0 ≤ (1 + c) / 2 * ((1 - c) / 2) * (u * v' + v * u') ^ 2 :=
      mul_nonneg (mul_nonneg (by linarith) (by linarith)) (sq_nonneg _)
    linarith
  have hnorms := abs_le_of_sq_le_sq hsquare
    (mul_nonneg (chordAt a b s).norm_nonneg (chordAt a b t).norm_nonneg)
  linarith [(abs_le.mp hnorms).2]

variable (hab : -(a.norm * b.norm) < a.dot b)

include hab

theorem one_add_cos_angle_pos : 0 < 1 + Real.cos (a.angle b) := by
  have hcos := Direction.cos_angle ha hb
  have hpos : 0 < (1 + Real.cos (a.angle b)) * (a.norm * b.norm) := by
    rw [add_mul, hcos]
    linarith
  exact pos_of_mul_pos_left hpos (mul_pos ha hb).le

theorem chordAt_norm_pos (h0 : 0 ≤ t) (h1 : t ≤ 1) : 0 < (chordAt a b t).norm := by
  have hreach : 0 < reach a b t := (lt_min ha hb).trans_le (min_le_reach h0 h1)
  have hle := reach_mul_reach_le ha hb t t
  rw [Direction.norm_mul_norm] at hle
  have hpos := mul_pos (mul_pos hreach hreach) (one_add_cos_angle_pos ha hb hab)
  exact Real.sqrt_pos.mpr (by linarith)

/-- Between two points of a chord the tangent of half the angle is at most that over the whole
chord, times their part of the chord, times the ratio of the distances of its ends. -/
theorem tan_half_angle_chord (h0 : 0 ≤ s) (hst : s ≤ t) (h1 : t ≤ 1) :
    Real.tan ((chordAt a b s).angle (chordAt a b t) / 2) ≤
      stretch a b * Real.tan (a.angle b / 2) * (t - s) := by
  have hcos := one_add_cos_angle_pos ha hb hab
  have hmin : 0 < min a.norm b.norm := lt_min ha hb
  have hbelow : min a.norm b.norm * min a.norm b.norm * (1 + Real.cos (a.angle b)) ≤
      (chordAt a b s).norm * (chordAt a b t).norm + (chordAt a b s).dot (chordAt a b t) := by
    refine le_trans ?_ (reach_mul_reach_le ha hb s t)
    have hs := min_le_reach (a := a) (b := b) h0 (hst.trans h1)
    have ht := min_le_reach (a := a) (b := b) (h0.trans hst) h1
    exact mul_le_mul_of_nonneg_right (mul_le_mul hs ht hmin.le (hmin.le.trans hs)) hcos.le
  have hpos := mul_pos (mul_pos hmin hmin) hcos
  have hroot : √((a.dot a * b.dot b - a.dot b ^ 2) * (t - s) ^ 2) =
      √(a.dot a * b.dot b - a.dot b ^ 2) * (t - s) := by
    rw [Real.sqrt_mul (sub_nonneg.mpr (Direction.dot_sq_le a b)), Real.sqrt_sq (sub_nonneg.mpr hst)]
  have hends : a.norm * b.norm + a.dot b =
      min a.norm b.norm * max a.norm b.norm * (1 + Real.cos (a.angle b)) := by
    rw [min_mul_max, ← Direction.cos_angle ha hb]
    ring
  have hmax : 0 < max a.norm b.norm := hmin.trans_le min_le_max
  calc Real.tan ((chordAt a b s).angle (chordAt a b t) / 2)
      = √(a.dot a * b.dot b - a.dot b ^ 2) * (t - s) /
          ((chordAt a b s).norm * (chordAt a b t).norm + (chordAt a b s).dot (chordAt a b t)) := by
        rw [Direction.tan_half_angle (chordAt_norm_pos ha hb hab h0 (hst.trans h1))
          (chordAt_norm_pos ha hb hab (h0.trans hst) h1) (by linarith), chordAt_gram, hroot]
    _ ≤ √(a.dot a * b.dot b - a.dot b ^ 2) * (t - s) /
          (min a.norm b.norm * min a.norm b.norm * (1 + Real.cos (a.angle b))) :=
        div_le_div_of_nonneg_left (mul_nonneg (Real.sqrt_nonneg _) (sub_nonneg.mpr hst)) hpos hbelow
    _ = stretch a b * Real.tan (a.angle b / 2) * (t - s) := by
        rw [Direction.tan_half_angle ha hb hab, hends, stretch]
        field_simp

/-- Around the middle of a chord between ends of one distance the bound is the tangent. -/
theorem tan_half_angle_middle (hsame : a.norm = b.norm) (h0 : 0 ≤ s) (hst : s ≤ t)
    (hmiddle : s + t = 1) :
    Real.tan ((chordAt a b s).angle (chordAt a b t) / 2) = Real.tan (a.angle b / 2) * (t - s) := by
  have hself : b.dot b = a.dot a := by rw [← Direction.norm_sq, ← Direction.norm_sq, hsame]
  obtain rfl : t = 1 - s := by linarith
  have hnorms : (chordAt a b (1 - s)).norm = (chordAt a b s).norm := by
    have hdots : (chordAt a b (1 - s)).dot (chordAt a b (1 - s)) =
        (chordAt a b s).dot (chordAt a b s) := by
      rw [chordAt_dot, chordAt_dot, hself]
      ring
    rw [Direction.norm, Direction.norm, hdots]
  have hends : (chordAt a b s).norm * (chordAt a b (1 - s)).norm +
      (chordAt a b s).dot (chordAt a b (1 - s)) = a.norm * b.norm + a.dot b := by
    rw [hnorms, Direction.norm_mul_norm, chordAt_dot, chordAt_dot, ← hsame, hself,
      Direction.norm_mul_norm]
    ring
  have hpos : 0 < a.norm * b.norm + a.dot b := by linarith
  rw [Direction.tan_half_angle (chordAt_norm_pos ha hb hab h0 (by linarith))
    (chordAt_norm_pos ha hb hab (by linarith) (by linarith)) (by linarith), chordAt_gram, hends,
    Real.sqrt_mul (sub_nonneg.mpr (Direction.dot_sq_le a b)), Real.sqrt_sq (sub_nonneg.mpr hst),
    Direction.tan_half_angle ha hb hab]
  ring

theorem half_angle_chord_lt (h0 : 0 ≤ s) (hst : s ≤ t) (h1 : t ≤ 1) :
    (chordAt a b s).angle (chordAt a b t) / 2 < Real.pi / 2 := by
  have hs := min_le_reach (a := a) (b := b) h0 (hst.trans h1)
  have ht := min_le_reach (a := a) (b := b) (h0.trans hst) h1
  have hmin : 0 < min a.norm b.norm := lt_min ha hb
  have hle := reach_mul_reach_le ha hb s t
  have hpos := mul_pos (mul_pos (hmin.trans_le hs) (hmin.trans_le ht))
    (one_add_cos_angle_pos ha hb hab)
  have := Direction.angle_lt_pi (chordAt_norm_pos ha hb hab h0 (hst.trans h1))
    (chordAt_norm_pos ha hb hab (h0.trans hst) h1) (by linarith)
  linarith

/-- An angle along a chord is bounded by its tangent. -/
theorem angle_chord_le_of_tan {bound : ℝ} (h0 : 0 ≤ s) (hst : s ≤ t) (h1 : t ≤ 1)
    (hbound : bound ∈ Set.Ico 0 (Real.pi / 2))
    (htan : stretch a b * Real.tan (a.angle b / 2) * (t - s) ≤ Real.tan bound) :
    (chordAt a b s).angle (chordAt a b t) ≤ 2 * bound := by
  have hnonneg := (chordAt a b s).angle_nonneg (chordAt a b t)
  have hle := (tan_half_angle_chord ha hb hab h0 hst h1).trans htan
  have hmono := Real.arctan_mono hle
  rw [Real.arctan_tan (by linarith [Real.pi_pos]) (half_angle_chord_lt ha hb hab h0 hst h1),
    Real.arctan_tan (by linarith [Real.pi_pos, hbound.1]) hbound.2] at hmono
  linarith

/-- Where the distances of the ends differ little for the angle between them, a part of the chord
takes at most twice its share of the angle. -/
theorem angle_chord_le_twice {share : ℝ} (hmild : Mild a b) (h0 : 0 ≤ s) (hst : s ≤ t) (h1 : t ≤ 1)
    (hshare : a.angle b * (t - s) ≤ share) :
    (chordAt a b s).angle (chordAt a b t) ≤ 2 * share := by
  have hnonneg := (chordAt a b s).angle_nonneg (chordAt a b t)
  have hhalf := Real.le_tan (by linarith) (half_angle_chord_lt ha hb hab h0 hst h1)
  have htan : stretch a b * Real.tan (a.angle b / 2) ≤ a.angle b := by
    cases hmild with
    | aligned hzero => rw [hzero, zero_div, Real.tan_zero, mul_zero]
    | near hstretch =>
      have hangle := a.angle_nonneg b
      have hlt := Direction.angle_lt_pi ha hb hab
      have hcos : 0 < Real.cos (a.angle b / 2) :=
        Real.cos_pos_of_mem_Ioo ⟨by linarith [Real.pi_pos], by linarith⟩
      calc stretch a b * Real.tan (a.angle b / 2)
          ≤ 2 * Real.cos (a.angle b / 2) * Real.tan (a.angle b / 2) :=
            mul_le_mul_of_nonneg_right hstretch
              (Real.tan_nonneg_of_nonneg_of_le_pi_div_two (by linarith) (by linarith))
        _ = 2 * Real.sin (a.angle b / 2) := by
            rw [Real.tan_eq_sin_div_cos]
            field_simp
        _ ≤ a.angle b := by linarith [Real.sin_le (by linarith : 0 ≤ a.angle b / 2)]
  have hpart := mul_le_mul_of_nonneg_right htan (sub_nonneg.mpr hst)
  linarith [tan_half_angle_chord ha hb hab h0 hst h1]

/-! ## Even steps -/

variable {steps k : ℕ} {share : ℝ}

omit ha hb hab in
theorem step_mem (hk : k < steps) :
    0 ≤ (k : ℝ) / steps ∧ (k : ℝ) / steps ≤ ((k + 1 : ℕ) : ℝ) / steps ∧
      ((k + 1 : ℕ) : ℝ) / steps ≤ 1 ∧ ((k + 1 : ℕ) : ℝ) / steps - (k : ℝ) / steps = 1 / steps := by
  have hsteps : (0 : ℝ) < steps := by exact_mod_cast Nat.zero_lt_of_lt hk
  refine ⟨by positivity, ?_, ?_, ?_⟩
  · gcongr
    exact Nat.le_succ k
  · rw [div_le_one hsteps]
    exact_mod_cast hk
  · rw [← sub_div]
    push_cast
    ring

/-- A step of a mild chord takes at most twice its share of the angle. -/
theorem angle_step_le_twice (hmild : Mild a b) (hk : k < steps)
    (hshare : a.angle b ≤ steps * share) :
    (chordAt a b (k / steps)).angle (chordAt a b ((k + 1 : ℕ) / steps)) ≤ 2 * share := by
  have hsteps : (0 : ℝ) < steps := by exact_mod_cast Nat.zero_lt_of_lt hk
  obtain ⟨h0, hle, h1, hstep⟩ := step_mem hk
  refine angle_chord_le_twice ha hb hab hmild h0 hle h1 ?_
  rw [hstep, mul_one_div, div_le_iff₀ hsteps]
  linarith

/-- A step takes its share of the angle where the step in the middle of the chord does. -/
theorem angle_step_le (hk : k < steps) (hshare : a.angle b ≤ steps * share)
    (hmem : share / 2 ∈ Set.Ico 0 (Real.pi / 2))
    (hsuffice : steps = 1 ∨
      stretch a b * Real.tan (a.angle b / 2) ≤ steps * Real.tan (share / 2)) :
    (chordAt a b (k / steps)).angle (chordAt a b ((k + 1 : ℕ) / steps)) ≤ share := by
  rcases hsuffice with rfl | hsuffice
  · obtain rfl : k = 0 := by omega
    simpa [chordAt_one, chordAt_zero] using hshare
  · have hsteps : (0 : ℝ) < steps := by exact_mod_cast Nat.zero_lt_of_lt hk
    obtain ⟨h0, hle, h1, hstep⟩ := step_mem hk
    have hbound := angle_chord_le_of_tan ha hb hab h0 hle h1 hmem (by
      rw [hstep, mul_one_div, div_le_iff₀ hsteps]
      linarith)
    linarith

end Chord

end Geospatial
