import Geospatial.Proofs.Median.Space

/-!
# A step does not lead away from the median

The distance of a point is majorised by a parabola that touches it at the current estimate. The
weighted mean of the points that the estimate does not sit on is where the sum of their parabolas is
least. A step that goes only part of the way loses to the points it leaves no more than the part it
is held back by; what remains is half the total weight times the square of the displacement.
-/

namespace Geospatial.Median

/-- The distance from one to the next double. -/
noncomputable instance coincidenceReal : Coincidence ℝ := ⟨1 / ((2 ^ 52 : Nat) : ℝ)⟩

theorem epsilon_pos : 0 < (Coincidence.epsilon : ℝ) := by
  show (0 : ℝ) < 1 / ((2 ^ 52 : Nat) : ℝ)
  positivity

/-! ## Parabolas above distances -/

section Majorant

theorem le_parabola (a : ℝ) {r : ℝ} (hr : 0 < r) : a ≤ a ^ 2 / (2 * r) + r / 2 := by
  have hsq : 0 ≤ (a - r) ^ 2 / (2 * r) := by positivity
  have hexp : (a - r) ^ 2 / (2 * r) = a ^ 2 / (2 * r) + r / 2 - a := by
    field_simp
    ring
  linarith

variable {E : Type} [NormedAddCommGroup E]

theorem sum_norm_sub_le (us : List E) (v : E) :
    (us.map fun u => ‖u - v‖).sum ≤ (us.map norm).sum + us.length * ‖v‖ := by
  induction us with
  | nil => simp
  | cons u rest ih =>
      have hhead := norm_sub_le u v
      simp only [List.map_cons, List.sum_cons, List.length_cons, Nat.cast_add, Nat.cast_one]
      linarith

variable [InnerProductSpace ℝ E]

/-- The distance to `u` after going `s` times `m`, where it was not zero before. -/
theorem norm_sub_smul_le {u : E} (hu : 0 < ‖u‖) (m : E) (s : ℝ) :
    ‖u - s • m‖ ≤ ‖u‖ - s * inner ℝ m (‖u‖⁻¹ • u) + s ^ 2 / 2 * (‖u‖⁻¹ * ‖m‖ ^ 2) := by
  have hsquare : ‖u - s • m‖ ^ 2 = ‖u‖ ^ 2 - 2 * (s * inner ℝ m u) + s ^ 2 * ‖m‖ ^ 2 := by
    rw [norm_sub_sq_real, real_inner_smul_right, real_inner_comm, norm_smul, mul_pow,
      Real.norm_eq_abs, sq_abs]
  calc ‖u - s • m‖ ≤ ‖u - s • m‖ ^ 2 / (2 * ‖u‖) + ‖u‖ / 2 := le_parabola _ hu
    _ = ‖u‖ - s * inner ℝ m (‖u‖⁻¹ • u) + s ^ 2 / 2 * (‖u‖⁻¹ * ‖m‖ ^ 2) := by
      rw [hsquare, real_inner_smul_right]
      field_simp
      ring

/-- The sum of the distances to some vectors, none of them zero, after going `s` times `m`. -/
theorem sum_norm_sub_smul_le {us : List E} (hus : ∀ u ∈ us, 0 < ‖u‖) (m : E) (s : ℝ) :
    (us.map fun u => ‖u - s • m‖).sum ≤
      (us.map norm).sum - s * inner ℝ m (us.map fun u => ‖u‖⁻¹ • u).sum +
        s ^ 2 / 2 * ((us.map fun u => ‖u‖⁻¹).sum * ‖m‖ ^ 2) := by
  induction us with
  | nil => simp
  | cons u rest ih =>
      have hhead := norm_sub_smul_le (hus u List.mem_cons_self) m s
      have htail := ih fun v hv => hus v (List.mem_cons_of_mem _ hv)
      simp only [List.map_cons, List.sum_cons, inner_add_right]
      linarith

end Majorant

/-! ## The step in space -/

variable {d : Nat}

/-- The sum of the distances of the points from an estimate, which the median minimizes. -/
noncomputable def spread (points : List (Vec ℝ d)) (estimate : Vec ℝ d) : ℝ :=
  (points.map (reach estimate)).sum

noncomputable def totalWeight (points : List (Vec ℝ d)) (estimate : Vec ℝ d) : ℝ :=
  ((away points estimate).map (weight estimate)).sum

/-- The way from an estimate to the weighted mean of the points that it does not sit on. -/
noncomputable def drift (points : List (Vec ℝ d)) (estimate : Vec ℝ d) :
    EuclideanSpace ℝ (Fin d) :=
  (weightedMean (away points estimate) estimate).toSpace - estimate.toSpace

/-- The part of the way that a step does not go. -/
noncomputable def retention (points : List (Vec ℝ d)) (estimate : Vec ℝ d) : ℝ :=
  let hits := points.length - (away points estimate).length
  if hits = 0 then 0 else holdBack hits (pull (away points estimate) estimate)

theorem reach_eq (estimate p : Vec ℝ d) : reach estimate p = ‖p.toSpace - estimate.toSpace‖ := by
  rw [reach, Vec.norm_eq, Vec.toSpace_minus]

theorem spread_eq (points : List (Vec ℝ d)) (estimate : Vec ℝ d) :
    spread points estimate = (points.map fun p => ‖p.toSpace - estimate.toSpace‖).sum :=
  congrArg List.sum (List.map_congr_left fun p _ => reach_eq estimate p)

theorem weight_eq (estimate p : Vec ℝ d) :
    weight estimate p = ‖p.toSpace - estimate.toSpace‖⁻¹ := by
  rw [weight, reach_eq, one_div]

theorem mem_away_iff {points : List (Vec ℝ d)} {estimate p : Vec ℝ d} :
    p ∈ away points estimate ↔ p ∈ points ∧ Coincidence.epsilon < reach estimate p := by
  simp [away]

theorem reach_pos_of_mem_away {points : List (Vec ℝ d)} {estimate p : Vec ℝ d}
    (h : p ∈ away points estimate) : 0 < reach estimate p :=
  epsilon_pos.trans (mem_away_iff.mp h).2

theorem totalWeight_pos {points : List (Vec ℝ d)} {estimate : Vec ℝ d}
    (h : away points estimate ≠ []) : 0 < totalWeight points estimate := by
  refine List.sum_pos _ (fun w hw => ?_) (by simpa using h)
  obtain ⟨p, hp, rfl⟩ := List.mem_map.mp hw
  exact one_div_pos.mpr (reach_pos_of_mem_away hp)

theorem sum_weighted_offsets (points : List (Vec ℝ d)) (w : Vec ℝ d → ℝ)
    (x : EuclideanSpace ℝ (Fin d)) :
    (points.map fun p => w p • (p.toSpace - x)).sum =
      (points.map fun p => w p • p.toSpace).sum - (points.map w).sum • x := by
  induction points with
  | nil => simp
  | cons p rest ih =>
      simp only [List.map_cons, List.sum_cons]
      rw [ih, smul_sub, add_smul]
      abel

/-- The way from a place to an average is the average of the ways. -/
theorem average_sub {points : List (Vec ℝ d)} {w : Vec ℝ d → ℝ} (hsum : (points.map w).sum ≠ 0)
    (x : EuclideanSpace ℝ (Fin d)) :
    (points.map w).sum⁻¹ • (points.map fun p => w p • p.toSpace).sum - x =
      (points.map w).sum⁻¹ • (points.map fun p => w p • (p.toSpace - x)).sum := by
  rw [sum_weighted_offsets, smul_sub, inv_smul_smul₀ hsum]

theorem toSpace_weightedMean (points : List (Vec ℝ d)) (estimate : Vec ℝ d) :
    (weightedMean points estimate).toSpace =
      (points.map (weight estimate)).sum⁻¹ •
        (points.map fun p => weight estimate p • p.toSpace).sum := by
  rw [weightedMean, Vec.toSpace_dividedBy, Vec.toSpace_sum, List.map_map, ← List.sum_eq_foldl]
  simp only [Function.comp_def, Vec.toSpace_times]

/-- The drift is the sum of the unit vectors towards the points, divided by their total weight. -/
theorem totalWeight_smul_drift {points : List (Vec ℝ d)} {estimate : Vec ℝ d}
    (h : away points estimate ≠ []) :
    totalWeight points estimate • drift points estimate =
      ((away points estimate).map fun p =>
        weight estimate p • (p.toSpace - estimate.toSpace)).sum := by
  have hweight : totalWeight points estimate ≠ 0 := (totalWeight_pos h).ne'
  rw [drift, toSpace_weightedMean, average_sub hweight]
  exact smul_inv_smul₀ hweight _

theorem pull_eq_norm (points : List (Vec ℝ d)) (estimate : Vec ℝ d) :
    pull points estimate =
      ‖(points.map fun p => weight estimate p • (p.toSpace - estimate.toSpace)).sum‖ := by
  rw [pull, Vec.norm_eq, Vec.toSpace_sum, List.map_map]
  simp only [Function.comp_def, Vec.toSpace_times, Vec.toSpace_minus]

theorem pull_nonneg (points : List (Vec ℝ d)) (estimate : Vec ℝ d) : 0 ≤ pull points estimate := by
  rw [pull_eq_norm]
  exact norm_nonneg _

theorem pull_eq {points : List (Vec ℝ d)} {estimate : Vec ℝ d}
    (h : away points estimate ≠ []) :
    pull (away points estimate) estimate =
      totalWeight points estimate * ‖drift points estimate‖ := by
  have hnorm := congrArg norm (totalWeight_smul_drift h)
  rw [norm_smul, Real.norm_of_nonneg (totalWeight_pos h).le] at hnorm
  rw [hnorm, pull_eq_norm]

/-- What holds an estimate back balances the pull, or holds it entirely. -/
theorem holdBack_balances (hits : Nat) {force : ℝ} (hforce : 0 ≤ force) :
    holdBack hits force = 1 ∨ (holdBack hits force ≤ 1 ∧ holdBack hits force * force = hits) := by
  unfold holdBack
  by_cases hzero : force = 0
  · left
    simp [hzero]
  · have hpos : 0 < force := lt_of_le_of_ne hforce (Ne.symm hzero)
    have hbeq : ¬(force == 0) = true := by simpa using hzero
    rw [if_neg hbeq]
    by_cases hshare : (hits : ℝ) / force < 1
    · right
      simp only [if_pos hshare]
      exact ⟨hshare.le, div_mul_cancel₀ _ hzero⟩
    · left
      simp only [if_neg hshare]

theorem retention_balances {points : List (Vec ℝ d)} {estimate : Vec ℝ d}
    (h : away points estimate ≠ []) :
    retention points estimate = 1 ∨
      (retention points estimate ≤ 1 ∧
        retention points estimate * (totalWeight points estimate * ‖drift points estimate‖) =
          ((points.length - (away points estimate).length : Nat) : ℝ)) := by
  rw [← pull_eq h]
  by_cases hhits : points.length - (away points estimate).length = 0
  · right
    simp [retention, hhits]
  · simp only [retention, if_neg hhits]
    exact holdBack_balances _ (pull_nonneg _ _)

theorem step_of_none_away {points : List (Vec ℝ d)} {estimate : Vec ℝ d}
    (h : away points estimate = []) : step points estimate = (estimate, 0) := by
  simp [step, h]

/-- A step goes part of the way to the weighted mean. -/
theorem step_toSpace {points : List (Vec ℝ d)} {estimate : Vec ℝ d}
    (h : away points estimate ≠ []) :
    (step points estimate).1.toSpace =
      estimate.toSpace + (1 - retention points estimate) • drift points estimate := by
  have hempty : ¬(away points estimate).isEmpty = true := by simpa using h
  simp only [step, if_neg hempty, retention, drift]
  by_cases hhits : points.length - (away points estimate).length = 0
  · simp [hhits]
  · simp only [if_neg hhits, Vec.toSpace_plus, Vec.toSpace_times, smul_sub, sub_smul, one_smul]
    abel

theorem step_displacement (points : List (Vec ℝ d)) (estimate : Vec ℝ d) :
    (step points estimate).2 = ‖(step points estimate).1.toSpace - estimate.toSpace‖ := by
  by_cases h : away points estimate = []
  · simp [step_of_none_away h]
  · have hempty : ¬(away points estimate).isEmpty = true := by simpa using h
    simp only [step, if_neg hempty, Vec.norm_eq, Vec.toSpace_minus]

/-! ## Descent -/

noncomputable def under (points : List (Vec ℝ d)) (estimate : Vec ℝ d) : List (Vec ℝ d) :=
  points.filter fun p => decide (reach estimate p ≤ Coincidence.epsilon)

theorem mem_under_iff {points : List (Vec ℝ d)} {estimate p : Vec ℝ d} :
    p ∈ under points estimate ↔ p ∈ points ∧ reach estimate p ≤ Coincidence.epsilon := by
  simp [under]

theorem under_away_perm (points : List (Vec ℝ d)) (estimate : Vec ℝ d) :
    (under points estimate ++ away points estimate).Perm points :=
  List.filter_append_perm _ points

theorem length_under (points : List (Vec ℝ d)) (estimate : Vec ℝ d) :
    (under points estimate).length = points.length - (away points estimate).length := by
  have hlength := (under_away_perm points estimate).length_eq
  rw [List.length_append] at hlength
  omega

theorem spread_under_away (points : List (Vec ℝ d)) (estimate y : Vec ℝ d) :
    spread points y = spread (under points estimate) y + spread (away points estimate) y := by
  have hsum := ((under_away_perm points estimate).map (reach y)).sum_eq
  rw [List.map_append, List.sum_append] at hsum
  exact hsum.symm

theorem spread_under_le (points : List (Vec ℝ d)) (estimate y : Vec ℝ d) :
    spread (under points estimate) y ≤
      spread (under points estimate) estimate +
        (points.length - (away points estimate).length : Nat) * ‖y.toSpace - estimate.toSpace‖ := by
  have hle := sum_norm_sub_le ((under points estimate).map fun p => p.toSpace - estimate.toSpace)
    (y.toSpace - estimate.toSpace)
  simpa only [List.map_map, Function.comp_def, sub_sub_sub_cancel_right, List.length_map,
    length_under, spread_eq] using hle

theorem offset_pos (points : List (Vec ℝ d)) (estimate : Vec ℝ d) :
    ∀ u ∈ (away points estimate).map fun p => p.toSpace - estimate.toSpace, 0 < ‖u‖ := by
  intro u hu
  obtain ⟨p, hp, rfl⟩ := List.mem_map.mp hu
  rw [← reach_eq]
  exact reach_pos_of_mem_away hp

/-- Going the part `s` of the way towards the weighted mean. -/
theorem spread_away_le {points : List (Vec ℝ d)} {estimate y : Vec ℝ d} {s : ℝ}
    (h : away points estimate ≠ [])
    (hy : y.toSpace = estimate.toSpace + s • drift points estimate) :
    spread (away points estimate) y ≤
      spread (away points estimate) estimate -
        (s - s ^ 2 / 2) * (totalWeight points estimate * ‖drift points estimate‖ ^ 2) := by
  have hle := sum_norm_sub_smul_le (offset_pos points estimate) (drift points estimate) s
  have hdrift := totalWeight_smul_drift h
  simp only [List.map_map, Function.comp_def, ← weight_eq] at hle
  rw [← hdrift, real_inner_smul_right, real_inner_self_eq_norm_sq] at hle
  have hweight : ((away points estimate).map fun p => weight estimate p).sum =
      totalWeight points estimate := rfl
  rw [hweight] at hle
  simp only [sub_sub, ← hy] at hle
  rw [spread_eq, spread_eq]
  linarith

/-- A step loses half the total weight times the square of the displacement. -/
theorem step_spread_le {points : List (Vec ℝ d)} {estimate : Vec ℝ d}
    (h : away points estimate ≠ []) :
    spread points (step points estimate).1 ≤
      spread points estimate -
        totalWeight points estimate / 2 * (step points estimate).2 ^ 2 := by
  have hy := step_toSpace h
  have hway : (step points estimate).1.toSpace - estimate.toSpace =
      (1 - retention points estimate) • drift points estimate := by
    rw [hy, add_sub_cancel_left]
  have haway := spread_away_le h hy
  have hunder := spread_under_le points estimate (step points estimate).1
  rw [step_displacement, spread_under_away points estimate (step points estimate).1,
    spread_under_away points estimate estimate]
  rw [hway, norm_smul, Real.norm_eq_abs] at hunder ⊢
  rcases retention_balances h with hall | ⟨hle, hbalance⟩
  · rw [hall] at hunder haway ⊢
    simp only [sub_self, abs_zero, zero_mul, mul_zero] at hunder haway ⊢
    linarith
  · rw [abs_of_nonneg (sub_nonneg.mpr hle), ← hbalance] at hunder
    rw [abs_of_nonneg (sub_nonneg.mpr hle)]
    linarith

end Geospatial.Median
