import Geospatial.Proofs.Median.Solve
import Mathlib.Topology.MetricSpace.Bounded

/-!
# The median search comes to rest

Every estimate is an average of the points and of the estimate before it, so that it stays within
the diameter of the points of each of them. The weights of the points it does not sit on then sum up
to the inverse of the diameter at least, and a step beyond the tolerance lowers the sum of the
distances by a fixed amount. That sum is at most the diameter for each point, which bounds the
number of such steps.
-/

namespace Geospatial.Median

variable {d : Nat}

/-! ## Averages -/

theorem norm_sum_smul_le {ι E : Type} [NormedAddCommGroup E] [NormedSpace ℝ E] {items : List ι}
    {w : ι → ℝ} {v : ι → E} {bound : ℝ} (hweights : ∀ i ∈ items, 0 ≤ w i)
    (hnear : ∀ i ∈ items, ‖v i‖ ≤ bound) :
    ‖(items.map fun i => w i • v i).sum‖ ≤ (items.map w).sum * bound := by
  induction items with
  | nil => simp
  | cons i rest ih =>
      have hrest := ih (fun j hj => hweights j (List.mem_cons_of_mem _ hj))
        fun j hj => hnear j (List.mem_cons_of_mem _ hj)
      have hhead : ‖w i • v i‖ ≤ w i * bound := by
        rw [norm_smul, Real.norm_of_nonneg (hweights i List.mem_cons_self)]
        exact mul_le_mul_of_nonneg_left (hnear i List.mem_cons_self)
          (hweights i List.mem_cons_self)
      simp only [List.map_cons, List.sum_cons, add_mul]
      exact (norm_add_le _ _).trans (add_le_add hhead hrest)

/-- An average of points is no farther from a place than the farthest of them. -/
theorem norm_sub_average_le {points : List (Vec ℝ d)} {w : Vec ℝ d → ℝ} {bound : ℝ}
    {place : EuclideanSpace ℝ (Fin d)} (hweights : ∀ p ∈ points, 0 ≤ w p)
    (hsum : 0 < (points.map w).sum) (hnear : ∀ p ∈ points, ‖p.toSpace - place‖ ≤ bound) :
    ‖(points.map w).sum⁻¹ • (points.map fun p => w p • p.toSpace).sum - place‖ ≤ bound := by
  have hle := norm_sum_smul_le hweights hnear
  rw [average_sub hsum.ne', norm_smul, Real.norm_of_nonneg (inv_nonneg.mpr hsum.le)]
  calc (points.map w).sum⁻¹ * ‖(points.map fun p => w p • (p.toSpace - place)).sum‖
      ≤ (points.map w).sum⁻¹ * ((points.map w).sum * bound) :=
        mul_le_mul_of_nonneg_left hle (inv_nonneg.mpr hsum.le)
    _ = bound := inv_mul_cancel_left₀ hsum.ne' bound

/-! ## Estimates stay near all points -/

def Within (points : List (Vec ℝ d)) (bound : ℝ) (estimate : Vec ℝ d) : Prop :=
  ∀ p ∈ points, reach estimate p ≤ bound

theorem toSpace_mean (points : List (Vec ℝ d)) :
    (Vec.mean points).toSpace =
      (points.map fun _ => (1 : ℝ)).sum⁻¹ • (points.map fun p => (1 : ℝ) • p.toSpace).sum := by
  simp [Vec.mean]

theorem within_mean {points : List (Vec ℝ d)} {bound : ℝ} (hne : points ≠ [])
    (h : ∀ p ∈ points, ∀ q ∈ points, reach p q ≤ bound) :
    Within points bound (Vec.mean points) := by
  intro p hp
  rw [reach_eq, norm_sub_rev, toSpace_mean]
  refine norm_sub_average_le (fun _ _ => zero_le_one) ?_ fun q hq => ?_
  · have := List.length_pos_iff.mpr hne
    simpa using this
  · rw [← reach_eq]
    exact h p hp q hq

theorem weight_nonneg (estimate p : Vec ℝ d) : 0 ≤ weight estimate p := by
  rw [weight_eq]
  exact inv_nonneg.mpr (norm_nonneg _)

theorem holdBack_mem_unit (hits : Nat) {force : ℝ} (hforce : 0 ≤ force) :
    0 ≤ holdBack hits force ∧ holdBack hits force ≤ 1 := by
  unfold holdBack
  split
  · exact ⟨zero_le_one, le_rfl⟩
  · by_cases hshare : (hits : ℝ) / force < 1
    · simp only [if_pos hshare]
      exact ⟨div_nonneg (Nat.cast_nonneg hits) hforce, hshare.le⟩
    · simp only [if_neg hshare]
      exact ⟨zero_le_one, le_rfl⟩

theorem retention_mem_unit (points : List (Vec ℝ d)) (estimate : Vec ℝ d) :
    0 ≤ retention points estimate ∧ retention points estimate ≤ 1 := by
  unfold retention
  by_cases hhits : points.length - (away points estimate).length = 0
  · simp [hhits]
  · simp only [if_neg hhits]
    exact holdBack_mem_unit _ (pull_nonneg _ _)

/-- The next estimate divides the way from the current one to the weighted mean, and both are
within the bound. -/
theorem within_step {points : List (Vec ℝ d)} {estimate : Vec ℝ d} {bound : ℝ}
    (hpoints : ∀ p ∈ points, ∀ q ∈ points, reach p q ≤ bound)
    (h : Within points bound estimate) : Within points bound (step points estimate).1 := by
  by_cases hnone : away points estimate = []
  · rw [step_of_none_away hnone]
    exact h
  intro p hp
  obtain ⟨hlo, hhi⟩ := retention_mem_unit points estimate
  have hmean : ‖(weightedMean (away points estimate) estimate).toSpace - p.toSpace‖ ≤ bound := by
    rw [toSpace_weightedMean]
    refine norm_sub_average_le (fun q _ => weight_nonneg estimate q) (totalWeight_pos hnone)
      fun q hq => ?_
    rw [← reach_eq]
    exact hpoints p hp q (mem_away_iff.mp hq).1
  have hcurrent := h p hp
  rw [reach_eq, norm_sub_rev] at hcurrent ⊢
  have hnext : (step points estimate).1.toSpace - p.toSpace =
      retention points estimate • (estimate.toSpace - p.toSpace) +
        (1 - retention points estimate) •
          ((weightedMean (away points estimate) estimate).toSpace - p.toSpace) := by
    rw [step_toSpace hnone, drift]
    module
  rw [hnext]
  calc _ ≤ retention points estimate * bound + (1 - retention points estimate) * bound := by
        refine (norm_add_le _ _).trans (add_le_add ?_ ?_)
        · rw [norm_smul, Real.norm_of_nonneg hlo]
          exact mul_le_mul_of_nonneg_left hcurrent hlo
        · rw [norm_smul, Real.norm_of_nonneg (sub_nonneg.mpr hhi)]
          exact mul_le_mul_of_nonneg_left hmean (sub_nonneg.mpr hhi)
    _ = bound := by ring

/-! ## The price of a step -/

theorem inv_le_totalWeight {points : List (Vec ℝ d)} {estimate : Vec ℝ d} {bound : ℝ}
    (hnone : away points estimate ≠ []) (h : Within points bound estimate) :
    0 < bound ∧ bound⁻¹ ≤ totalWeight points estimate := by
  obtain ⟨p, rest, hp⟩ := List.exists_cons_of_ne_nil hnone
  have hmem : p ∈ away points estimate := hp ▸ List.mem_cons_self
  have hpos := reach_pos_of_mem_away hmem
  have hle := h p (mem_away_iff.mp hmem).1
  refine ⟨hpos.trans_le hle, ?_⟩
  have hweight : weight estimate p ≤ totalWeight points estimate := by
    refine List.single_le_sum (fun w hw => ?_) _ (List.mem_map.mpr ⟨p, hmem, rfl⟩)
    obtain ⟨q, -, rfl⟩ := List.mem_map.mp hw
    exact weight_nonneg estimate q
  refine le_trans ?_ hweight
  rw [weight, one_div]
  exact inv_anti₀ hpos hle

/-- A step beyond the tolerance costs more than `tolerance ^ 2 / (2 * bound)`. -/
theorem spread_step_add_lt {points : List (Vec ℝ d)} {estimate : Vec ℝ d} {bound tolerance : ℝ}
    (htol : 0 < tolerance) (h : Within points bound estimate)
    (hmove : tolerance < (step points estimate).2) :
    spread points (step points estimate).1 + tolerance ^ 2 / (2 * bound) <
      spread points estimate := by
  have hnone : away points estimate ≠ [] := by
    intro hnone
    rw [step_of_none_away hnone] at hmove
    exact absurd hmove (not_lt.mpr htol.le)
  obtain ⟨hbound, hweight⟩ := inv_le_totalWeight hnone h
  have hle := step_spread_le hnone
  have hsquare : tolerance ^ 2 < (step points estimate).2 ^ 2 :=
    pow_lt_pow_left₀ hmove htol.le two_ne_zero
  have hloss : tolerance ^ 2 / (2 * bound) <
      totalWeight points estimate / 2 * (step points estimate).2 ^ 2 := by
    calc tolerance ^ 2 / (2 * bound) = bound⁻¹ / 2 * tolerance ^ 2 := by
          field_simp
      _ < bound⁻¹ / 2 * (step points estimate).2 ^ 2 :=
          mul_lt_mul_of_pos_left hsquare (half_pos (inv_pos.mpr hbound))
      _ ≤ totalWeight points estimate / 2 * (step points estimate).2 ^ 2 := by
          have := sq_nonneg (step points estimate).2
          exact mul_le_mul_of_nonneg_right (by linarith) this
  linarith

theorem spread_nonneg (points : List (Vec ℝ d)) (estimate : Vec ℝ d) :
    0 ≤ spread points estimate := by
  refine List.sum_nonneg fun r hr => ?_
  obtain ⟨p, -, rfl⟩ := List.mem_map.mp hr
  rw [reach_eq]
  exact norm_nonneg _

theorem spread_le {points : List (Vec ℝ d)} {estimate : Vec ℝ d} {bound : ℝ}
    (h : Within points bound estimate) : spread points estimate ≤ points.length * bound := by
  have hle := List.sum_le_card_nsmul (points.map (reach estimate)) bound fun r hr => by
    obtain ⟨p, hp, rfl⟩ := List.mem_map.mp hr
    exact h p hp
  simpa [spread] using hle

/-! ## Searches -/

noncomputable def spanOf (points : List (Vec ℝ d)) : ℝ :=
  Metric.diam {x | x ∈ points.map Vec.toSpace}

theorem reach_le_spanOf {points : List (Vec ℝ d)} {p q : Vec ℝ d} (hp : p ∈ points)
    (hq : q ∈ points) : reach p q ≤ spanOf points := by
  rw [reach_eq, ← dist_eq_norm]
  exact Metric.dist_le_diam_of_mem (List.finite_toSet _).isBounded (List.mem_map_of_mem hq)
    (List.mem_map_of_mem hp)

theorem spread_le_losses {count span tolerance : ℝ} {steps : Nat} (hspan : 0 ≤ span)
    (htol : 0 < tolerance) (h : 2 * count * span ^ 2 / tolerance ^ 2 ≤ steps) :
    count * span ≤ steps * (tolerance ^ 2 / (2 * span)) := by
  rcases hspan.eq_or_lt with rfl | hpos
  · simp
  · rw [div_le_iff₀ (by positivity)] at h
    rw [← mul_div_assoc, le_div_iff₀ (by positivity)]
    linarith

theorem search_converges {points : List (Vec ℝ d)} (hne : points ≠ []) {tolerance : ℝ} {cap : Rat}
    (htol : 0 < tolerance) (hcap : 1 ≤ cap)
    (hsteps : 2 * points.length * spanOf points ^ 2 / tolerance ^ 2 ≤ (cap : ℝ)) :
    (search points tolerance cap).converged = true := by
  have hspan : ∀ p ∈ points, ∀ q ∈ points, reach p q ≤ spanOf points :=
    fun p hp q hq => reach_le_spanOf hp hq
  have hbudget : (cap : ℝ) ≤ Iteration.budget cap := by exact_mod_cast Iteration.le_budget cap
  have hstart := within_mean hne hspan
  refine Iteration.runFrom_converged (Within points (spanOf points)) (spread points)
    (fun _ h => within_step hspan h) (spread_nonneg points)
    (fun _ h => spread_step_add_lt htol h) 0 _ (Iteration.budget_ne_zero hcap) hstart ?_
  exact (spread_le hstart).trans (spread_le_losses Metric.diam_nonneg htol (hsteps.trans hbudget))

/-! ## The median of a multi-point -/

/-- The diameter of positions, in space as soon as one has a height and else in the plane. -/
noncomputable def diameter (positions : List (Position ℝ)) : ℝ :=
  if positions.any Position.hasHeight then spanOf (positions.map tallVector)
  else spanOf (positions.map flatVector)

/-- An estimate with which a search has come to rest. -/
structure Rests (settings : Settings ℝ) (estimate : Estimate ℝ) : Prop where
  converged : estimate.converged = true
  displacement : estimate.displacement ≤ settings.tolerance.value
  steps : estimate.steps ≤ Iteration.budget settings.cap.value

theorem accept_of_converged {points : List (Vec ℝ d)} {settings : Settings ℝ}
    (position : Vec ℝ d → Position ℝ)
    (h : (search points settings.tolerance.value settings.cap.value).converged = true) :
    ∃ estimate, settings.accept
        (search points settings.tolerance.value settings.cap.value) position = .ok estimate ∧
      Rests settings estimate := by
  have hle := (Iteration.run_converged_iff _ _ _ _ _).mp h
  refine ⟨⟨_, _, _, _⟩, by simp only [Settings.accept, h]; rfl, rfl, hle, ?_⟩
  exact Iteration.run_steps_le _ _ _ _ _

theorem check_ok {settings : Settings ℝ} (htol : 0 ≤ settings.tolerance.value)
    (hcap : 1 ≤ settings.cap.value) : settings.check = .ok () := by
  simp [Settings.check, not_lt.mpr htol, not_lt.mpr hcap]

/-- A search for the median that may take `2 * n * D ^ 2 / tolerance ^ 2` steps comes to rest. -/
theorem solve_rests (points : List (Option (Position ℝ))) (settings : Settings ℝ)
    (hne : rows points ≠ []) (htol : 0 < settings.tolerance.value) (hcap : 1 ≤ settings.cap.value)
    (hsteps : 2 * (rows points).length * diameter (rows points) ^ 2 /
      settings.tolerance.value ^ 2 ≤ (settings.cap.value : ℝ)) :
    ∃ estimate, solve (.multiPoint points) settings = .ok estimate ∧
      Rests settings estimate := by
  have hempty : ¬(rows points).isEmpty = true := by simpa using hne
  unfold diameter at hsteps
  rw [solve_multiPoint points (check_ok htol.le hcap), solvePositions, if_neg hempty]
  by_cases htall : (rows points).any Position.hasHeight = true
  · rw [if_pos htall] at hsteps ⊢
    refine accept_of_converged _ (search_converges (by simpa using hne) htol hcap ?_)
    rwa [List.length_map]
  · rw [if_neg htall] at hsteps ⊢
    refine accept_of_converged _ (search_converges (by simpa using hne) htol hcap ?_)
    rwa [List.length_map]

/-- A strict search for the median of two points at one place and one at distance five. -/
theorem solve_rests_of_three :
    (0 : ℝ) < 1 ∧ (1 : Rat) ≤ 150 ∧
    2 * (3 : Nat) * diameter [⟨0, 0, none⟩, ⟨0, 0, none⟩, ⟨3, 4, none⟩] ^ 2 / (1 : ℝ) ^ 2 ≤
      ((150 : Rat) : ℝ) ∧
    ∃ estimate,
      solve (.multiPoint [some ⟨0, 0, none⟩, none, some ⟨0, 0, none⟩, some ⟨3, 4, none⟩])
        ⟨⟨1, .integer 1⟩, ⟨150, .integer 150⟩, true⟩ = .ok estimate ∧
      Rests ⟨⟨1, .integer 1⟩, ⟨150, .integer 150⟩, true⟩ estimate := by
  have hspan : diameter [⟨0, 0, none⟩, ⟨0, 0, none⟩, ⟨3, 4, none⟩] ≤ 5 := by
    refine Metric.diam_le_of_forall_dist_le (by norm_num) fun x hx y hy => ?_
    simp only [List.map_cons, List.map_nil, Set.mem_ofPred_eq, List.mem_cons, List.not_mem_nil,
      or_false] at hx hy
    have hsqrt : √((3 : ℝ) ^ 2 + 4 ^ 2) = 5 := by
      rw [show ((3 : ℝ) ^ 2 + 4 ^ 2) = 5 ^ 2 by norm_num]
      exact Real.sqrt_sq (by norm_num)
    rcases hx with rfl | rfl | rfl <;> rcases hy with rfl | rfl | rfl <;>
      simp [EuclideanSpace.dist_eq, Fin.sum_univ_two, flatVector, Real.dist_eq, hsqrt]
  have hnonneg : 0 ≤ diameter [⟨0, 0, none⟩, ⟨0, 0, none⟩, ⟨3, 4, none⟩] := Metric.diam_nonneg
  have hsteps : 2 * (3 : Nat) * diameter [⟨0, 0, none⟩, ⟨0, 0, none⟩, ⟨3, 4, none⟩] ^ 2 /
      (1 : ℝ) ^ 2 ≤ ((150 : Rat) : ℝ) := by
    have hsquare := pow_le_pow_left₀ hnonneg hspan 2
    norm_num
    linarith
  exact ⟨by norm_num, by norm_num, hsteps,
    solve_rests _ ⟨⟨1, .integer 1⟩, ⟨150, .integer 150⟩, true⟩ (by exact List.cons_ne_nil _ _)
      (by norm_num) (by norm_num) hsteps⟩

end Geospatial.Median
