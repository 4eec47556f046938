import Geospatial.Proofs.Median.Convergence

/-!
# The step stands still at the medians

A distance lies above its tangent, so that the sum of the distances is nowhere less than the pull at
an estimate lets it be. A step that stands still has as many points under it as its pull is long;
moving away from these loses at least what the others gain. So the estimate is a median up to twice
the distances of the points under it, and exactly where these are at it. At a median no step can
descend, so that it stands still.
-/

namespace Geospatial.Median

/-! ## Tangents below distances -/

section Tangent

variable {E : Type} [NormedAddCommGroup E]

theorem length_mul_norm_sub_le (us : List E) (v : E) :
    us.length * ‖v‖ - (us.map norm).sum ≤ (us.map fun u => ‖u - v‖).sum := by
  induction us with
  | nil => simp
  | cons u rest ih =>
      have hhead := norm_sub_le u (u - v)
      rw [sub_sub_cancel] at hhead
      simp only [List.map_cons, List.sum_cons, List.length_cons, Nat.cast_add, Nat.cast_one]
      linarith

variable [InnerProductSpace ℝ E]

theorem norm_sub_inner_le {u : E} (hu : 0 < ‖u‖) (v : E) :
    ‖u‖ - inner ℝ v (‖u‖⁻¹ • u) ≤ ‖u - v‖ := by
  have hunit : ‖(‖u‖⁻¹ • u : E)‖ = 1 := by
    rw [norm_smul, norm_inv, norm_norm, inv_mul_cancel₀ hu.ne']
  have hself : inner ℝ u (‖u‖⁻¹ • u) = ‖u‖ := by
    rw [real_inner_smul_right, real_inner_self_eq_norm_sq]
    field_simp
  calc ‖u‖ - inner ℝ v (‖u‖⁻¹ • u) = inner ℝ (u - v) (‖u‖⁻¹ • u) := by
        rw [inner_sub_left, hself]
    _ ≤ ‖u - v‖ * ‖(‖u‖⁻¹ • u : E)‖ := real_inner_le_norm _ _
    _ = ‖u - v‖ := by rw [hunit, mul_one]

theorem sum_norm_sub_inner_le {us : List E} (hus : ∀ u ∈ us, 0 < ‖u‖) (v : E) :
    (us.map norm).sum - inner ℝ v (us.map fun u => ‖u‖⁻¹ • u).sum ≤
      (us.map fun u => ‖u - v‖).sum := by
  induction us with
  | nil => simp
  | cons u rest ih =>
      have hhead := norm_sub_inner_le (hus u List.mem_cons_self) v
      have htail := ih fun w hw => hus w (List.mem_cons_of_mem _ hw)
      simp only [List.map_cons, List.sum_cons, inner_add_right]
      linarith

end Tangent

/-! ## Medians -/

variable {d : Nat} {points : List (Vec ℝ d)} {estimate : Vec ℝ d}

def Minimises (points : List (Vec ℝ d)) (estimate : Vec ℝ d) : Prop :=
  ∀ y, spread points estimate ≤ spread points y

theorem le_spread_under (points : List (Vec ℝ d)) (estimate y : Vec ℝ d) :
    (under points estimate).length * ‖y.toSpace - estimate.toSpace‖ -
        spread (under points estimate) estimate ≤ spread (under points estimate) y := by
  have hle := length_mul_norm_sub_le
    ((under points estimate).map fun p => p.toSpace - estimate.toSpace)
    (y.toSpace - estimate.toSpace)
  simpa only [List.map_map, Function.comp_def, sub_sub_sub_cancel_right, List.length_map,
    spread_eq] using hle

theorem le_spread_away (points : List (Vec ℝ d)) (estimate y : Vec ℝ d) :
    spread (away points estimate) estimate -
        pull (away points estimate) estimate * ‖y.toSpace - estimate.toSpace‖ ≤
      spread (away points estimate) y := by
  have hle := sum_norm_sub_inner_le (offset_pos points estimate) (y.toSpace - estimate.toSpace)
  simp only [List.map_map, Function.comp_def, ← weight_eq, sub_sub_sub_cancel_right] at hle
  have hpull := real_inner_le_norm (y.toSpace - estimate.toSpace)
    ((away points estimate).map fun p =>
      weight estimate p • (p.toSpace - estimate.toSpace)).sum
  rw [← pull_eq_norm, mul_comm] at hpull
  rw [spread_eq, spread_eq]
  linarith

/-- Where the pull is no longer than the points under an estimate are many, no place is better by
more than twice the distances of these. -/
theorem spread_le_of_pull_le
    (h : pull (away points estimate) estimate ≤ (under points estimate).length) (y : Vec ℝ d) :
    spread points estimate ≤ spread points y + 2 * spread (under points estimate) estimate := by
  have hunder := le_spread_under points estimate y
  have haway := le_spread_away points estimate y
  have hgain := mul_le_mul_of_nonneg_right h (norm_nonneg (y.toSpace - estimate.toSpace))
  rw [spread_under_away points estimate estimate, spread_under_away points estimate y]
  linarith

/-! ## Standing still -/

theorem force_le_of_holdBack {hits : Nat} {force : ℝ} (hforce : 0 ≤ force)
    (h : holdBack hits force = 1) : force ≤ hits := by
  unfold holdBack at h
  by_cases hzero : force = 0
  · rw [hzero]
    exact Nat.cast_nonneg hits
  · have hbeq : ¬(force == 0) = true := by simpa using hzero
    rw [if_neg hbeq] at h
    by_cases hshare : (hits : ℝ) / force < 1
    · simp only [if_pos hshare] at h
      exact absurd h hshare.ne
    · have hpos : 0 < force := lt_of_le_of_ne hforce (Ne.symm hzero)
      simpa using (le_div_iff₀ hpos).mp (not_lt.mp hshare)

/-- A step stands still only where the points under its estimate hold out against the pull. -/
theorem pull_le_of_stands (h : (step points estimate).2 = 0) :
    pull (away points estimate) estimate ≤ (under points estimate).length := by
  have hnonneg := pull_nonneg (away points estimate) estimate
  by_cases hnone : away points estimate = []
  · rw [hnone, pull_eq_norm]
    simp
  · rw [step_displacement, step_toSpace hnone, add_sub_cancel_left, norm_eq_zero,
      smul_eq_zero, sub_eq_zero] at h
    rcases h with hall | hdrift
    · rw [length_under]
      unfold retention at hall
      by_cases hhits : points.length - (away points estimate).length = 0
      · simp [hhits] at hall
      · simp only [if_neg hhits] at hall
        exact force_le_of_holdBack hnonneg hall.symm
    · rw [pull_eq hnone, hdrift, norm_zero, mul_zero]
      exact Nat.cast_nonneg _

theorem spread_under_le_epsilon (points : List (Vec ℝ d)) (estimate : Vec ℝ d) :
    spread (under points estimate) estimate ≤
      (under points estimate).length * Coincidence.epsilon :=
  spread_le fun _ hp => (mem_under_iff.mp hp).2

theorem spread_under_eq_zero
    (h : ∀ p ∈ points, reach estimate p ≤ Coincidence.epsilon → p = estimate) :
    spread (under points estimate) estimate = 0 := by
  refine List.sum_eq_zero fun r hr => ?_
  obtain ⟨p, hp, rfl⟩ := List.mem_map.mp hr
  obtain ⟨hmem, hnear⟩ := mem_under_iff.mp hp
  rw [h p hmem hnear, reach_eq, sub_self, norm_zero]

theorem step_of_stands (h : (step points estimate).2 = 0) :
    step points estimate = (estimate, 0) := by
  refine Prod.ext (Vec.toSpace_injective ?_) h
  rwa [step_displacement, norm_sub_eq_zero_iff] at h

/-- A step from a median would have to descend. -/
theorem stands_of_minimises (h : Minimises points estimate) : (step points estimate).2 = 0 := by
  by_contra hmoves
  refine absurd (h (step points estimate).1) (not_le.mpr (spread_step_lt fun hsame => hmoves ?_))
  rw [step_displacement, hsame, sub_self, norm_zero]

/-- What the displacement of a step tells about its estimate. -/
structure TellsMedian (points : List (Vec ℝ d)) (estimate : Vec ℝ d) : Prop where
  rests : Minimises points estimate → (step points estimate).2 = 0
  /-- No place is much better than one at which a step stands still. -/
  near : (step points estimate).2 = 0 → ∀ y, spread points estimate ≤
    spread points y + 2 * (under points estimate).length * Coincidence.epsilon
  exact : (∀ p ∈ points, reach estimate p ≤ Coincidence.epsilon → p = estimate) →
    ((step points estimate).2 = 0 ↔ Minimises points estimate)
  stays : (step points estimate).2 = 0 → (step points estimate).1 = estimate

theorem tellsMedian (points : List (Vec ℝ d)) (estimate : Vec ℝ d) :
    TellsMedian points estimate where
  rests := stands_of_minimises
  near h y := by
    have hle := spread_le_of_pull_le (pull_le_of_stands h) y
    have hunder := spread_under_le_epsilon points estimate
    linarith
  exact hexact := by
    refine ⟨fun h y => ?_, stands_of_minimises⟩
    have hle := spread_le_of_pull_le (pull_le_of_stands h) y
    rwa [spread_under_eq_zero hexact, mul_zero, add_zero] at hle
  stays h := by rw [step_of_stands h]

/-! ## Searches from a median -/

theorem search_of_minimises {tolerance : ℝ} {cap : Rat} (htol : 0 ≤ tolerance) (hcap : 1 ≤ cap)
    (h : Minimises points (Vec.mean points)) :
    search points tolerance cap = ⟨Vec.mean points, 1, true, 0⟩ :=
  Iteration.run_of_rest hcap (lt_add_one tolerance) (step_of_stands (stands_of_minimises h)) htol

noncomputable def centroid (positions : List (Position ℝ)) : Position ℝ :=
  if positions.any Position.hasHeight then ofTallVector (Vec.mean (positions.map tallVector))
  else ofFlatVector (Vec.mean (positions.map flatVector))

def CentroidMinimises (positions : List (Position ℝ)) : Prop :=
  if positions.any Position.hasHeight then
    Minimises (positions.map tallVector) (Vec.mean (positions.map tallVector))
  else Minimises (positions.map flatVector) (Vec.mean (positions.map flatVector))

theorem solve_at_centroid {points : List (Option (Position ℝ))} {settings : Settings ℝ}
    (hne : rows points ≠ []) (htol : 0 ≤ settings.tolerance.value) (hcap : 1 ≤ settings.cap.value)
    (h : CentroidMinimises (rows points)) :
    solve (.multiPoint points) settings = .ok ⟨some (centroid (rows points)), 1, true, 0⟩ := by
  have hempty : ¬(rows points).isEmpty = true := by simpa using hne
  rw [solve_multiPoint points (check_ok htol hcap), solvePositions, if_neg hempty]
  unfold CentroidMinimises at h
  unfold centroid
  by_cases htall : (rows points).any Position.hasHeight = true
  · rw [if_pos htall] at h
    rw [if_pos htall, if_pos htall, search_of_minimises htol hcap h]
    rfl
  · rw [if_neg htall] at h
    rw [if_neg htall, if_neg htall, search_of_minimises htol hcap h]
    rfl

/-- A step stands still exactly at the medians, points near its estimate aside, and a search whose
mean is a median returns it at once. -/
theorem stands_at_medians :
    (∀ {d : Nat} (points : List (Vec ℝ d)) (estimate : Vec ℝ d), TellsMedian points estimate) ∧
    ∀ (points : List (Option (Position ℝ))) (settings : Settings ℝ), rows points ≠ [] →
      0 ≤ settings.tolerance.value → 1 ≤ settings.cap.value → CentroidMinimises (rows points) →
        solve (.multiPoint points) settings = .ok ⟨some (centroid (rows points)), 1, true, 0⟩ :=
  ⟨tellsMedian, fun _ _ hne htol hcap h => solve_at_centroid hne htol hcap h⟩

/-- The mean of two points is a median of them. -/
theorem minimises_mean_pair (p q : Vec ℝ d) : Minimises [p, q] (Vec.mean [p, q]) := by
  intro y
  have hmean : (Vec.mean [p, q]).toSpace = (2 : ℝ)⁻¹ • (p.toSpace + q.toSpace) := by
    simp [Vec.mean]
  have hp : p.toSpace - (Vec.mean [p, q]).toSpace = (2 : ℝ)⁻¹ • (p.toSpace - q.toSpace) := by
    rw [hmean]
    module
  have hq : q.toSpace - (Vec.mean [p, q]).toSpace = -((2 : ℝ)⁻¹ • (p.toSpace - q.toSpace)) := by
    rw [hmean]
    module
  have hvia := norm_sub_le_norm_sub_add_norm_sub p.toSpace y.toSpace q.toSpace
  rw [norm_sub_rev y.toSpace] at hvia
  simp only [spread_eq, List.map_cons, List.map_nil, List.sum_cons, List.sum_nil, add_zero, hp, hq,
    norm_neg, norm_smul]
  norm_num
  linarith

/-- Two points hold an estimate against the pull of a third one, and two others have their median
half way between them. -/
theorem stands_at_medians_of_pairs :
    Minimises [(#v[0, 0] : Vec ℝ 2), #v[0, 0], #v[3, 4]] #v[0, 0] ∧
    (step [(#v[0, 0] : Vec ℝ 2), #v[0, 0], #v[3, 4]] #v[0, 0]).2 = 0 ∧
    TellsMedian [(#v[0, 0] : Vec ℝ 2), #v[0, 0], #v[3, 4]] #v[0, 0] ∧
    CentroidMinimises [⟨1480, 0, none⟩, ⟨620, 0, none⟩] ∧
    solve (.multiPoint [some ⟨1480, 0, none⟩, some ⟨620, 0, none⟩])
        ⟨⟨0, .integer 0⟩, ⟨5 / 2, .real 2.5⟩, true⟩ =
      .ok ⟨some (centroid [⟨1480, 0, none⟩, ⟨620, 0, none⟩]), 1, true, 0⟩ := by
  have hmin : Minimises [(#v[0, 0] : Vec ℝ 2), #v[0, 0], #v[3, 4]] #v[0, 0] := by
    intro y
    have hvia := norm_sub_le_norm_sub_add_norm_sub (Vec.toSpace #v[3, 4]) y.toSpace
      (Vec.toSpace #v[0, 0])
    have hback := norm_nonneg (Vec.toSpace #v[0, 0] - y.toSpace)
    rw [norm_sub_rev y.toSpace] at hvia
    simp only [spread_eq, List.map_cons, List.map_nil, List.sum_cons, List.sum_nil, sub_self,
      norm_zero]
    linarith
  have hpair : CentroidMinimises [⟨1480, 0, none⟩, ⟨620, 0, none⟩] := minimises_mean_pair _ _
  have htells := stands_at_medians.1 [(#v[0, 0] : Vec ℝ 2), #v[0, 0], #v[3, 4]] #v[0, 0]
  exact ⟨hmin, htells.rests hmin, htells, hpair,
    stands_at_medians.2 _ ⟨⟨0, .integer 0⟩, ⟨5 / 2, .real 2.5⟩, true⟩
      (by exact List.cons_ne_nil _ _) le_rfl
      (by norm_num) hpair⟩

end Geospatial.Median
