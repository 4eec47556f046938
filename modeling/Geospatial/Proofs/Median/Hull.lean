import Geospatial.Proofs.Median.Convergence
import Geospatial.Proofs.Median.Divisors
import Mathlib.Analysis.Convex.Combination

/-!
# The median search stays among its points

The first estimate is an average of all points; a step goes to an average of points and stops on the
way there. So a search never leaves a convex set that holds its points, the smallest of which is
their hull. No step divides by zero, so that what a quotient by zero would be plays no part in the
result.
-/

namespace Geospatial.Median

variable {d : Nat}

/-! ## Convex sets -/

section Convex

variable {points : List (Vec ℝ d)} {s : Set (EuclideanSpace ℝ (Fin d))}

/-- An average of points lies in every convex set that holds them. -/
theorem average_mem (hs : Convex ℝ s) {w : Vec ℝ d → ℝ} (hpoints : ∀ p ∈ points, p.toSpace ∈ s)
    (hweights : ∀ p ∈ points, 0 ≤ w p) (hsum : 0 < (points.map w).sum) :
    (points.map w).sum⁻¹ • (points.map fun p => w p • p.toSpace).sum ∈ s := by
  have hmem : ∀ i : Fin points.length, points[(i : Nat)] ∈ points :=
    fun i => List.getElem_mem i.isLt
  rw [← Fin.sum_univ_fun_getElem] at hsum ⊢
  rw [← Fin.sum_univ_fun_getElem points fun p => w p • p.toSpace]
  exact hs.centerMass_mem (fun i _ => hweights _ (hmem i)) hsum fun i _ => hpoints _ (hmem i)

theorem mean_mem (hs : Convex ℝ s) (hne : points ≠ []) (hpoints : ∀ p ∈ points, p.toSpace ∈ s) :
    (Vec.mean points).toSpace ∈ s := by
  rw [toSpace_mean]
  refine average_mem hs hpoints (fun _ _ => zero_le_one) ?_
  have := List.length_pos_iff.mpr hne
  simpa using this

/-- A step divides the way from its estimate to an average of points. -/
theorem step_mem (hs : Convex ℝ s) (hpoints : ∀ p ∈ points, p.toSpace ∈ s) {estimate : Vec ℝ d}
    (h : estimate.toSpace ∈ s) : (step points estimate).1.toSpace ∈ s := by
  by_cases hnone : away points estimate = []
  · rw [step_of_none_away hnone]
    exact h
  obtain ⟨hlo, hhi⟩ := retention_mem_unit points estimate
  have htarget : (weightedMean (away points estimate) estimate).toSpace ∈ s := by
    rw [toSpace_weightedMean]
    exact average_mem hs (fun p hp => hpoints p (mem_away_iff.mp hp).1)
      (fun p _ => weight_nonneg estimate p) (totalWeight_pos hnone)
  rw [step_toSpace hnone, drift]
  exact hs.add_smul_sub_mem h htarget ⟨sub_nonneg.mpr hhi, sub_le_self _ hlo⟩

theorem after_mem (hs : Convex ℝ s) (hne : points ≠ []) (hpoints : ∀ p ∈ points, p.toSpace ∈ s)
    (steps : Nat) : (Iteration.after (step points) (Vec.mean points) steps).toSpace ∈ s := by
  induction steps with
  | zero => exact mean_mem hs hne hpoints
  | succ steps ih =>
      rw [Iteration.after_succ]
      exact step_mem hs hpoints ih

end Convex

def hull (points : List (Vec ℝ d)) : Set (EuclideanSpace ℝ (Fin d)) :=
  convexHull ℝ {x | x ∈ points.map Vec.toSpace}

theorem mem_hull {points : List (Vec ℝ d)} {p : Vec ℝ d} (h : p ∈ points) :
    p.toSpace ∈ hull points :=
  subset_convexHull ℝ _ (List.mem_map_of_mem h)

/-! ## Other divisions -/

noncomputable def share (points : List (Vec ℝ d)) (estimate : Vec ℝ d) : ℝ :=
  holdBack (points.length - (away points estimate).length) (pull (away points estimate) estimate)

noncomputable def stepBy (division : ℝ → ℝ → ℝ) (points : List (Vec ℝ d)) (estimate : Vec ℝ d) :
    Vec ℝ d × ℝ :=
  letI : Div ℝ := ⟨division⟩
  step points estimate

noncomputable def meanBy (division : ℝ → ℝ → ℝ) (points : List (Vec ℝ d)) : Vec ℝ d :=
  letI : Div ℝ := ⟨division⟩
  Vec.mean points

noncomputable def solveBy (division : ℝ → ℝ → ℝ) (positions : List (Position ℝ))
    (settings : Settings ℝ) : Except Failure (Estimate ℝ) :=
  letI : Div ℝ := ⟨division⟩
  solvePositions positions settings

section Division

variable {division : ℝ → ℝ → ℝ} {points : List (Vec ℝ d)}

theorem meanBy_eq (h : Divides division) (hne : points ≠ []) :
    meanBy division points = Vec.mean points := by
  have hlength : (points.length : ℝ) ≠ 0 := by simpa using hne
  refine Vector.ext fun i hi => ?_
  simp only [meanBy, Vec.mean, Vec.dividedBy, Vector.getElem_map]
  exact h _ _ hlength

/-- A step does not depend on what a quotient by zero is. -/
theorem stepBy_eq (h : Divides division) (points : List (Vec ℝ d)) :
    stepBy division points = step points := by
  funext estimate
  have hby : stepM (m := Id) (fun a b => pure (division a b)) points estimate =
      pure (stepBy division points estimate) :=
    letI : Div ℝ := ⟨division⟩
    stepM_pure points estimate
  have hstep := stepM_exact (m := Id) (fun a b hb => congrArg pure (h a b hb)) points estimate
  exact hby.symm.trans hstep

theorem tallVectors_by {positions : List (Position ℝ)}
    (heven : ∀ p ∈ positions, p.hasHeight = true) :
    positions.map (letI : Div ℝ := ⟨division⟩; tallVector) = positions.map tallVector := by
  refine List.map_congr_left fun p hp => ?_
  obtain ⟨height, hheight⟩ := Option.isSome_iff_exists.mp (heven p hp)
  simp only [tallVector, hheight, Option.getD_some]

theorem solveBy_eq (h : Divides division) {positions : List (Position ℝ)} (hne : positions ≠ [])
    (heven : positions.any Position.hasHeight = true → ∀ p ∈ positions, p.hasHeight = true)
    (settings : Settings ℝ) :
    solveBy division positions settings = solvePositions positions settings := by
  have hsearch : ∀ {d : Nat} (points : List (Vec ℝ d)), points ≠ [] → ∀ (tolerance : ℝ) (cap : Rat),
      (letI : Div ℝ := ⟨division⟩; search points tolerance cap) = search points tolerance cap := by
    intro d points hpoints tolerance cap
    have hstep : (letI : Div ℝ := ⟨division⟩; step points) = step points := stepBy_eq h points
    have hmean : (letI : Div ℝ := ⟨division⟩; Vec.mean points) = Vec.mean points :=
      meanBy_eq h hpoints
    unfold search
    rw [hstep, hmean]
  have htall := hsearch (positions.map tallVector) (by simpa using hne)
  have hflat := hsearch (positions.map flatVector) (by simpa using hne)
  unfold solveBy solvePositions
  by_cases hheights : positions.any Position.hasHeight = true
  · simp only [if_pos hheights, tallVectors_by (heven hheights), htall]
  · simp only [if_neg hheights, hflat]

end Division

/-! ## The median of a multi-point -/

/-- An estimate in the hull of the points, where a step divides by nothing that is zero and is held
back by a part between none and all of it. -/
structure Among (points : List (Vec ℝ d)) (estimate : Vec ℝ d) : Prop where
  in_hull : estimate.toSpace ∈ hull points
  /-- A step whose divisions fail on zero succeeds. -/
  divisors : stepM quotient? points estimate = some (step points estimate)
  share : share points estimate ∈ Set.Icc (0 : ℝ) 1

/-- Every estimate of a search from the mean of some points is among them. -/
theorem after_among {points : List (Vec ℝ d)} (hne : points ≠ []) (steps : Nat) :
    Among points (Iteration.after (step points) (Vec.mean points) steps) where
  in_hull := after_mem (convex_convexHull ℝ _) hne (fun _ => mem_hull) steps
  divisors := stepM_exact (fun _ _ hb => if_neg hb) points _
  share := holdBack_mem_unit _ (pull_nonneg _ _)

theorem search_in_hull {points : List (Vec ℝ d)} (hne : points ≠ []) (tolerance : ℝ) (cap : Rat) :
    (search points tolerance cap).value.toSpace ∈ hull points := by
  rw [search, Iteration.run_value]
  exact (after_among hne _).in_hull

def InHull (positions : List (Position ℝ)) (place : Position ℝ) : Prop :=
  if positions.any Position.hasHeight then
    (tallVector place).toSpace ∈ hull (positions.map tallVector)
  else (flatVector place).toSpace ∈ hull (positions.map flatVector)

def Returns (positions : List (Position ℝ)) (settings : Settings ℝ)
    (result : Except Failure (Estimate ℝ)) : Prop :=
  (∃ estimate place, result = .ok estimate ∧ estimate.position = some place ∧
      InHull positions place) ∨
    (settings.strict = true ∧
      result = .error (.notConverged settings.tolerance.numeral settings.cap.numeral))

theorem returns_accept {positions : List (Position ℝ)} {settings : Settings ℝ} {σ : Type}
    {outcome : Outcome σ ℝ} {position : σ → Position ℝ}
    (h : InHull positions (position outcome.value)) :
    Returns positions settings (settings.accept outcome position) := by
  unfold Settings.accept
  by_cases hfails : (!outcome.converged && settings.strict) = true
  · rw [if_pos hfails]
    exact Or.inr ⟨(Bool.and_eq_true_iff.mp hfails).2, rfl⟩
  · rw [if_neg hfails]
    exact Or.inl ⟨_, _, rfl, rfl, h⟩

theorem flatVector_ofFlatVector (v : Vec ℝ 2) : flatVector (ofFlatVector v) = v := by
  refine Vector.ext fun i hi => ?_
  match i, hi with
  | 0, _ => rfl
  | 1, _ => rfl

theorem tallVector_ofTallVector (v : Vec ℝ 3) : tallVector (ofTallVector v) = v := by
  refine Vector.ext fun i hi => ?_
  match i, hi with
  | 0, _ => rfl
  | 1, _ => rfl
  | 2, _ => rfl

theorem solvePositions_returns {positions : List (Position ℝ)} (hne : positions ≠ [])
    (settings : Settings ℝ) : Returns positions settings (solvePositions positions settings) := by
  have hempty : ¬positions.isEmpty = true := by simpa using hne
  rw [solvePositions, if_neg hempty]
  by_cases htall : positions.any Position.hasHeight = true
  · rw [if_pos htall]
    refine returns_accept ?_
    rw [InHull, if_pos htall, tallVector_ofTallVector]
    exact search_in_hull (by simpa using hne) _ _
  · rw [if_neg htall]
    refine returns_accept ?_
    rw [InHull, if_neg htall, flatVector_ofFlatVector]
    exact search_in_hull (by simpa using hne) _ _

/-- How the search for the median of a multi-point stays among its positions. -/
structure Stays (points : List (Option (Position ℝ))) (settings : Settings ℝ) : Prop where
  /-- The divisor of the mean. -/
  count : ((rows points).length : ℝ) ≠ 0
  tall : (rows points).any Position.hasHeight = true → ∀ steps,
    Among ((rows points).map tallVector) (Iteration.after (step ((rows points).map tallVector))
      (Vec.mean ((rows points).map tallVector)) steps)
  flat : (rows points).any Position.hasHeight = false → ∀ steps,
    Among ((rows points).map flatVector) (Iteration.after (step ((rows points).map flatVector))
      (Vec.mean ((rows points).map flatVector)) steps)
  returns : Returns (rows points) settings (solve (.multiPoint points) settings)
  /-- What a quotient by zero is plays no part in the result. -/
  division : ∀ division, Divides division →
    solveBy division (rows points) settings = solve (.multiPoint points) settings

theorem hasHeight_of_mem_rows {points : List (Option (Position ℝ))}
    (h : (rows points).any Position.hasHeight = true) :
    ∀ p ∈ rows points, p.hasHeight = true := by
  obtain ⟨q, hq, hheight⟩ := List.any_eq_true.mp h
  intro p hp
  rw [Geometry.hasHeight_of_mem_evenPositions hp, ← Geometry.hasHeight_of_mem_evenPositions hq]
  exact hheight

/-- The search for the median of some positions stays among them and divides by nothing that is
zero. -/
theorem solve_stays (points : List (Option (Position ℝ))) (settings : Settings ℝ)
    (hne : rows points ≠ []) (htol : 0 ≤ settings.tolerance.value)
    (hcap : 1 ≤ settings.cap.value) : Stays points settings where
  count := by simpa using hne
  tall _ := after_among (by simpa using hne)
  flat _ := after_among (by simpa using hne)
  returns := by
    rw [solve_multiPoint points (check_ok htol hcap)]
    exact solvePositions_returns hne settings
  division _ h := by
    rw [solve_multiPoint points (check_ok htol hcap)]
    exact solveBy_eq h hne hasHeight_of_mem_rows settings

/-- A strict search for the median of points in space, two of them at one place and one of them
empty. -/
theorem solve_stays_of_three :
    rows [some (⟨0, 0, some 0⟩ : Position ℝ), none, some ⟨0, 0, some 0⟩,
      some ⟨3, 4, some 12⟩] ≠ [] ∧
    (0 : ℝ) ≤ 0 ∧ (1 : Rat) ≤ 5 / 2 ∧
    Stays [some ⟨0, 0, some 0⟩, none, some ⟨0, 0, some 0⟩, some ⟨3, 4, some 12⟩]
      ⟨⟨0, .integer 0⟩, ⟨5 / 2, .real 2.5⟩, true⟩ := by
  have hne : rows [some (⟨0, 0, some 0⟩ : Position ℝ), none, some ⟨0, 0, some 0⟩,
      some ⟨3, 4, some 12⟩] ≠ [] := by
    simp [rows, Geometry.evenPositions, Geometry.hasHeight, Geometry.positions]
  exact ⟨hne, le_rfl, by norm_num,
    solve_stays _ ⟨⟨0, .integer 0⟩, ⟨5 / 2, .real 2.5⟩, true⟩ hne le_rfl (by norm_num)⟩

end Geospatial.Median
