import Geospatial.Proofs.Median.Answers
import Geospatial.Proofs.Median.Descent

/-!
# The median search descends

No step of a search raises the sum of the distances to the points, and one that moves lowers it.
What a search returns is therefore no worse than the mean that it starts from.
-/

namespace Geospatial.Median

/-- Every exact number is below the next whole step. -/
noncomputable instance unboundedReal : Unbounded ℝ := ⟨fun a => a + 1⟩

variable {d : Nat}

structure Descends (points : List (Vec ℝ d)) (estimate : Vec ℝ d) : Prop where
  /-- An estimate that sits on all points rests. -/
  rests : (∀ p ∈ points, reach estimate p ≤ Coincidence.epsilon) →
    step points estimate = (estimate, 0)
  lowers : (∃ p ∈ points, Coincidence.epsilon < reach estimate p) →
    spread points (step points estimate).1 ≤
      spread points estimate - totalWeight points estimate / 2 * (step points estimate).2 ^ 2

theorem away_eq_nil_iff {points : List (Vec ℝ d)} {estimate : Vec ℝ d} :
    away points estimate = [] ↔ ∀ p ∈ points, reach estimate p ≤ Coincidence.epsilon := by
  simp [away]

theorem step_descends (points : List (Vec ℝ d)) (estimate : Vec ℝ d) :
    Descends points estimate := by
  refine ⟨fun h => step_of_none_away (away_eq_nil_iff.mpr h), fun ⟨p, hp, hfar⟩ => ?_⟩
  exact step_spread_le (List.ne_nil_of_mem (mem_away_iff.mpr ⟨hp, hfar⟩))

theorem spread_step_le (points : List (Vec ℝ d)) (estimate : Vec ℝ d) :
    spread points (step points estimate).1 ≤ spread points estimate := by
  by_cases h : away points estimate = []
  · rw [step_of_none_away h]
  · have hle := step_spread_le h
    have hloss : 0 ≤ totalWeight points estimate / 2 * (step points estimate).2 ^ 2 :=
      mul_nonneg (half_pos (totalWeight_pos h)).le (sq_nonneg _)
    linarith

theorem spread_step_lt {points : List (Vec ℝ d)} {estimate : Vec ℝ d}
    (hmove : (step points estimate).1 ≠ estimate) :
    spread points (step points estimate).1 < spread points estimate := by
  by_cases h : away points estimate = []
  · rw [step_of_none_away h] at hmove
    exact absurd rfl hmove
  · have hle := step_spread_le h
    have hfar : (step points estimate).2 ≠ 0 := by
      rw [step_displacement, norm_ne_zero_iff, sub_ne_zero]
      exact Vec.toSpace_injective.ne hmove
    have hloss : 0 < totalWeight points estimate / 2 * (step points estimate).2 ^ 2 :=
      mul_pos (half_pos (totalWeight_pos h)) (sq_pos_iff.mpr hfar)
    linarith

/-- What the steps of a search from the mean do to the sum of the distances, and where it ends. -/
structure SearchDescends (points : List (Vec ℝ d)) (steps : Nat) (found : Vec ℝ d) : Prop where
  reached : found = Iteration.after (step points) (Vec.mean points) steps
  never_rises : ∀ k, spread points (Iteration.after (step points) (Vec.mean points) (k + 1)) ≤
    spread points (Iteration.after (step points) (Vec.mean points) k)
  falls : ∀ k, Iteration.after (step points) (Vec.mean points) (k + 1) ≠
      Iteration.after (step points) (Vec.mean points) k →
    spread points (Iteration.after (step points) (Vec.mean points) (k + 1)) <
      spread points (Iteration.after (step points) (Vec.mean points) k)
  no_worse : spread points found ≤ spread points (Vec.mean points)

theorem search_descends (points : List (Vec ℝ d)) (tolerance : ℝ) (cap : Rat) :
    SearchDescends points (search points tolerance cap).steps
      (search points tolerance cap).value := by
  have hvalue := Iteration.run_value (step points) (Vec.mean points)
    (Unbounded.above tolerance) tolerance cap
  refine ⟨hvalue, fun k => ?_, fun k => ?_, ?_⟩
  · rw [Iteration.after_succ]
    exact spread_step_le points _
  · rw [Iteration.after_succ]
    exact spread_step_lt
  · rw [search, hvalue]
    exact Iteration.measure_after_le (spread_step_le points) _ _

/-! ## The median of a multi-point -/

/-- An estimate is found by a search that descends, in space as soon as one position has a height
and else in the plane. -/
structure EstimateDescends (positions : List (Position ℝ)) (estimate : Estimate ℝ) : Prop where
  tall : positions.any Position.hasHeight = true → ∃ found,
    estimate.position = some (ofTallVector found) ∧
      SearchDescends (positions.map tallVector) estimate.steps found
  flat : positions.any Position.hasHeight = false → ∃ found,
    estimate.position = some (ofFlatVector found) ∧
      SearchDescends (positions.map flatVector) estimate.steps found

theorem solve_descends {points : List (Option (Position ℝ))} (hne : rows points ≠ [])
    {settings : Settings ℝ} {estimate : Estimate ℝ}
    (h : solve (.multiPoint points) settings = .ok estimate) :
    EstimateDescends (rows points) estimate := by
  have hpositions := (solve_multiPoint_ok h).2
  have hempty : ¬(rows points).isEmpty = true := by simpa using hne
  rw [solvePositions, if_neg hempty] at hpositions
  constructor
  · intro htall
    rw [if_pos htall] at hpositions
    obtain ⟨hposition, hsteps⟩ := accept_ok hpositions
    rw [hsteps]
    exact ⟨_, hposition, search_descends _ _ _⟩
  · intro hflat
    rw [if_neg (by simp [hflat])] at hpositions
    obtain ⟨hposition, hsteps⟩ := accept_ok hpositions
    rw [hsteps]
    exact ⟨_, hposition, search_descends _ _ _⟩

/-- The median search descends: every step, every search, and every median of a multi-point. -/
theorem median_descends :
    (∀ {d : Nat} (points : List (Vec ℝ d)) (estimate : Vec ℝ d), Descends points estimate) ∧
    (∀ {d : Nat} (points : List (Vec ℝ d)) (tolerance : ℝ) (cap : Rat),
      SearchDescends points (search points tolerance cap).steps
        (search points tolerance cap).value) ∧
    ∀ (points : List (Option (Position ℝ))) (settings : Settings ℝ) (estimate : Estimate ℝ),
      rows points ≠ [] → solve (.multiPoint points) settings = .ok estimate →
        EstimateDescends (rows points) estimate :=
  ⟨step_descends, search_descends, fun _ _ _ hne h => solve_descends hne h⟩

/-- Two points on which the estimate sits, and one that pulls; a multi-point has an empty point
beside them. -/
theorem median_descends_of_three :
    (∃ p ∈ [(#v[0, 0] : Vec ℝ 2), #v[0, 0], #v[3, 4]],
      Coincidence.epsilon < reach #v[0, 0] p) ∧
    Descends [(#v[0, 0] : Vec ℝ 2), #v[0, 0], #v[3, 4]] #v[0, 0] ∧
    ∃ estimate : Estimate ℝ,
      solve (.multiPoint [some ⟨0, 0, none⟩, none, some ⟨0, 0, none⟩, some ⟨3, 4, none⟩])
        ⟨⟨1, .integer 1⟩, .whole 10, false⟩ = .ok estimate ∧
      EstimateDescends [⟨0, 0, none⟩, ⟨0, 0, none⟩, ⟨3, 4, none⟩] estimate := by
  refine ⟨⟨#v[3, 4], by simp, ?_⟩, median_descends.1 _ _, ?_⟩
  · have hreach : reach #v[0, 0] (#v[3, 4] : Vec ℝ 2) = 5 := by
      rw [reach_eq, EuclideanSpace.norm_eq, Fin.sum_univ_two]
      norm_num
    have heps : (Coincidence.epsilon : ℝ) = 1 / ((2 ^ 52 : Nat) : ℝ) := rfl
    rw [hreach, heps]
    norm_num
  · have hcheck : (⟨⟨1, .integer 1⟩, .whole 10, false⟩ : Settings ℝ).check = .ok () := by
      norm_num [Settings.check, Given.whole]
    obtain ⟨estimate, hsolve⟩ := solve_lenient
      [some ⟨0, 0, none⟩, none, some ⟨0, 0, none⟩, some ⟨3, 4, none⟩] hcheck rfl
    exact ⟨estimate, hsolve, median_descends.2.2 _ _ _ (by exact List.cons_ne_nil _ _) hsolve⟩

end Geospatial.Median
