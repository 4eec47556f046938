import Geospatial.Proofs.Doubles
import Geospatial.Proofs.Iteration

/-!
# When an iteration of doubles stops

Whether an iteration goes on and whether it has come to rest are two comparisons of one displacement
with the tolerance. Among numbers, infinite ones included, just one of the two holds. A displacement
or a tolerance that is not a number fails both: the iteration stops although it has not come to rest
and its steps are not used up.
-/

namespace Geospatial.Iteration

variable {σ : Type}

/-- How an iteration of doubles stops; before its first step the displacement is infinite. -/
structure Stops (step : σ → σ × Float) (start : σ) (tolerance : Float) (cap : Rat)
    (outcome : Outcome σ Float) : Prop where
  /-- It stops as soon as the cap is reached or the last displacement does not exceed the
  tolerance. -/
  steps : IsLeast {steps : ℕ | cap ≤ steps ∨ ¬tolerance < lastMove step start (1 / 0) steps}
    outcome.steps
  value : outcome.value = after step start outcome.steps
  displacement : outcome.displacement = lastMove step start (1 / 0) outcome.steps
  converged : outcome.converged = true ↔ outcome.displacement ≤ tolerance

/-- An iteration stops as soon as it may. A higher cap makes no difference once it has come to rest,
and a wider tolerance takes no more steps. -/
theorem run_stops (step : σ → σ × Float) (start : σ) (tolerance : Float) (cap : Rat) :
    Stops step start tolerance cap (run step start (1 / 0) tolerance cap) ∧
    (∀ further, cap ≤ further → (run step start (1 / 0) tolerance cap).converged = true →
      run step start (1 / 0) tolerance further = run step start (1 / 0) tolerance cap) ∧
    ∀ wider, tolerance ≤ wider → (run step start (1 / 0) wider cap).steps ≤
      (run step start (1 / 0) tolerance cap).steps := by
  refine ⟨?_, fun further hcap hconverged => ?_, fun wider hwider => ?_⟩
  · exact ⟨(run_isLeast _ _ _ _ _).1, run_value _ _ _ _ _, run_displacement _ _ _ _ _,
      run_converged_iff _ _ _ _ _⟩
  · exact run_of_converged hcap (fun _ => Doubles.not_lt_of_le) hconverged
  · exact run_steps_le_of_wider fun _ => Doubles.lt_of_le_of_lt hwider

def halve (x : Float) : Float × Float := (x / 2, x / 2)

/-- Four halvings lead from one to within a tenth of zero, under any higher cap; an infinite
tolerance takes no step. -/
theorem run_stops_of_halving :
    Stops halve 1 0.1 10 (run halve 1 (1 / 0) 0.1 10) ∧ (run halve 1 (1 / 0) 0.1 10).steps = 4 ∧
    (10 : Rat) ≤ 41 / 2 ∧ (run halve 1 (1 / 0) 0.1 10).converged = true ∧
    run halve 1 (1 / 0) 0.1 (41 / 2) = run halve 1 (1 / 0) 0.1 10 ∧ (0.1 : Float) ≤ 1 / 0 ∧
    (run halve 1 (1 / 0) (1 / 0) 10).steps ≤ (run halve 1 (1 / 0) 0.1 10).steps := by
  obtain ⟨hstops, hcaps, htolerances⟩ := run_stops halve 1 0.1 10
  have hconverged : (run halve 1 (1 / 0) 0.1 10).converged = true := by decide +kernel
  have hwider : (0.1 : Float) ≤ 1 / 0 := by decide +kernel
  have hcap : (10 : Rat) ≤ 41 / 2 := by norm_num
  exact ⟨hstops, by decide +kernel, hcap, hconverged, hcaps _ hcap hconverged, hwider,
    htolerances _ hwider⟩

/-! ## Steps used up -/

/-- An iteration that has not come to rest has used up its steps, where the tolerance and the last
displacement are numbers. -/
theorem cap_le_steps {step : σ → σ × Float} {start : σ} {before tolerance : Float} {cap : Rat}
    (htol : tolerance.isNaN = false)
    (hmoved : (run step start before tolerance cap).displacement.isNaN = false)
    (h : (run step start before tolerance cap).converged = false) :
    cap ≤ (run step start before tolerance cap).steps := by
  have hnot : ¬(run step start before tolerance cap).displacement ≤ tolerance := fun hle => by
    rw [(run_converged_iff step start before tolerance cap).mpr hle] at h
    cases h
  have hgoes := (Doubles.le_or_lt hmoved htol).resolve_left hnot
  rw [run_displacement] at hgoes
  exact (run_isLeast step start before tolerance cap).1.1.resolve_right (not_not.mpr hgoes)

end Geospatial.Iteration
