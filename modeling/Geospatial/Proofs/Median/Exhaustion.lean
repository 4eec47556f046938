import Geospatial.Proofs.Median.Answers
import Geospatial.Proofs.Stopping

/-!
# What a failure to converge tells

The message of a failure to converge tells the number of steps that were allowed. Where the
tolerance and the last displacement are numbers, so many steps were taken. A displacement that is not
a number ends a search at once: two points so far apart that the squares of their distances overflow
make one, and the message then tells of steps that were not taken.
-/

namespace Geospatial.Median

/-- An iteration of doubles that has not come to rest has used up its steps, and so has a search
that fails to converge, where the tolerance and the last displacement are numbers. -/
theorem failure_exhausts {σ : Type} (step : σ → σ × Float) (start : σ) (tolerance : Float)
    (cap : Rat) (g : Geometry Float) (settings : Settings Float) :
    ((Iteration.run step start (1 / 0) tolerance cap).converged = false →
      tolerance.isNaN = false →
      (Iteration.run step start (1 / 0) tolerance cap).displacement.isNaN = false →
        cap ≤ (Iteration.run step start (1 / 0) tolerance cap).steps) ∧
    ∀ within steps : Numeral, solve g settings = .error (.notConverged within steps) →
      ∃ points, g = .multiPoint points ∧ settings.check = .ok () ∧
        settings.strict = true ∧ within = settings.tolerance.numeral ∧
        steps = settings.cap.numeral ∧
        (settings.tolerance.value.isNaN = false →
          (searchPositions (rows points) settings.tolerance.value
            settings.cap.value).displacement.isNaN = false →
          settings.cap.value ≤ (searchPositions (rows points) settings.tolerance.value
            settings.cap.value).steps) := by
  refine ⟨fun h htol hmoved => Iteration.cap_le_steps htol hmoved h, fun within steps h => ?_⟩
  obtain ⟨points, rfl, hcheck, hsolve⟩ := solve_notConverged_iff.mp h
  obtain ⟨-, hstrict, hconverged, hfailure⟩ := solvePositions_eq_error_iff.mp hsolve
  obtain ⟨rfl, rfl⟩ := Failure.notConverged.inj hfailure
  refine ⟨points, rfl, hcheck, hstrict, rfl, rfl, fun htol hmoved => ?_⟩
  obtain ⟨σ, step, start, position, hrun⟩ := exists_run (rows points)
  rw [hrun] at hconverged hmoved ⊢
  exact Iteration.cap_le_steps htol hmoved hconverged

def strictly (tolerance : Numeral) (steps : Int) : Settings Float :=
  ⟨tolerance.given, .whole steps, true⟩

theorem solve_strictly {points : List (Option (Position Float))} {tolerance : Numeral}
    {steps : Int} (hne : rows points ≠ []) (hcheck : (strictly tolerance steps).check = .ok ())
    (h : (searchPositions (rows points) tolerance.given.value
      (Given.whole steps).value).converged = false) :
    solve (.multiPoint points) (strictly tolerance steps) =
      .error (.notConverged tolerance (.integer steps)) :=
  solve_notConverged_iff.mpr ⟨points, rfl, hcheck,
    solvePositions_eq_error_iff.mpr ⟨hne, rfl, h, rfl⟩⟩

def corners : List (Option (Position Float)) :=
  [some ⟨0, 0, none⟩, some ⟨1, 0, none⟩, some ⟨0, 1, none⟩]

/-- Two halvings lead from one to no tenth of zero, and three steps to no median of a triangle. -/
theorem failure_exhausts_of_corners :
    ((Iteration.run Iteration.halve 1 (1 / 0) 0.1 2).converged = false ∧
      (0.1 : Float).isNaN = false ∧
      (Iteration.run Iteration.halve 1 (1 / 0) 0.1 2).displacement.isNaN = false ∧
      (2 : Rat) ≤ (Iteration.run Iteration.halve 1 (1 / 0) 0.1 2).steps) ∧
    solve (.multiPoint corners) (strictly (.real 2.5e-7) 3) =
      .error (.notConverged (.real 2.5e-7) (.integer 3)) ∧
    (2.5e-7 : Float).isNaN = false ∧
    (searchPositions (rows corners) 2.5e-7 3).displacement.isNaN = false ∧
    (3 : Rat) ≤ (searchPositions (rows corners) 2.5e-7 3).steps := by
  obtain ⟨hiteration, hsearch⟩ := failure_exhausts Iteration.halve 1 0.1 2 (.multiPoint corners)
    (strictly (.real 2.5e-7) 3)
  have hhalved : (Iteration.run Iteration.halve 1 (1 / 0) 0.1 2).converged = false := by
    decide +kernel
  have htenth : (0.1 : Float).isNaN = false := by decide +kernel
  have hmoved : (Iteration.run Iteration.halve 1 (1 / 0) 0.1 2).displacement.isNaN = false := by
    decide +kernel
  have hfails : solve (.multiPoint corners) (strictly (.real 2.5e-7) 3) =
      .error (.notConverged (.real 2.5e-7) (.integer 3)) :=
    solve_strictly (List.cons_ne_nil _ _) rfl (by decide +kernel)
  have htol : (2.5e-7 : Float).isNaN = false := by decide +kernel
  have hdisplaced : (searchPositions (rows corners) 2.5e-7 3).displacement.isNaN = false := by
    decide +kernel
  obtain ⟨points, hpoints, -, -, -, -, hsteps⟩ := hsearch _ _ hfails
  obtain rfl := Geometry.multiPoint.inj hpoints
  exact ⟨⟨hhalved, htenth, hmoved, hiteration hhalved htenth hmoved⟩, hfails, htol,
    hdisplaced, hsteps htol hdisplaced⟩

/-- Two points so far apart that the square of their distance overflows. -/
def remote : List (Option (Position Float)) := [some ⟨1e200, 0, none⟩, some ⟨-1e200, 0, none⟩]

/-- The first step from between the points has no displacement. The search ends there, and tells
that it has taken a thousand. -/
theorem failure_before_exhaustion :
    (∀ p ∈ rows remote, p.x.isFinite ∧ p.y.isFinite) ∧
    (strictly (.real 1e-6) 1000).check = .ok () ∧
    solve (.multiPoint remote) (strictly (.real 1e-6) 1000) =
      .error (.notConverged (.real 1e-6) (.integer 1000)) ∧
    (Failure.notConverged (.real 1e-6) (.integer 1000)).message? =
      some "Median failed to converge within 1.0E-06 after 1000 iterations." ∧
    (searchPositions (rows remote) 1e-6 1000).steps = 1 ∧
    (searchPositions (rows remote) 1e-6 1000).displacement.isNaN = true :=
  ⟨by decide +kernel, rfl, solve_strictly (List.cons_ne_nil _ _) rfl (by decide +kernel),
    by decide +kernel, by decide +kernel, by decide +kernel⟩

end Geospatial.Median
