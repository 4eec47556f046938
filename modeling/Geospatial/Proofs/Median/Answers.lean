import Geospatial.Median.Solve
import Geospatial.Proofs.Iteration

/-!
# What the search for a median answers

Settings are checked before the geometry. A search that they allow answers with where its iteration
ended, in space as soon as one position has a height and else in the plane. Only a strict search that
has not come to rest fails instead, and its failure holds the settings as they were given.
-/

namespace Geospatial.Median

section Accept

variable {α σ : Type} {settings : Settings α} {outcome : Outcome σ α} {position : σ → Position α}

theorem accept_ok {estimate : Estimate α} (h : settings.accept outcome position = .ok estimate) :
    estimate.position = some (position outcome.value) ∧ estimate.steps = outcome.steps := by
  unfold Settings.accept at h
  split at h
  · cases h
  · cases h
    exact ⟨rfl, rfl⟩

theorem accept_eq_error_iff {failure : Failure} :
    settings.accept outcome position = .error failure ↔
      settings.strict = true ∧ outcome.converged = false ∧
        failure = .notConverged settings.tolerance.numeral settings.cap.numeral := by
  unfold Settings.accept
  cases outcome.converged <;> cases settings.strict <;> simp [eq_comm]

theorem check_ne_notConverged [OfNat α 0] [LT α] [DecidableLT α] (settings : Settings α)
    (tolerance cap : Numeral) : settings.check ≠ .error (.notConverged tolerance cap) := by
  unfold Settings.check
  split_ifs <;> simp

end Accept

section Search

variable {α : Type} [Add α] [Sub α] [Mul α] [Div α] [OfNat α 0] [OfNat α 1] [NatCast α]
  [LT α] [LE α] [DecidableLT α] [DecidableLE α] [BEq α] [Root α] [Coincidence α] [Unbounded α]

def searchPositions (positions : List (Position α)) (tolerance : α) (cap : Rat) :
    Outcome (Position α) α :=
  if positions.any Position.hasHeight then
    Iteration.mapValue ofTallVector (search (positions.map tallVector) tolerance cap)
  else Iteration.mapValue ofFlatVector (search (positions.map flatVector) tolerance cap)

/-- The search for the median of positions iterates one step from one start. -/
theorem exists_run (positions : List (Position α)) :
    ∃ (σ : Type) (step : σ → σ × α) (start : σ) (position : σ → Position α),
      ∀ tolerance cap, searchPositions positions tolerance cap = Iteration.mapValue position
        (Iteration.run step start (Unbounded.above tolerance) tolerance cap) := by
  by_cases htall : positions.any Position.hasHeight = true
  · exact ⟨_, step (positions.map tallVector), Vec.mean (positions.map tallVector), ofTallVector,
      fun _ _ => if_pos htall⟩
  · exact ⟨_, step (positions.map flatVector), Vec.mean (positions.map flatVector), ofFlatVector,
      fun _ _ => if_neg htall⟩

variable {points : List (Option (Position α))} {positions : List (Position α)}
  {settings : Settings α}

theorem solvePositions_eq (settings : Settings α) (hne : positions ≠ []) :
    solvePositions positions settings = settings.accept
      (searchPositions positions settings.tolerance.value settings.cap.value) id := by
  have hempty : ¬positions.isEmpty = true := by simpa using hne
  rw [solvePositions, if_neg hempty, searchPositions]
  split <;> rfl

theorem solve_multiPoint (points : List (Option (Position α)))
    (hcheck : settings.check = .ok ()) :
    solve (.multiPoint points) settings = solvePositions (rows points) settings := by
  unfold solve
  rw [hcheck]
  rfl

theorem solve_multiPoint_ok {estimate : Estimate α}
    (h : solve (.multiPoint points) settings = .ok estimate) :
    settings.check = .ok () ∧ solvePositions (rows points) settings = .ok estimate := by
  unfold solve at h
  cases hcheck : settings.check with
  | error failure =>
      rw [hcheck] at h
      cases h
  | ok u =>
      rw [hcheck] at h
      exact ⟨rfl, h⟩

theorem solvePositions_eq_error_iff {failure : Failure} :
    solvePositions positions settings = .error failure ↔
      positions ≠ [] ∧ settings.strict = true ∧
        (searchPositions positions settings.tolerance.value settings.cap.value).converged =
          false ∧
        failure = .notConverged settings.tolerance.numeral settings.cap.numeral := by
  by_cases hne : positions = []
  · subst hne
    simp [solvePositions]
  · rw [solvePositions_eq settings hne, accept_eq_error_iff]
    exact ⟨fun h => ⟨hne, h⟩, fun h => h.2⟩

/-- A missing height counts alike in the rows of a multi-point and in its positions. -/
theorem solvePositions_rows (points : List (Option (Position α))) (settings : Settings α) :
    solvePositions (rows points) settings =
      solvePositions (Geometry.multiPoint points).positions settings := by
  unfold rows Geometry.evenPositions
  split
  · rename_i htall
    unfold Geometry.hasHeight at htall
    obtain ⟨p, hp, -⟩ := List.any_eq_true.mp htall
    have hpositions : ¬(Geometry.multiPoint points).positions.isEmpty = true := by
      simpa using List.ne_nil_of_mem hp
    have hrows : ¬((Geometry.multiPoint points).positions.map fun p =>
        { p with z := some (p.z.getD (0 / 0)) }).isEmpty = true := by
      simpa using List.ne_nil_of_mem hp
    rw [solvePositions, solvePositions, if_neg hpositions, if_neg hrows,
      if_pos (List.any_eq_true.mpr ⟨_, List.mem_map_of_mem hp, rfl⟩), if_pos htall, List.map_map]
    rfl
  · rfl

/-- Without strictness a search that is allowed returns a median. -/
theorem solve_lenient (points : List (Option (Position α))) (hcheck : settings.check = .ok ())
    (hlenient : settings.strict = false) :
    ∃ estimate, solve (.multiPoint points) settings = .ok estimate := by
  rw [solve_multiPoint points hcheck]
  cases hsolve : solvePositions (rows points) settings with
  | ok estimate => exact ⟨estimate, rfl⟩
  | error failure =>
      obtain ⟨-, hstrict, -⟩ := solvePositions_eq_error_iff.mp hsolve
      rw [hlenient] at hstrict
      cases hstrict

/-- A search fails to converge exactly if it is strict and has not come to rest. -/
theorem solve_notConverged_iff {g : Geometry α} {tolerance cap : Numeral} :
    solve g settings = .error (.notConverged tolerance cap) ↔
      ∃ points, g = .multiPoint points ∧ settings.check = .ok () ∧
        solvePositions (rows points) settings = .error (.notConverged tolerance cap) := by
  constructor
  · intro h
    unfold solve at h
    cases hcheck : settings.check with
    | error failure =>
        rw [hcheck] at h
        cases h
        exact absurd hcheck (check_ne_notConverged settings tolerance cap)
    | ok u =>
        rw [hcheck] at h
        cases g with
        | multiPoint points => exact ⟨points, rfl, rfl, h⟩
        | _ => cases h
  · rintro ⟨points, rfl, hcheck, h⟩
    rw [solve_multiPoint points hcheck, h]

end Search

end Geospatial.Median
