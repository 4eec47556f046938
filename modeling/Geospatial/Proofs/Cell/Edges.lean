import Geospatial.Proofs.Cell.Sphere

/-!
# Edges of neighbouring cells

Over exact numbers an edge is divided into as many steps in one direction as in the other, and the
samples on the way back are those on the way there. So neighbours trace the edge between them
through the same directions.
-/

namespace Geospatial

variable {a b : Direction ℝ}

/-! ## The number of steps -/

theorem arcDegrees_comm (a b : Direction ℝ) : arcDegrees a b = arcDegrees b a := by
  rw [arcDegrees, arcDegrees, Direction.dot_comm]

theorem sweepDegrees_eq (a b : Direction ℝ) :
    sweepDegrees a b = if poleDistance < a.axisDistance ∧ poleDistance < b.axisDistance then
      |wrapDegrees (b.longitude - a.longitude)| else 0 := by
  have hsize : ∀ d : ℝ, (if d < 0 then -d else d) = |d| := by
    intro d
    split
    · rw [abs_of_neg ‹_›]
    · rw [abs_of_nonneg (not_lt.mp ‹_›)]
  simp only [sweepDegrees, hsize]

theorem sweepDegrees_comm (a b : Direction ℝ) : sweepDegrees a b = sweepDegrees b a := by
  rw [sweepDegrees_eq, sweepDegrees_eq, ← abs_wrapDegrees_neg, neg_sub]
  simp only [and_comm]

theorem edgeSteps_comm (a b : Direction ℝ) : edgeSteps a b = edgeSteps b a := by
  rw [edgeSteps, edgeSteps, quarterDegrees, quarterDegrees, arcDegrees_comm, sweepDegrees_comm]

theorem one_le_edgeSteps (a b : Direction ℝ) : 1 ≤ edgeSteps a b := le_max_left _ _

theorem edgeSteps_ne_zero (a b : Direction ℝ) : (edgeSteps a b : ℝ) ≠ 0 :=
  Nat.cast_ne_zero.mpr (Nat.one_le_iff_ne_zero.mp (one_le_edgeSteps a b))

/-! ## The samples -/

def edgesOf (corners : List (Direction ℝ)) : List (Direction ℝ × Direction ℝ) :=
  corners.zip (corners.drop 1 ++ corners.take 1)

theorem edgeSamples_within_ring {corners : List (Direction ℝ)} (h : (a, b) ∈ edgesOf corners) :
    edgeSamples a b <:+: ringSamples corners := by
  obtain ⟨before, after, hedges⟩ := List.append_of_mem h
  refine ⟨before.flatMap fun e => edgeSamples e.1 e.2, after.flatMap fun e => edgeSamples e.1 e.2, ?_⟩
  change _ = (edgesOf corners).flatMap fun e => edgeSamples e.1 e.2
  rw [hedges, List.flatMap_append, List.flatMap_cons, List.append_assoc]

/-- With its end an edge has one sample more than steps. -/
theorem edgeSamples_concat (a : Direction ℝ) (hb : b.dot b = 1) :
    edgeSamples a b ++ [b] = (List.range (edgeSteps a b + 1)).map fun (k : ℕ) =>
      sampleAt a b ((k : ℝ) / (edgeSteps a b : ℝ)) := by
  rw [List.range_succ, List.map_append, List.map_singleton, div_self (edgeSteps_ne_zero a b),
    sampleAt_one a hb]
  rfl

/-- An edge has the same steps and the same samples in both directions, all of them directions, and
rings on both sides of it pass through them. -/
theorem edge_mirrored (a b : Direction ℝ) (ha : a.dot a = 1) (hb : b.dot b = 1)
    (hab : a.plus b ≠ ⟨0, 0, 0⟩) :
    edgeSteps a b = edgeSteps b a ∧ 1 ≤ edgeSteps a b ∧
      (∀ p ∈ edgeSamples a b, p.dot p = 1) ∧
      (edgeSamples a b ++ [b]).reverse = edgeSamples b a ++ [a] ∧
      ∀ ring ring', (a, b) ∈ edgesOf ring → (b, a) ∈ edgesOf ring' →
        edgeSamples a b <:+: ringSamples ring ∧ edgeSamples b a <:+: ringSamples ring' := by
  refine ⟨edgeSteps_comm a b, one_le_edgeSteps a b, fun p hp => ?_, ?_,
    fun _ _ hring hring' => ⟨edgeSamples_within_ring hring, edgeSamples_within_ring hring'⟩⟩
  · obtain ⟨k, -, rfl⟩ := List.mem_map.mp hp
    exact sampleAt_dot_self ha hb (Direction.neg_one_lt_dot ha hb hab) _
  · rw [edgeSamples_concat a hb, edgeSamples_concat b ha, edgeSteps_comm b a, ← List.map_reverse]
    refine List.ext_getElem (by simp) fun k hk hk' => ?_
    have hle : k ≤ edgeSteps a b := by
      rw [List.length_map, List.length_range] at hk'
      omega
    rw [List.getElem_map, List.getElem_map, List.getElem_reverse, List.getElem_range,
      List.getElem_range, sampleAt_swap a b, List.length_range]
    have hback : edgeSteps a b + 1 - 1 - k = edgeSteps a b - k := by omega
    rw [hback, Nat.cast_sub hle, sub_div, div_self (edgeSteps_ne_zero a b)]

/-- A direction over the prime meridian; the next one has its latitude, half a turn to the west. -/
noncomputable def overPrime : Direction ℝ := ⟨0.6, 0, 0.8⟩

noncomputable def overAntimeridian : Direction ℝ := ⟨-0.6, 0, 0.8⟩

theorem edge_mirrored_over_pole :
    overPrime.dot overPrime = 1 ∧ overAntimeridian.dot overAntimeridian = 1 ∧
      overPrime.plus overAntimeridian ≠ ⟨0, 0, 0⟩ ∧
      edgeSteps overPrime overAntimeridian = edgeSteps overAntimeridian overPrime ∧
      1 ≤ edgeSteps overPrime overAntimeridian ∧
      (∀ p ∈ edgeSamples overPrime overAntimeridian, p.dot p = 1) ∧
      (edgeSamples overPrime overAntimeridian ++ [overAntimeridian]).reverse =
        edgeSamples overAntimeridian overPrime ++ [overPrime] ∧
      ∀ ring ring', (overPrime, overAntimeridian) ∈ edgesOf ring →
        (overAntimeridian, overPrime) ∈ edgesOf ring' →
        edgeSamples overPrime overAntimeridian <:+: ringSamples ring ∧
          edgeSamples overAntimeridian overPrime <:+: ringSamples ring' := by
  have hprime : overPrime.dot overPrime = 1 := by
    norm_num [overPrime, Direction.dot]
  have hanti : overAntimeridian.dot overAntimeridian = 1 := by
    norm_num [overAntimeridian, Direction.dot]
  have hsum : overPrime.plus overAntimeridian ≠ ⟨0, 0, 0⟩ := by
    norm_num [overPrime, overAntimeridian, Direction.plus]
  exact ⟨hprime, hanti, hsum, edge_mirrored _ _ hprime hanti hsum⟩

end Geospatial
