import Geospatial.Proofs.Cell.Sides
import Mathlib.Analysis.Real.Pi.Bounds

/-!
# Spacing of samples

The number of steps of an edge is counted as if its samples divided the angle evenly, but they
divide the chord. So in the middle of long edges neighbouring samples are farther apart than the
quarter degree that is counted with. They are never more than half a degree apart, in arc and in
longitude, and within a quarter degree where the step in the middle is.
-/

namespace Geospatial

variable {a b p q : Direction ℝ}

/-! ## The number of steps -/

theorem quarterDegrees_le_steps (a b : Direction ℝ) :
    quarterDegrees a b ≤ (edgeSteps a b : ℝ) := by
  have hceil : quarterDegrees a b ≤ ((⌈quarterDegrees a b⌉.toNat : ℕ) : ℝ) :=
    (Int.le_ceil _).trans (by exact_mod_cast Int.self_le_toNat _)
  exact hceil.trans (Nat.cast_le.mpr (le_max_right _ _))

theorem max_le_steps (a b : Direction ℝ) :
    max (arcDegrees a b) (sweepDegrees a b) ≤ 0.25 * edgeSteps a b := by
  have hmax : (if arcDegrees a b < sweepDegrees a b then sweepDegrees a b else arcDegrees a b) =
      max (arcDegrees a b) (sweepDegrees a b) := by
    split
    · rw [max_eq_right (le_of_lt ‹_›)]
    · rw [max_eq_left (not_lt.mp ‹_›)]
  have hle := quarterDegrees_le_steps a b
  rw [quarterDegrees, hmax, div_le_iff₀ (by norm_num)] at hle
  linarith

/-! ## Consecutive samples -/

theorem pair_within_iff {α : Type} {p q : α} {items : List α} :
    [p, q] <:+: items ↔ ∃ k, items[k]? = some p ∧ items[k + 1]? = some q := by
  constructor
  · rintro ⟨before, after, rfl⟩
    refine ⟨before.length, ?_, ?_⟩ <;> simp [List.append_assoc]
  · rintro ⟨k, hp, hq⟩
    obtain ⟨hk, rfl⟩ := List.getElem?_eq_some_iff.mp hp
    obtain ⟨hk', rfl⟩ := List.getElem?_eq_some_iff.mp hq
    refine ⟨items.take k, items.drop (k + 2), ?_⟩
    rw [List.append_assoc, List.cons_append, List.cons_append, List.nil_append,
      List.getElem_cons_drop, List.getElem_cons_drop, List.take_append_drop]

/-- Consecutive samples of an edge are a step apart. -/
theorem pair_of_edge_iff (hb : b.dot b = 1) :
    [p, q] <:+: edgeSamples a b ++ [b] ↔ ∃ k < edgeSteps a b,
      p = sampleAt a b (k / edgeSteps a b) ∧ q = sampleAt a b ((k + 1 : ℕ) / edgeSteps a b) := by
  rw [edgeSamples_concat a hb, pair_within_iff]
  refine exists_congr fun k => ?_
  rw [List.getElem?_map, List.getElem?_map]
  by_cases hk : k < edgeSteps a b
  · rw [List.getElem?_range (by omega), List.getElem?_range (by omega)]
    simp [hk, eq_comm]
  · simp [hk]

/-! ## Steps in degrees -/

/-- Whether a number of steps is enough for an angle in degrees over a chord whose ends have a given
ratio of distances: the step in the middle is the widest. -/
inductive StepsSuffice (ratio degrees : ℝ) (steps : ℕ) : Prop
  | single (h : steps = 1) : StepsSuffice ratio degrees steps
  | middle (h : ratio * Real.tan (toRadians (degrees / 2)) ≤
      steps * Real.tan (toRadians (0.25 / 2))) : StepsSuffice ratio degrees steps

theorem toRadians_real (angle : ℝ) : toRadians angle = angle * (Real.pi / 180) := by
  have h180 : (180.0 : ℝ) = 180 := by norm_num
  rw [toRadians, h180]
  rfl

theorem toRadians_half (angle : ℝ) : toRadians (toDegrees angle / 2) = angle / 2 := by
  rw [toRadians_real, toDegrees_real]
  field_simp

/-- A step of a mild chord that is counted in quarter degrees. -/
theorem degrees_step {steps k : ℕ} (ha : 0 < a.norm) (hb : 0 < b.norm)
    (hab : -(a.norm * b.norm) < a.dot b) (hmild : Mild a b) (hk : k < steps)
    (hsteps : toDegrees (a.angle b) ≤ 0.25 * steps) :
    toDegrees ((chordAt a b (k / steps)).angle (chordAt a b ((k + 1 : ℕ) / steps))) ≤ 0.5 ∧
      (StepsSuffice (stretch a b) (toDegrees (a.angle b)) steps →
        toDegrees ((chordAt a b (k / steps)).angle (chordAt a b ((k + 1 : ℕ) / steps))) ≤ 0.25) := by
  have hpi := Real.pi_pos
  have hshare : a.angle b ≤ steps * (0.25 * (Real.pi / 180)) := by
    rw [toDegrees_le_iff] at hsteps
    linarith
  rw [toDegrees_le_iff, toDegrees_le_iff]
  refine ⟨?_, fun hsuffice => ?_⟩
  · refine (angle_step_le_twice ha hb hab hmild hk hshare).trans (le_of_eq ?_)
    norm_num
    ring
  · refine angle_step_le ha hb hab hk hshare ⟨by positivity, by norm_num; linarith⟩ ?_
    have hquarter : toRadians (0.25 / 2 : ℝ) = 0.25 * (Real.pi / 180) / 2 := by
      rw [toRadians_real]
      ring
    cases hsuffice with
    | single hone => exact Or.inl hone
    | middle htan => exact Or.inr (by rwa [toRadians_half, hquarter] at htan)

/-! ## Samples of an edge -/

/-- How far two consecutive samples of an edge are apart. -/
structure Spaced (a b p q : Direction ℝ) : Prop where
  arc_le : arcDegrees p q ≤ 0.5
  arc_le_quarter : StepsSuffice 1 (arcDegrees a b) (edgeSteps a b) → arcDegrees p q ≤ 0.25
  longitude_le : poleDistance < a.axisDistance → poleDistance < b.axisDistance →
    |wrapDegrees (q.longitude - p.longitude)| ≤ 0.5
  longitude_le_quarter : poleDistance < a.axisDistance → poleDistance < b.axisDistance →
    StepsSuffice (max a.axisDistance b.axisDistance / min a.axisDistance b.axisDistance)
      (sweepDegrees a b) (edgeSteps a b) → |wrapDegrees (q.longitude - p.longitude)| ≤ 0.25

theorem axisDistance_pos (h : poleDistance < p.axisDistance) : 0 < p.horizontal.norm := by
  have hpole : (0 : ℝ) < poleDistance := by norm_num [poleDistance]
  rw [← Direction.axisDistance_eq]
  exact hpole.trans h

theorem sweepDegrees_of_apart (ha : poleDistance < a.axisDistance)
    (hb : poleDistance < b.axisDistance) :
    sweepDegrees a b = toDegrees (a.horizontal.angle b.horizontal) := by
  rw [sweepDegrees_eq, if_pos ⟨ha, hb⟩, Direction.abs_wrapDegrees_longitude]
  · rw [Direction.axisDistance_eq]
    exact axisDistance_pos ha
  · rw [Direction.axisDistance_eq]
    exact axisDistance_pos hb

theorem norm_pos_of_unit (ha : a.dot a = 1) : 0 < a.norm := by
  rw [Direction.norm_of_dot_self ha]
  exact one_pos

theorem neg_norms_lt_dot (ha : a.dot a = 1) (hb : b.dot b = 1) (hab : -1 < a.dot b) :
    -(a.norm * b.norm) < a.dot b := by
  rwa [Direction.norm_of_dot_self ha, Direction.norm_of_dot_self hb, mul_one]

theorem stretch_of_unit (ha : a.dot a = 1) (hb : b.dot b = 1) : stretch a b = 1 := by
  rw [stretch, Direction.norm_of_dot_self ha, Direction.norm_of_dot_self hb, max_self, min_self,
    div_one]

/-- Directions at most a quarter turn apart. -/
theorem mild_of_unit (ha : a.dot a = 1) (hb : b.dot b = 1) (hab : 0 ≤ a.dot b) : Mild a b := by
  have hcos : 0 ≤ Real.cos (a.angle b) := by
    rw [← Direction.cos_angle (norm_pos_of_unit ha) (norm_pos_of_unit hb)] at hab
    exact nonneg_of_mul_nonneg_left hab (mul_pos (norm_pos_of_unit ha) (norm_pos_of_unit hb))
  refine mild_of_cos (k := 0) (norm_pos_of_unit ha) (norm_pos_of_unit hb) hcos ?_ ?_
  · rw [ha, hb]
    norm_num
  · rw [ha, hb]
    norm_num

/-- The samples of an edge whose ends are at most a quarter turn apart, and which is a mild chord in
the plane of the equator unless it ends at a pole. -/
theorem spaced_of_mild (ha : a.dot a = 1) (hb : b.dot b = 1) (hab : 0 ≤ a.dot b)
    (hmild : poleDistance < a.axisDistance → poleDistance < b.axisDistance →
      0 ≤ a.horizontal.dot b.horizontal ∧ Mild a.horizontal b.horizontal)
    (h : [p, q] <:+: edgeSamples a b ++ [b]) : Spaced a b p q := by
  obtain ⟨k, hk, rfl, rfl⟩ := (pair_of_edge_iff hb).mp h
  have hopposite : -1 < a.dot b := by linarith
  obtain ⟨harc, hsweep⟩ := max_le_iff.mp (max_le_steps a b)
  have harcs := degrees_step (norm_pos_of_unit ha) (norm_pos_of_unit hb)
    (neg_norms_lt_dot ha hb hopposite) (mild_of_unit ha hb hab) hk (by rwa [← arcDegrees_eq ha hb])
  rw [stretch_of_unit ha hb, ← arcDegrees_eq ha hb, ← arcDegrees_samples ha hb hopposite] at harcs
  have hlongitudes : ∀ hpa : poleDistance < a.axisDistance, ∀ hpb : poleDistance < b.axisDistance,
      |wrapDegrees ((sampleAt a b ((k + 1 : ℕ) / edgeSteps a b)).longitude -
          (sampleAt a b (k / edgeSteps a b)).longitude)| ≤ 0.5 ∧
        (StepsSuffice (stretch a.horizontal b.horizontal) (sweepDegrees a b) (edgeSteps a b) →
          |wrapDegrees ((sampleAt a b ((k + 1 : ℕ) / edgeSteps a b)).longitude -
            (sampleAt a b (k / edgeSteps a b)).longitude)| ≤ 0.25) := by
    intro hpa hpb
    obtain ⟨hdot, hmild⟩ := hmild hpa hpb
    have hposa := axisDistance_pos hpa
    have hposb := axisDistance_pos hpb
    have hturned : -(a.horizontal.norm * b.horizontal.norm) < a.horizontal.dot b.horizontal := by
      linarith [mul_pos hposa hposb]
    obtain ⟨h0, hle, h1, -⟩ := step_mem hk
    rw [longitude_samples ha hb hopposite
      (chordAt_norm_pos hposa hposb hturned h0 (hle.trans h1))
      (chordAt_norm_pos hposa hposb hturned (h0.trans hle) h1), sweepDegrees_of_apart hpa hpb]
    exact degrees_step hposa hposb hturned hmild hk (by rwa [← sweepDegrees_of_apart hpa hpb])
  refine ⟨harcs.1, harcs.2, fun hpa hpb => (hlongitudes hpa hpb).1, fun hpa hpb hsuffice => ?_⟩
  rw [Direction.axisDistance_eq, Direction.axisDistance_eq] at hsuffice
  exact (hlongitudes hpa hpb).2 hsuffice

/-- Where an odd number of steps is not enough for the arc of an edge, the samples on both sides of
its middle are too far apart. -/
theorem quarter_lt_middle_arc {m : ℕ} (ha : a.dot a = 1) (hb : b.dot b = 1) (hab : -1 < a.dot b)
    (hodd : edgeSteps a b = 2 * m + 1)
    (hsuffice : ¬StepsSuffice 1 (arcDegrees a b) (edgeSteps a b)) :
    0.25 < arcDegrees (sampleAt a b (m / edgeSteps a b))
      (sampleAt a b ((m + 1 : ℕ) / edgeSteps a b)) := by
  have hpos : (0 : ℝ) < edgeSteps a b := by exact_mod_cast one_le_edgeSteps a b
  obtain ⟨h0, hle, h1, hstep⟩ := step_mem (show m < edgeSteps a b by omega)
  have hmiddle : (m : ℝ) / edgeSteps a b + ((m + 1 : ℕ) : ℝ) / edgeSteps a b = 1 := by
    rw [← add_div, div_eq_one_iff_eq hpos.ne', hodd]
    push_cast
    ring
  have hsame : a.norm = b.norm := by
    rw [Direction.norm_of_dot_self ha, Direction.norm_of_dot_self hb]
  have htan := tan_half_angle_middle (norm_pos_of_unit ha) (norm_pos_of_unit hb)
    (neg_norms_lt_dot ha hb hab) hsame h0 hle hmiddle
  have hwide := not_le.mp fun hle => hsuffice (.middle hle)
  rw [one_mul, arcDegrees_eq ha hb, toRadians_half, toRadians_real] at hwide
  rw [arcDegrees_samples ha hb hab, ← not_le, toDegrees_le_iff]
  intro hwithin
  have hnonneg := (chordAt a b (m / edgeSteps a b)).angle_nonneg
    (chordAt a b ((m + 1 : ℕ) / edgeSteps a b))
  have hpi := Real.pi_pos
  have hmono := Real.strictMonoOn_tan.monotoneOn (a := (chordAt a b (m / edgeSteps a b)).angle
      (chordAt a b ((m + 1 : ℕ) / edgeSteps a b)) / 2) (b := 0.25 / 2 * (Real.pi / 180))
    ⟨by linarith, by linarith⟩ ⟨by linarith, by linarith⟩ (by linarith)
  rw [htan, hstep, mul_one_div, div_le_iff₀ hpos] at hmono
  linarith

/-! ## Edges of cells -/

namespace Cell

/-- The edges of a cell lie over the sides of its square. -/
theorem exists_side {c : Cell} (hc : c.OnGrid) (h : (a, b) ∈ edgesOf c.corners) :
    ∃ w w' d p q, IsSide w w' d ∧ OverSide w w' d p q ∧ a = p.unit ∧ b = q.unit := by
  have hi : ∀ up, IsSide (c.uBound false) (c.uBound true) (c.vBound up) := by
    intro up
    refine isSide_of_lines hc.level_le hc.i_dvd hc.i_le ?_ ?_
    · cases up with
      | false => exact hc.j_dvd
      | true => exact dvd_add hc.j_dvd (dvd_refl _)
    · have hle := hc.j_le
      cases up with
      | false => exact le_trans (Nat.le_add_right _ _) hle
      | true => exact hle
  have hj : ∀ right, IsSide (c.vBound false) (c.vBound true) (c.uBound right) := by
    intro right
    refine isSide_of_lines hc.level_le hc.j_dvd hc.j_le ?_ ?_
    · cases right with
      | false => exact hc.i_dvd
      | true => exact dvd_add hc.i_dvd (dvd_refl _)
    · have hle := hc.i_le
      cases right with
      | false => exact le_trans (Nat.le_add_right _ _) hle
      | true => exact hle
  simp only [edgesOf, corners, List.drop_succ_cons, List.drop_zero, List.take_succ_cons,
    List.take_zero, List.cons_append, List.nil_append, List.zip_cons_cons, List.zip_nil_right,
    List.mem_cons, Prod.mk.injEq, List.not_mem_nil, or_false] at h
  rcases h with ⟨rfl, rfl⟩ | ⟨rfl, rfl⟩ | ⟨rfl, rfl⟩ | ⟨rfl, rfl⟩
  · exact ⟨_, _, _, _, _, hi false, .of_first c.face _ _ _, rfl, rfl⟩
  · exact ⟨_, _, _, _, _, hj true, .of_second c.face _ _ _, rfl, rfl⟩
  · exact ⟨_, _, _, _, _, (hi true).symm, (OverSide.of_first c.face _ _ _).symm, rfl, rfl⟩
  · exact ⟨_, _, _, _, _, (hj false).symm, (OverSide.of_second c.face _ _ _).symm, rfl, rfl⟩

/-- Consecutive samples along an edge of a cell are at most half a degree apart, in arc and, unless
an end of the edge is at a pole, in longitude; and they are at most a quarter degree apart where the
steps of the edge suffice for the one in its middle. -/
theorem edges_spaced (id : CellId) (hvalid : id.isValid = true) :
    ∃ c, ofId? id = some c ∧ ∀ a b : Direction ℝ, (a, b) ∈ edgesOf c.corners →
      edgeSamples a b <:+: ringSamples c.corners ∧
        ∀ p q, [p, q] <:+: edgeSamples a b ++ [b] → Spaced a b p q := by
  obtain ⟨c, hc⟩ := exists_of_isValid hvalid
  refine ⟨c, hc, fun a b hedge => ⟨edgeSamples_within_ring hedge, fun p q hpair => ?_⟩⟩
  obtain ⟨w, w', d, s, t, hside, hover, rfl, rfl⟩ := exists_side (onGrid_of_id hc) hedge
  obtain ⟨hs, ht⟩ := hover.norm_pos
  refine spaced_of_mild (Direction.unit_dot_self hs) (Direction.unit_dot_self ht)
    (Direction.unit_dot_nonneg (hover.dot_nonneg hside)) (fun hpa hpb => ?_) hpair
  have hpos : ∀ {r : Direction ℝ}, 0 < r.norm → poleDistance < r.unit.axisDistance →
      0 < r.horizontal.norm := by
    intro r hr hpole
    have hunit := axisDistance_pos hpole
    rw [Direction.unit_eq, Direction.horizontal_scale, Direction.norm_scale (inv_pos.mpr hr)]
      at hunit
    exact pos_of_mul_pos_left hunit (inv_nonneg.mpr hr.le)
  obtain ⟨hdot, hmild⟩ := hover.mild hside (hpos hs hpa) (hpos ht hpb)
  refine ⟨?_, hmild⟩
  rw [Direction.unit_eq, Direction.unit_eq, Direction.horizontal_scale, Direction.horizontal_scale,
    Direction.dot_scale]
  exact mul_nonneg hdot (mul_nonneg (inv_nonneg.mpr hs.le) (inv_nonneg.mpr ht.le))

/-- The edges of a quarter of the face around the north pole, one corner of which is the pole. -/
theorem edges_spaced_at_pole :
    (CellId.ofFace 2).childBegin.isValid = true ∧
      ∃ c, ofId? (CellId.ofFace 2).childBegin = some c ∧
        ∀ a b : Direction ℝ, (a, b) ∈ edgesOf c.corners →
          edgeSamples a b <:+: ringSamples c.corners ∧
            ∀ p q, [p, q] <:+: edgeSamples a b ++ [b] → Spaced a b p q := by
  have hvalid : (CellId.ofFace 2).childBegin.isValid = true := by decide +kernel
  exact ⟨hvalid, edges_spaced _ hvalid⟩

end Cell

/-! ## An edge that is sampled too widely -/

noncomputable def southWest : Direction ℝ := ⟨1, -1, -1⟩

noncomputable def southEast : Direction ℝ := ⟨1, 1, -1⟩

theorem southern_norm : southWest.norm = √3 ∧ southEast.norm = √3 := by
  constructor <;> rw [Direction.norm, sqrt_real] <;>
    norm_num [southWest, southEast, Direction.dot]

/-- In the plane of the equator the chord of the southern edge runs across the prime meridian. -/
theorem southern_chord (t : ℝ) :
    chordAt southWest.unit.horizontal southEast.unit.horizontal t =
      (⟨1, 2 * t - 1, 0⟩ : Direction ℝ).scale (√3)⁻¹ := by
  rw [Direction.unit_eq, Direction.unit_eq, southern_norm.1, southern_norm.2]
  refine Direction.ext ?_ ?_ ?_ <;>
    simp only [chordAt, Direction.plus, Direction.scale, Direction.horizontal, southWest,
      southEast] <;> ring

theorem southern_horizontal {p : Direction ℝ} (hp : p = southWest ∨ p = southEast) :
    p.unit.horizontal = p.horizontal.scale (√3)⁻¹ ∧ p.horizontal.norm = √2 := by
  rcases hp with rfl | rfl
  · rw [Direction.unit_eq, southern_norm.1, Direction.horizontal_scale, Direction.norm, sqrt_real]
    norm_num [southWest, Direction.horizontal, Direction.dot]
  · rw [Direction.unit_eq, southern_norm.2, Direction.horizontal_scale, Direction.norm, sqrt_real]
    norm_num [southEast, Direction.horizontal, Direction.dot]

theorem poleDistance_lt_southern {p : Direction ℝ} (hp : p = southWest ∨ p = southEast) :
    poleDistance < p.unit.axisDistance := by
  obtain ⟨hscale, hnorm⟩ := southern_horizontal hp
  rw [Direction.axisDistance_eq, hscale, Direction.norm_scale (by positivity), hnorm,
    ← div_eq_mul_inv, ← Real.sqrt_div (by norm_num), Real.lt_sqrt (by norm_num [poleDistance])]
  norm_num [poleDistance]

theorem southern_unit : southWest.unit.dot southWest.unit = 1 ∧
    southEast.unit.dot southEast.unit = 1 ∧ 0 ≤ southWest.unit.dot southEast.unit := by
  refine ⟨Direction.unit_dot_self ?_, Direction.unit_dot_self ?_, Direction.unit_dot_nonneg ?_⟩
  · rw [southern_norm.1]
    positivity
  · rw [southern_norm.2]
    positivity
  · norm_num [southWest, southEast, Direction.dot]

/-- A quarter turn of longitude takes 360 steps. -/
theorem southern_steps : edgeSteps southWest.unit southEast.unit = 360 := by
  have hpi := Real.pi_pos
  obtain ⟨hwest, -⟩ := southern_horizontal (Or.inl rfl)
  obtain ⟨heast, -⟩ := southern_horizontal (Or.inr rfl)
  have hsweep : sweepDegrees southWest.unit southEast.unit = 90 := by
    have hdot : southWest.horizontal.dot southEast.horizontal = 0 := by
      norm_num [southWest, southEast, Direction.horizontal, Direction.dot]
    rw [sweepDegrees_of_apart (poleDistance_lt_southern (Or.inl rfl))
      (poleDistance_lt_southern (Or.inr rfl)), hwest, heast,
      Direction.angle_scale (by positivity) (by positivity), Direction.angle, hdot, zero_div,
      Real.arccos_zero, toDegrees_real]
    field_simp
    norm_num
  have harc : arcDegrees southWest.unit southEast.unit ≤ 90 := by
    obtain ⟨hwest, heast, hdot⟩ := southern_unit
    rw [arcDegrees_eq hwest heast, toDegrees_le_iff, Direction.angle]
    refine (Real.arccos_le_pi_div_two.mpr ?_).trans (le_of_eq (by ring))
    exact div_nonneg hdot (mul_nonneg (Direction.norm_nonneg _) (Direction.norm_nonneg _))
  have hquarters : quarterDegrees southWest.unit southEast.unit = ((360 : ℤ) : ℝ) := by
    rw [quarterDegrees, hsweep]
    split
    · norm_num
    · rw [le_antisymm harc (not_lt.mp ‹_›)]
      norm_num
  rw [edgeSteps, hquarters, ceiling_exact, Int.ceil_intCast]
  rfl

/-- From the prime meridian to a 180th part of the side on there is more than a quarter degree. -/
theorem quarter_lt_angle : 0.25 < toDegrees ((⟨1, 0, 0⟩ : Direction ℝ).angle ⟨1, 1 / 180, 0⟩) := by
  set p : Direction ℝ := ⟨1, 0, 0⟩ with hp
  set q : Direction ℝ := ⟨1, 1 / 180, 0⟩ with hq
  rw [← not_le, toDegrees_le_iff]
  intro hle
  have hpi : Real.pi < 3.15 := Real.pi_lt_d2
  have hpos := Real.pi_pos
  have hself : p.dot p = 1 ∧ q.dot q = 32401 / 32400 ∧ p.dot q = 1 := by
    rw [hp, hq]
    norm_num [Direction.dot]
  have hcos := Direction.cos_angle (p := p) (q := q)
    (Real.sqrt_pos.mpr (by rw [hself.1]; norm_num)) (Real.sqrt_pos.mpr (by rw [hself.2.1]; norm_num))
  have hsquare : Real.cos (p.angle q) ^ 2 * (32401 / 32400) = 1 := by
    have hnorms : (p.norm * q.norm) ^ 2 = 32401 / 32400 := by
      rw [mul_pow, Direction.norm_sq, Direction.norm_sq, hself.1, hself.2.1, one_mul]
    rw [← hnorms, ← mul_pow, hcos, hself.2.2, one_pow]
  have hsmall : 0.25 * (Real.pi / 180) < 0.0044 := by norm_num; linarith
  have hmono : Real.cos (0.0044 : ℝ) ≤ Real.cos (p.angle q) :=
    Real.cos_le_cos_of_nonneg_of_le_pi (p.angle_nonneg q) (by norm_num; linarith [Real.pi_gt_three])
      (hle.trans hsmall.le)
  have hbelow := Real.one_sub_sq_div_two_le_cos (x := 0.0044)
  norm_num at hbelow
  nlinarith

theorem southern_step_wide :
    0.25 < |wrapDegrees ((sampleAt southWest.unit southEast.unit (181 / 360)).longitude -
      (sampleAt southWest.unit southEast.unit (180 / 360)).longitude)| := by
  obtain ⟨hwest, heast, hdot⟩ := southern_unit
  have hmiddle : (2 * (180 / 360) - 1 : ℝ) = 0 := by norm_num
  have hnext : (2 * (181 / 360) - 1 : ℝ) = 1 / 180 := by norm_num
  have hpos : ∀ t, 0 <
      (chordAt southWest.unit.horizontal southEast.unit.horizontal t).norm := by
    intro t
    rw [southern_chord, Direction.norm_scale (by positivity)]
    refine mul_pos (Real.sqrt_pos.mpr ?_) (by positivity)
    simp only [Direction.dot]
    nlinarith [sq_nonneg (2 * t - 1)]
  rw [longitude_samples hwest heast (by linarith) (hpos _) (hpos _), southern_chord, southern_chord,
    Direction.angle_scale (by positivity) (by positivity), hmiddle, hnext]
  exact quarter_lt_angle

/-- The southern edge of the face around the meeting of the equator and the prime meridian has two
consecutive samples more than a quarter degree of longitude apart. -/
theorem Cell.edge_sampled_widely :
    (CellId.ofFace 0).isValid = true ∧ ∃ c, Cell.ofId? (CellId.ofFace 0) = some c ∧
      (southWest.unit, southEast.unit) ∈ edgesOf c.corners ∧
      poleDistance < southWest.unit.axisDistance ∧ poleDistance < southEast.unit.axisDistance ∧
      edgeSteps southWest.unit southEast.unit = 360 ∧
      ∃ p q, [p, q] <:+: edgeSamples southWest.unit southEast.unit ++ [southEast.unit] ∧
        0.25 < |wrapDegrees (q.longitude - p.longitude)| := by
  refine ⟨by decide, ⟨0, 0, 0, 0, false, _, _⟩, rfl, ?_, poleDistance_lt_southern (Or.inl rfl),
    poleDistance_lt_southern (Or.inr rfl), southern_steps, _, _, ?_, southern_step_wide⟩
  · have h1 : (1.0 : ℝ) = 1 := by norm_num
    have hlast : (Cell.planeLine (0 + 2 ^ maxLevel) : ℝ) = 1 := by
      rw [zero_add, planeLine_last]
    refine List.mem_cons.mpr (Or.inl (Prod.ext ?_ ?_))
    · change _ = Direction.unit ⟨1.0, Cell.planeLine 0, Cell.planeLine 0⟩
      rw [h1, planeLine_first]
      rfl
    · change _ = Direction.unit ⟨1.0, Cell.planeLine (0 + 2 ^ maxLevel), Cell.planeLine 0⟩
      rw [h1, planeLine_first, hlast]
      rfl
  · refine (pair_of_edge_iff southern_unit.2.1).mpr ⟨180, ?_, ?_, ?_⟩
    all_goals rw [southern_steps]
    all_goals norm_num

end Geospatial
