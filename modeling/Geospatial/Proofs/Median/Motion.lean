import Geospatial.Proofs.Median.Hull
import Mathlib.Analysis.Normed.Affine.Isometry

/-!
# The median moves with its points

A step is made of distances from its estimate, of averages, and of counts. An isometry of Euclidean
spaces keeps the first, carries the second along, and the third depend on no order, so that the
steps of a search for the median of moved points are the moved steps, each as long as before. The
two searches decide alike and end together. A plane at a height is a motion of the plane into space.
-/

namespace Geospatial.Vec

variable {d : Nat}

noncomputable def ofSpace (x : EuclideanSpace ℝ (Fin d)) : Vec ℝ d := Vector.ofFn fun i => x i

@[simp] theorem toSpace_ofSpace (x : EuclideanSpace ℝ (Fin d)) : (ofSpace x).toSpace = x := by
  ext i
  simp [ofSpace]

end Geospatial.Vec

namespace Geospatial.Median

variable {d e : Nat} {points others : List (Vec ℝ d)} {estimate : Vec ℝ d}

/-! ## Averages and isometries -/

section Carry

variable (φ : EuclideanSpace ℝ (Fin d) →ᵃⁱ[ℝ] EuclideanSpace ℝ (Fin e))

noncomputable def carry (v : Vec ℝ d) : Vec ℝ e := Vec.ofSpace (φ v.toSpace)

@[simp] theorem toSpace_carry (v : Vec ℝ d) : (carry φ v).toSpace = φ v.toSpace :=
  Vec.toSpace_ofSpace _

theorem carry_sub (u v : Vec ℝ d) :
    (carry φ u).toSpace - (carry φ v).toSpace = φ.linearIsometry (u.toSpace - v.toSpace) := by
  rw [toSpace_carry, toSpace_carry]
  exact (φ.map_vsub _ _).symm

theorem reach_carry (estimate p : Vec ℝ d) :
    reach (carry φ estimate) (carry φ p) = reach estimate p := by
  rw [reach_eq, reach_eq, carry_sub, LinearIsometry.norm_map]

theorem weight_carry (estimate p : Vec ℝ d) :
    weight (carry φ estimate) (carry φ p) = weight estimate p := by
  rw [weight, weight, reach_carry]

theorem away_carry (points : List (Vec ℝ d)) (estimate : Vec ℝ d) :
    away (points.map (carry φ)) (carry φ estimate) = (away points estimate).map (carry φ) := by
  simp only [away, List.filter_map, Function.comp_def, reach_carry]

theorem totalWeight_carry (points : List (Vec ℝ d)) (estimate : Vec ℝ d) :
    totalWeight (points.map (carry φ)) (carry φ estimate) = totalWeight points estimate := by
  simp only [totalWeight, away_carry, List.map_map, Function.comp_def, weight_carry]

/-- The pulls of single points turn with them. -/
theorem sum_pulls_carry (points : List (Vec ℝ d)) (estimate : Vec ℝ d) :
    ((points.map (carry φ)).map fun p =>
        weight (carry φ estimate) p • (p.toSpace - (carry φ estimate).toSpace)).sum =
      φ.linearIsometry
        (points.map fun p => weight estimate p • (p.toSpace - estimate.toSpace)).sum := by
  rw [map_list_sum, List.map_map, List.map_map]
  simp only [Function.comp_def, weight_carry, carry_sub, map_smul]

theorem pull_carry (points : List (Vec ℝ d)) (estimate : Vec ℝ d) :
    pull (points.map (carry φ)) (carry φ estimate) = pull points estimate := by
  rw [pull_eq_norm, sum_pulls_carry, LinearIsometry.norm_map, ← pull_eq_norm]

theorem retention_carry (points : List (Vec ℝ d)) (estimate : Vec ℝ d) :
    retention (points.map (carry φ)) (carry φ estimate) = retention points estimate := by
  simp only [retention, away_carry, pull_carry, List.length_map]

theorem drift_carry (h : away points estimate ≠ []) :
    drift (points.map (carry φ)) (carry φ estimate) = φ.linearIsometry (drift points estimate) := by
  have hmoved : away (points.map (carry φ)) (carry φ estimate) ≠ [] := by
    rw [away_carry]
    simpa using h
  -- the drift is told by its multiple, which needs no average
  refine smul_right_injective _ (totalWeight_pos h).ne' ?_
  show totalWeight points estimate • _ = totalWeight points estimate • _
  rw [← map_smul, totalWeight_smul_drift h, ← sum_pulls_carry, ← totalWeight_carry φ,
    totalWeight_smul_drift hmoved, away_carry]

/-- The step of carried points is the carried step, and as long. -/
theorem step_carry (points : List (Vec ℝ d)) (estimate : Vec ℝ d) :
    step (points.map (carry φ)) (carry φ estimate) =
      (carry φ (step points estimate).1, (step points estimate).2) := by
  by_cases hnone : away points estimate = []
  · rw [step_of_none_away hnone, step_of_none_away]
    rw [away_carry, hnone, List.map_nil]
  have hmoved : away (points.map (carry φ)) (carry φ estimate) ≠ [] := by
    rw [away_carry]
    simpa using hnone
  have hnext : (step (points.map (carry φ)) (carry φ estimate)).1 =
      carry φ (step points estimate).1 := by
    apply Vec.toSpace_injective
    rw [step_toSpace hmoved, drift_carry φ hnone, retention_carry, toSpace_carry, toSpace_carry,
      step_toSpace hnone, ← map_smul, add_comm, add_comm estimate.toSpace]
    exact (φ.map_vadd _ _).symm
  refine Prod.ext hnext ?_
  rw [step_displacement, hnext, carry_sub, LinearIsometry.norm_map, ← step_displacement]

theorem mean_sub {points : List (Vec ℝ d)} (hne : points ≠ []) (x : EuclideanSpace ℝ (Fin d)) :
    (Vec.mean points).toSpace - x =
      (points.length : ℝ)⁻¹ • (points.map fun p => p.toSpace - x).sum := by
  have hones : (points.map fun _ => (1 : ℝ)).sum ≠ 0 := by simpa using hne
  rw [toSpace_mean, average_sub hones]
  simp

theorem mean_carry (hne : points ≠ []) :
    Vec.mean (points.map (carry φ)) = carry φ (Vec.mean points) := by
  have hmoved : points.map (carry φ) ≠ [] := by simpa using hne
  -- the ways from any one place to the two means correspond
  have hways : (Vec.mean (points.map (carry φ))).toSpace - (carry φ Vec.zero).toSpace =
      (carry φ (Vec.mean points)).toSpace - (carry φ Vec.zero).toSpace := by
    rw [mean_sub hmoved, carry_sub, mean_sub hne, map_smul, map_list_sum, List.map_map,
      List.map_map, List.length_map]
    simp only [Function.comp_def, carry_sub]
  exact Vec.toSpace_injective (sub_left_injective hways)

/-- The search for the median of carried points is the carried search. -/
theorem search_carry (hne : points ≠ []) (tolerance : ℝ) (cap : Rat) :
    search (points.map (carry φ)) tolerance cap =
      Iteration.mapValue (carry φ) (search points tolerance cap) := by
  rw [search, mean_carry φ hne]
  exact Iteration.run_map (step_carry φ points) _ _ _ _

end Carry

/-! ## The order of the points -/

section Order

theorem away_perm (h : points.Perm others) (estimate : Vec ℝ d) :
    (away points estimate).Perm (away others estimate) :=
  h.filter _

theorem weightedMean_perm (h : points.Perm others) (estimate : Vec ℝ d) :
    weightedMean points estimate = weightedMean others estimate := by
  apply Vec.toSpace_injective
  rw [toSpace_weightedMean, toSpace_weightedMean, (h.map (weight estimate)).sum_eq,
    (h.map fun p => weight estimate p • p.toSpace).sum_eq]

theorem pull_perm (h : points.Perm others) (estimate : Vec ℝ d) :
    pull points estimate = pull others estimate := by
  rw [pull_eq_norm, pull_eq_norm,
    (h.map fun p => weight estimate p • (p.toSpace - estimate.toSpace)).sum_eq]

theorem step_perm (h : points.Perm others) : step points = step others := by
  funext estimate
  have haway := away_perm h estimate
  simp only [step, List.isEmpty_iff_length_eq_zero, haway.length_eq, h.length_eq,
    weightedMean_perm haway, pull_perm haway]

theorem mean_perm (h : points.Perm others) : Vec.mean points = Vec.mean others := by
  apply Vec.toSpace_injective
  rw [Vec.mean, Vec.mean, Vec.toSpace_dividedBy, Vec.toSpace_dividedBy, Vec.toSpace_sum,
    Vec.toSpace_sum, (h.map Vec.toSpace).sum_eq, h.length_eq]

theorem search_perm (h : points.Perm others) (tolerance : ℝ) (cap : Rat) :
    search points tolerance cap = search others tolerance cap := by
  rw [search, search, step_perm h, mean_perm h]

end Order

/-! ## The plane at a height -/

/-- The way into a plane at a height keeps all distances. -/
theorem exists_lift (height : ℝ) :
    ∃ φ : EuclideanSpace ℝ (Fin 2) →ᵃⁱ[ℝ] EuclideanSpace ℝ (Fin 3),
      ∀ p : Position ℝ, tallVector ⟨p.x, p.y, some height⟩ = carry φ (flatVector p) := by
  let level : EuclideanSpace ℝ (Fin 2) →ₗ[ℝ] EuclideanSpace ℝ (Fin 3) :=
    { toFun := fun x => WithLp.toLp 2 ![x 0, x 1, 0]
      map_add' := fun x y => by
        ext i
        fin_cases i <;> simp
      map_smul' := fun k x => by
        ext i
        fin_cases i <;> simp }
  have hnorm : ∀ x, ‖level x‖ = ‖x‖ := by
    intro x
    rw [EuclideanSpace.norm_eq, EuclideanSpace.norm_eq]
    simp [level, Fin.sum_univ_succ]
  let φ : EuclideanSpace ℝ (Fin 2) →ᵃⁱ[ℝ] EuclideanSpace ℝ (Fin 3) :=
    { toFun := fun x => WithLp.toLp 2 ![x 0, x 1, height]
      linear := level
      map_vadd' := fun x v => by
        ext i
        fin_cases i <;> simp [level]
      norm_map := hnorm }
  refine ⟨φ, fun p => Vec.toSpace_injective ?_⟩
  rw [toSpace_carry]
  ext i
  fin_cases i <;> rfl

/-- What is carried to a height is read back with it. -/
theorem ofTallVector_lift {φ : EuclideanSpace ℝ (Fin 2) →ᵃⁱ[ℝ] EuclideanSpace ℝ (Fin 3)}
    {height : ℝ}
    (h : ∀ p : Position ℝ, tallVector ⟨p.x, p.y, some height⟩ = carry φ (flatVector p))
    (v : Vec ℝ 2) :
    ofTallVector (carry φ v) = ⟨(ofFlatVector v).x, (ofFlatVector v).y, some height⟩ := by
  have hraised := h (ofFlatVector v)
  rw [flatVector_ofFlatVector] at hraised
  rw [← hraised]
  rfl

/-! ## Motions of positions -/

/-- A motion of positions that keeps their distances. -/
inductive Motion where
  /-- Within the plane. -/
  | plane (φ : EuclideanSpace ℝ (Fin 2) →ᵃⁱ[ℝ] EuclideanSpace ℝ (Fin 2))
  /-- Within space. -/
  | space (φ : EuclideanSpace ℝ (Fin 3) →ᵃⁱ[ℝ] EuclideanSpace ℝ (Fin 3))
  /-- From the plane to a height in space. -/
  | raise (height : ℝ)

namespace Motion

noncomputable def apply (m : Motion) (p : Position ℝ) : Position ℝ :=
  match m with
  | plane φ => ofFlatVector (carry φ (flatVector p))
  | space φ => ofTallVector (carry φ (tallVector p))
  | raise height => ⟨p.x, p.y, some height⟩

/-- Positions are where a motion starts from: in the plane as long as none has a height, in space as
soon as one does. -/
def Admits (m : Motion) (positions : List (Position ℝ)) : Prop :=
  match m with
  | plane _ => positions.any Position.hasHeight = false
  | space _ => positions ≠ [] → positions.any Position.hasHeight = true
  | raise _ => positions.any Position.hasHeight = false

/-- A motion leads into space, where every position has a height. -/
def leadsToSpace (m : Motion) : Bool :=
  match m with
  | plane _ => false
  | space _ => true
  | raise _ => true

theorem hasHeight_apply (m : Motion) (p : Position ℝ) :
    (m.apply p).hasHeight = m.leadsToSpace := by
  cases m with
  | plane φ => rfl
  | space φ => rfl
  | raise height => rfl

end Motion

noncomputable def Estimate.moved (m : Motion) (estimate : Estimate ℝ) : Estimate ℝ :=
  { estimate with position := estimate.position.map m.apply }

section Solve

variable {m : Motion} {positions images : List (Position ℝ)}

theorem any_hasHeight_images (hne : positions ≠ []) (h : images.Perm (positions.map m.apply)) :
    images.any Position.hasHeight = m.leadsToSpace := by
  obtain ⟨p, rest, rfl⟩ := List.exists_cons_of_ne_nil hne
  rw [h.any_eq, List.any_map]
  simp only [Function.comp_def, Motion.hasHeight_apply]
  cases m.leadsToSpace <;> simp

theorem search_images (φ : EuclideanSpace ℝ (Fin d) →ᵃⁱ[ℝ] EuclideanSpace ℝ (Fin e))
    {read : Position ℝ → Vec ℝ d} {readImage : Position ℝ → Vec ℝ e}
    (hread : ∀ p, readImage (m.apply p) = carry φ (read p)) (hne : positions ≠ [])
    (h : images.Perm (positions.map m.apply)) (tolerance : ℝ) (cap : Rat) :
    search (images.map readImage) tolerance cap =
      Iteration.mapValue (carry φ) (search (positions.map read) tolerance cap) := by
  have hvectors : (images.map readImage).Perm ((positions.map read).map (carry φ)) := by
    have hmap := h.map readImage
    simpa only [List.map_map, Function.comp_def, hread] using hmap
  rw [search_perm hvectors]
  exact search_carry φ (by simpa using hne) tolerance cap

theorem accept_mapValue {σ τ : Type} (settings : Settings ℝ) (outcome : Outcome σ ℝ) {f : σ → τ}
    {position : σ → Position ℝ} {image : τ → Position ℝ}
    (h : ∀ value, image (f value) = m.apply (position value)) :
    settings.accept (Iteration.mapValue f outcome) image =
      (settings.accept outcome position).map (Estimate.moved m) := by
  unfold Settings.accept
  by_cases hfails : (!outcome.converged && settings.strict) = true
  · rw [if_pos hfails]
    exact if_pos hfails
  · rw [if_neg hfails]
    refine (if_neg hfails).trans ?_
    simp only [Iteration.mapValue, h]
    rfl

theorem solvePositions_moved (settings : Settings ℝ) (hadmits : m.Admits positions)
    (h : images.Perm (positions.map m.apply)) :
    solvePositions images settings =
      (solvePositions positions settings).map (Estimate.moved m) := by
  by_cases hne : positions = []
  · subst hne
    obtain rfl := List.perm_nil.mp h
    rfl
  have hempty : ¬positions.isEmpty = true := by simpa using hne
  have himages : ¬images.isEmpty = true := by
    rw [List.isEmpty_iff_length_eq_zero, h.length_eq, List.length_map]
    simpa using hne
  have htall := any_hasHeight_images hne h
  rw [solvePositions, solvePositions, if_neg hempty, if_neg himages, htall]
  cases m with
  | plane φ =>
      have hflat : positions.any Position.hasHeight = false := hadmits
      rw [hflat, if_neg (by simp [Motion.leadsToSpace]), if_neg (by simp),
        search_images φ (fun p => flatVector_ofFlatVector _) hne h]
      exact accept_mapValue settings _ fun v => by rw [Motion.apply, flatVector_ofFlatVector]
  | space φ =>
      have hspace : positions.any Position.hasHeight = true := hadmits hne
      rw [hspace, if_pos (by rfl), if_pos rfl,
        search_images φ (fun p => tallVector_ofTallVector _) hne h]
      exact accept_mapValue settings _ fun v => by rw [Motion.apply, tallVector_ofTallVector]
  | raise height =>
      have hflat : positions.any Position.hasHeight = false := hadmits
      obtain ⟨φ, hφ⟩ := exists_lift height
      rw [hflat, if_pos (by rfl), if_neg (by simp), search_images φ hφ hne h]
      exact accept_mapValue settings _ (ofTallVector_lift hφ)

/-- The median of a multi-point with moved positions, in any order, is the moved median, found in as
many steps, and refused where the median of the positions is. -/
theorem solve_moved (m : Motion) (points images : List (Option (Position ℝ)))
    (settings : Settings ℝ) (hadmits : m.Admits (Geometry.multiPoint points).positions)
    (himages : (Geometry.multiPoint images).positions.Perm
      ((Geometry.multiPoint points).positions.map m.apply)) :
    solve (.multiPoint images) settings =
      (solve (.multiPoint points) settings).map (Estimate.moved m) := by
  cases hcheck : settings.check with
  | error failure =>
      unfold solve
      rw [hcheck]
      rfl
  | ok u =>
      rw [solve_multiPoint images hcheck, solve_multiPoint points hcheck, solvePositions_rows,
        solvePositions_rows]
      exact solvePositions_moved settings hadmits himages

noncomputable def flatThree : List (Option (Position ℝ)) :=
  [some ⟨0, 0, none⟩, some ⟨3, 0, none⟩, none, some ⟨0, 4, none⟩]

/-- Three points raised to a height and put in another order. -/
theorem solve_moved_to_height :
    (Motion.raise 7).Admits (Geometry.multiPoint flatThree).positions ∧
    (Geometry.multiPoint
        [some ⟨0, 4, some 7⟩, some ⟨0, 0, some 7⟩, some ⟨3, 0, some 7⟩]).positions.Perm
      ((Geometry.multiPoint flatThree).positions.map (Motion.raise 7).apply) ∧
    solve (.multiPoint [some ⟨0, 4, some 7⟩, some ⟨0, 0, some 7⟩, some ⟨3, 0, some 7⟩])
        ⟨⟨0, .integer 0⟩, ⟨5 / 2, .real 2.5⟩, true⟩ =
      (solve (.multiPoint flatThree)
        ⟨⟨0, .integer 0⟩, ⟨5 / 2, .real 2.5⟩, true⟩).map (Estimate.moved (.raise 7)) := by
  have hperm : (Geometry.multiPoint
        [some ⟨0, 4, some 7⟩, some ⟨0, 0, some 7⟩, some ⟨3, 0, some 7⟩]).positions.Perm
      ((Geometry.multiPoint flatThree).positions.map (Motion.raise 7).apply) :=
    ((List.Perm.swap _ _ _).trans ((List.Perm.swap _ _ _).cons _))
  exact ⟨rfl, hperm, solve_moved (.raise 7) _ _ _ rfl hperm⟩

end Solve

end Geospatial.Median
