import Geospatial.Median.Step
import Geospatial.Proofs.Exact
import Mathlib.Analysis.InnerProductSpace.PiL2

/-!
# Vectors as points of Euclidean space

A vector of exact numbers is a point of Euclidean space, its operations are those of the space, and
its length is the norm.
-/

namespace Geospatial.Vec

variable {d : Nat}

noncomputable def toSpace (v : Vec ℝ d) : EuclideanSpace ℝ (Fin d) :=
  WithLp.toLp 2 fun i => v[(i : Nat)]

@[simp] theorem toSpace_apply (v : Vec ℝ d) (i : Fin d) : v.toSpace i = v[(i : Nat)] := rfl

theorem toSpace_injective : Function.Injective (toSpace (d := d)) := by
  intro u v h
  refine Vector.ext fun i hi => ?_
  have hi' := congrArg (fun w : EuclideanSpace ℝ (Fin d) => w ⟨i, hi⟩) h
  exact hi'

@[simp] theorem toSpace_zero : (zero : Vec ℝ d).toSpace = 0 := by
  ext i
  simp [zero]

@[simp] theorem toSpace_plus (u v : Vec ℝ d) : (u.plus v).toSpace = u.toSpace + v.toSpace := by
  ext i
  simp [plus]

@[simp] theorem toSpace_minus (u v : Vec ℝ d) : (u.minus v).toSpace = u.toSpace - v.toSpace := by
  ext i
  simp [minus]

@[simp] theorem toSpace_times (v : Vec ℝ d) (k : ℝ) : (v.times k).toSpace = k • v.toSpace := by
  ext i
  simp [times, mul_comm]

@[simp] theorem toSpace_dividedBy (v : Vec ℝ d) (k : ℝ) :
    (v.dividedBy k).toSpace = k⁻¹ • v.toSpace := by
  ext i
  simp [dividedBy, div_eq_inv_mul]

theorem toSpace_foldl_plus (start : Vec ℝ d) (vs : List (Vec ℝ d)) :
    (vs.foldl plus start).toSpace = start.toSpace + (vs.map toSpace).sum := by
  induction vs generalizing start with
  | nil => simp
  | cons v rest ih =>
      rw [List.foldl_cons, ih, toSpace_plus, List.map_cons, List.sum_cons, add_assoc]

@[simp] theorem toSpace_sum (vs : List (Vec ℝ d)) : (sum vs).toSpace = (vs.map toSpace).sum := by
  rw [sum, toSpace_foldl_plus, toSpace_zero, zero_add]

theorem foldl_add_eq_sum (v : Vec ℝ d) : v.foldl (· + ·) 0 = ∑ i : Fin d, v[(i : Nat)] := by
  have hlist : v.toList = List.ofFn fun i : Fin d => v[(i : Nat)] := by
    refine List.ext_getElem (by simp) fun i h h' => ?_
    simp
  rw [← List.sum_ofFn, ← hlist, List.sum_eq_foldl]
  simp

theorem norm_eq (v : Vec ℝ d) : v.norm = ‖v.toSpace‖ := by
  rw [norm, sqrt_real, foldl_add_eq_sum, EuclideanSpace.norm_eq]
  refine congrArg Real.sqrt (Finset.sum_congr rfl fun i _ => ?_)
  simp [sq]

end Geospatial.Vec
