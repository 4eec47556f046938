import Geospatial.Path.Cut
import Geospatial.Proofs.Exact

/-!
# Places on a path in exact numbers

The place of a point on a segment depends on its two coordinates only, starts at `0` and ends at
`1`. The arc lengths of the positions of a path grow by the distances of neighbours, and a point is
located on the first segment that it lies on, between the arc lengths of its ends.
-/

namespace Geospatial.Path

def SamePlace (p q : Position ℝ) : Prop := p.x = q.x ∧ p.y = q.y

theorem SamePlace.symm {p q : Position ℝ} (h : SamePlace p q) : SamePlace q p :=
  ⟨h.1.symm, h.2.symm⟩

theorem SamePlace.trans {p q r : Position ℝ} (hpq : SamePlace p q) (hqr : SamePlace q r) :
    SamePlace p r :=
  ⟨hpq.1.trans hqr.1, hpq.2.trans hqr.2⟩

/-! ## Distances -/

theorem distance_nonneg (p q : Position ℝ) : 0 ≤ distance p q := Real.sqrt_nonneg _

theorem distance_eq_zero_iff {p q : Position ℝ} : distance p q = 0 ↔ SamePlace p q := by
  have hx := mul_self_nonneg (q.x - p.x)
  have hy := mul_self_nonneg (q.y - p.y)
  unfold distance SamePlace
  rw [sqrt_real, Real.sqrt_eq_zero (add_nonneg hx hy), add_eq_zero_iff_of_nonneg hx hy,
    mul_self_eq_zero, mul_self_eq_zero, sub_eq_zero, sub_eq_zero, eq_comm, @eq_comm _ q.y]

theorem distance_pos_iff {p q : Position ℝ} : 0 < distance p q ↔ ¬SamePlace p q := by
  rw [← distance_eq_zero_iff]
  exact ⟨fun h => h.ne', fun h => lt_of_le_of_ne (distance_nonneg p q) (Ne.symm h)⟩

theorem abs_sub_le_distance (p q : Position ℝ) : |q.x - p.x| ≤ distance p q := by
  have hy := mul_self_nonneg (q.y - p.y)
  refine Real.abs_le_sqrt ?_
  linarith [sq (q.x - p.x)]

/-- A distance whose square is that of the differences. -/
theorem distance_eq_of_sq {p q : Position ℝ} {d : ℝ} (h : 0 ≤ d)
    (hsq : (q.x - p.x) * (q.x - p.x) + (q.y - p.y) * (q.y - p.y) = d * d) : distance p q = d := by
  unfold distance
  rw [hsq, sqrt_real, Real.sqrt_mul_self h]

theorem totalLength_nonneg (path : Path ℝ) : 0 ≤ totalLength path := by
  fun_induction totalLength path with
  | case1 p q rest ih => exact add_nonneg (distance_nonneg p q) ih
  | case2 => exact le_rfl

theorem samePlace_of_square_nonpos {a b : Position ℝ}
    (h : ¬0 < (b.x - a.x) * (b.x - a.x) + (b.y - a.y) * (b.y - a.y)) : SamePlace a b := by
  have hx := mul_self_nonneg (b.x - a.x)
  have hy := mul_self_nonneg (b.y - a.y)
  have hx0 : b.x - a.x = 0 := mul_self_eq_zero.mp (by linarith)
  have hy0 : b.y - a.y = 0 := mul_self_eq_zero.mp (by linarith)
  exact ⟨(sub_eq_zero.mp hx0).symm, (sub_eq_zero.mp hy0).symm⟩

/-! ## Fractions of a segment -/

theorem axisFraction_mem_unit (value start extent : ℝ) :
    0 ≤ axisFraction value start extent ∧ axisFraction value start extent ≤ 1 := by
  unfold axisFraction
  split
  · exact ⟨le_rfl, zero_le_one⟩
  · exact ⟨clampUnit_nonneg _, clampUnit_le_one _⟩

theorem axisFraction_start (start extent : ℝ) : axisFraction start start extent = 0 := by
  unfold axisFraction
  split
  · rfl
  · rw [sub_self, zero_div, clampUnit_of_mem le_rfl zero_le_one]

theorem axisFraction_stop {start stop : ℝ} (h : stop - start ≠ 0) :
    axisFraction stop start (stop - start) = 1 := by
  have hne : ((stop - start) == 0) = false := by simpa using h
  simp only [axisFraction, hne, div_self h]
  exact clampUnit_of_mem zero_le_one le_rfl

theorem dominantFraction_eq (p start stop : Position ℝ) :
    dominantFraction p start stop =
      if |stop.y - start.y| ≤ |stop.x - start.x| then axisFraction p.x start.x (stop.x - start.x)
      else axisFraction p.y start.y (stop.y - start.y) := by
  simp only [dominantFraction, magnitude_eq_abs]

theorem dominantFraction_mem_unit (p start stop : Position ℝ) :
    0 ≤ dominantFraction p start stop ∧ dominantFraction p start stop ≤ 1 := by
  rw [dominantFraction_eq]
  split
  · exact axisFraction_mem_unit _ _ _
  · exact axisFraction_mem_unit _ _ _

theorem dominantFraction_congr {p q : Position ℝ} (start stop : Position ℝ) (h : SamePlace p q) :
    dominantFraction p start stop = dominantFraction q start stop := by
  unfold dominantFraction
  rw [h.1, h.2]

theorem dominantFraction_start (start stop : Position ℝ) :
    dominantFraction start start stop = 0 := by
  rw [dominantFraction_eq]
  split
  · exact axisFraction_start _ _
  · exact axisFraction_start _ _

/-- A segment with length moves on the axis on which it is measured. -/
theorem moves_of_dominant_x {a b : Position ℝ} (h : ¬SamePlace a b)
    (hle : |b.y - a.y| ≤ |b.x - a.x|) : b.x - a.x ≠ 0 := by
  intro hx
  rw [hx, abs_zero] at hle
  exact h ⟨(sub_eq_zero.mp hx).symm, (sub_eq_zero.mp (abs_nonpos_iff.mp hle)).symm⟩

theorem moves_of_dominant_y {a b : Position ℝ} (hlt : ¬|b.y - a.y| ≤ |b.x - a.x|) :
    b.y - a.y ≠ 0 := by
  intro hy
  rw [hy, abs_zero] at hlt
  exact hlt (abs_nonneg _)

theorem dominantFraction_stop {start stop : Position ℝ} (h : ¬SamePlace start stop) :
    dominantFraction stop start stop = 1 := by
  rw [dominantFraction_eq]
  by_cases hle : |stop.y - start.y| ≤ |stop.x - start.x|
  · rw [if_pos hle]
    exact axisFraction_stop (moves_of_dominant_x h hle)
  · rw [if_neg hle]
    exact axisFraction_stop (moves_of_dominant_y hle)

/-- A point is located on a segment when it is within the tolerance of its nearest place there. -/
theorem locate_eq_some_iff {p start stop : Position ℝ} {tolerance t : ℝ} :
    locate p start stop tolerance = some t ↔
      distance (nearest p start stop) p ≤ tolerance ∧ dominantFraction p start stop = t := by
  unfold locate
  by_cases h : tolerance < distance (nearest p start stop) p
  · simp [h]
  · simp [h, not_lt.mp h]

/-! ## Arc lengths -/

section Vertices

variable {α : Type} [Add α] [Sub α] [Mul α] [OfNat α 0] [Root α]

def verticesFrom (sum : α) (path : Path α) : List (α × Position α) :=
  (lengthsFrom sum path).zip path

def vertices (path : Path α) : List (α × Position α) := (lengths path).zip path

end Vertices

theorem verticesFrom_zero (path : Path ℝ) : verticesFrom 0 path = vertices path := rfl

@[simp] theorem verticesFrom_nil (sum : ℝ) : verticesFrom sum [] = [] := rfl

@[simp] theorem verticesFrom_singleton (sum : ℝ) (p : Position ℝ) :
    verticesFrom sum [p] = [(sum, p)] := rfl

theorem verticesFrom_cons_cons (sum : ℝ) (p q : Position ℝ) (rest : Path ℝ) :
    verticesFrom sum (p :: q :: rest) =
      (sum, p) :: verticesFrom (sum + distance p q) (q :: rest) := rfl

theorem verticesFrom_eq_cons (sum : ℝ) (p : Position ℝ) (rest : Path ℝ) :
    ∃ later, verticesFrom sum (p :: rest) = (sum, p) :: later := by
  cases rest with
  | nil => exact ⟨[], rfl⟩
  | cons q rest => exact ⟨_, rfl⟩

theorem length_lengthsFrom (sum : ℝ) (path : Path ℝ) :
    (lengthsFrom sum path).length = path.length := by
  fun_induction lengthsFrom sum path with
  | case1 => rfl
  | case2 => rfl
  | case3 sum p q rest ih => simpa using ih

theorem map_snd_vertices (path : Path ℝ) : (vertices path).map Prod.snd = path :=
  List.map_snd_zip (length_lengthsFrom 0 path).ge

theorem mem_of_mem_vertices {path : Path ℝ} {v : ℝ × Position ℝ} (h : v ∈ vertices path) :
    v.2 ∈ path := by
  rw [← map_snd_vertices path]
  exact List.mem_map_of_mem h

theorem map_fst_vertices (path : Path ℝ) : (vertices path).map Prod.fst = lengths path :=
  List.map_fst_zip (length_lengthsFrom 0 path).le

def Follows (u v : ℝ × Position ℝ) : Prop := v.1 = u.1 + distance u.2 v.2

theorem verticesFrom_isChain (sum : ℝ) (path : Path ℝ) :
    (verticesFrom sum path).IsChain Follows := by
  induction path generalizing sum with
  | nil => simp
  | cons p rest ih =>
      cases rest with
      | nil => simp
      | cons q rest =>
          have hrest := ih (sum + distance p q)
          obtain ⟨later, hlater⟩ := verticesFrom_eq_cons (sum + distance p q) q rest
          rw [verticesFrom_cons_cons]
          rw [hlater] at hrest ⊢
          exact List.isChain_cons_cons.mpr ⟨rfl, hrest⟩

theorem vertices_isChain (path : Path ℝ) : (vertices path).IsChain Follows :=
  verticesFrom_isChain 0 path

theorem Follows.le {u v : ℝ × Position ℝ} (h : Follows u v) : u.1 ≤ v.1 := by
  rw [h]
  exact le_add_of_nonneg_right (distance_nonneg _ _)

theorem Follows.eq_iff {u v : ℝ × Position ℝ} (h : Follows u v) :
    u.1 = v.1 ↔ SamePlace u.2 v.2 := by
  rw [← distance_eq_zero_iff, h, eq_comm, add_eq_left]

/-- Arc lengths do not fall along a path. -/
theorem vertices_pairwise (path : Path ℝ) :
    (vertices path).Pairwise fun u v => u.1 ≤ v.1 := by
  have : IsTrans (ℝ × Position ℝ) fun u v => u.1 ≤ v.1 := ⟨fun _ _ _ => le_trans⟩
  exact ((vertices_isChain path).imp fun _ _ => Follows.le).pairwise

end Geospatial.Path
