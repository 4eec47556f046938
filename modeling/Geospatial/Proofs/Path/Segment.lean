import Geospatial.Proofs.Path.Locate

/-!
# Points and segments

The place at which a point is located on a segment is measured on the axis on which the segment moves
the most, while the nearest place decides whether it is located there at all. The measured place is
at most twice as far in square as any other of the segment, so that a point on the segment is located
where it stands. From the other end of the segment it is located at the same place.
-/

namespace Geospatial.Path

/-! ## Along a segment -/

/-- A point stands a fraction along a segment. -/
structure Along (p start stop : Position ℝ) (t : ℝ) : Prop where
  nonneg : 0 ≤ t
  le_one : t ≤ 1
  x_eq : p.x = start.x + t * (stop.x - start.x)
  y_eq : p.y = start.y + t * (stop.y - start.y)

theorem distance_congr {p q p' q' : Position ℝ} (hp : SamePlace p p') (hq : SamePlace q q') :
    distance p q = distance p' q' := by
  unfold distance
  rw [hp.1, hp.2, hq.1, hq.2]

namespace Along

variable {p q start stop : Position ℝ} {t u : ℝ}

theorem congr (h : Along p start stop t) (hplace : SamePlace q p) : Along q start stop t :=
  ⟨h.nonneg, h.le_one, hplace.1.trans h.x_eq, hplace.2.trans h.y_eq⟩

theorem congr_ends {start' stop' : Position ℝ} (h : Along p start stop t)
    (hstart : SamePlace start start') (hstop : SamePlace stop stop') : Along p start' stop' t := by
  obtain ⟨h0, h1, hx, hy⟩ := h
  rw [hstart.1, hstop.1] at hx
  rw [hstart.2, hstop.2] at hy
  exact ⟨h0, h1, hx, hy⟩

theorem at_start (start stop : Position ℝ) : Along start start stop 0 :=
  ⟨le_rfl, zero_le_one, by ring, by ring⟩

theorem at_stop (start stop : Position ℝ) : Along stop start stop 1 :=
  ⟨zero_le_one, le_rfl, by ring, by ring⟩

/-- On a segment without length every fraction is at its start. -/
theorem of_samePlace (h : Along p start stop t) (hends : SamePlace start stop) :
    SamePlace p start := by
  have hx := h.x_eq
  have hy := h.y_eq
  rw [← hends.1, sub_self, mul_zero, add_zero] at hx
  rw [← hends.2, sub_self, mul_zero, add_zero] at hy
  exact ⟨hx, hy⟩

theorem samePlace (hp : Along p start stop t) (hq : Along q start stop t) : SamePlace p q :=
  ⟨hp.x_eq.trans hq.x_eq.symm, hp.y_eq.trans hq.y_eq.symm⟩

theorem axisFraction_eq {value a extent : ℝ} (h0 : 0 ≤ t) (h1 : t ≤ 1) (hext : extent ≠ 0)
    (h : value = a + t * extent) : axisFraction value a extent = t := by
  have hne : (extent == 0) = false := by simpa using hext
  have hquot : (value - a) / extent = t := by
    rw [h]
    field_simp
    ring
  simp only [axisFraction, hne, hquot]
  exact clampUnit_of_mem h0 h1

/-- Along a segment with length the fraction is the one that is measured. -/
theorem dominantFraction_eq (h : Along p start stop t) (hends : ¬SamePlace start stop) :
    dominantFraction p start stop = t := by
  rw [Path.dominantFraction_eq]
  by_cases hle : |stop.y - start.y| ≤ |stop.x - start.x|
  · rw [if_pos hle]
    exact axisFraction_eq h.nonneg h.le_one (moves_of_dominant_x hends hle) h.x_eq
  · rw [if_neg hle]
    exact axisFraction_eq h.nonneg h.le_one (moves_of_dominant_y hle) h.y_eq

/-- A point along a segment stands where it is measured; on a segment without length it stands at
every fraction. -/
theorem measured (h : Along p start stop t) :
    Along p start stop (Path.dominantFraction p start stop) := by
  by_cases hends : SamePlace start stop
  · obtain ⟨h0, h1⟩ := dominantFraction_mem_unit p start stop
    have hp := h.of_samePlace hends
    refine ⟨h0, h1, ?_, ?_⟩
    · rw [hp.1, hends.1]
      ring
    · rw [hp.2, hends.2]
      ring
  · rwa [h.dominantFraction_eq hends]

theorem unique (hp : Along p start stop t) (hu : Along p start stop u)
    (hends : ¬SamePlace start stop) : t = u := by
  rw [← hp.dominantFraction_eq hends, hu.dominantFraction_eq hends]

theorem distance_eq (hp : Along p start stop t) (hq : Along q start stop u) :
    distance p q = |u - t| * distance start stop := by
  have hsq : (q.x - p.x) ^ 2 + (q.y - p.y) ^ 2 =
      (u - t) ^ 2 * ((stop.x - start.x) ^ 2 + (stop.y - start.y) ^ 2) := by
    rw [hp.x_eq, hp.y_eq, hq.x_eq, hq.y_eq]
    ring
  simp only [distance, sqrt_real, ← sq]
  rw [hsq, Real.sqrt_mul (sq_nonneg _), Real.sqrt_sq_eq_abs]

theorem distance_start (h : Along p start stop t) :
    distance start p = t * distance start stop := by
  rw [(at_start start stop).distance_eq h, sub_zero, abs_of_nonneg h.nonneg]

theorem reverse (h : Along p start stop t) : Along p stop start (1 - t) := by
  refine ⟨sub_nonneg.mpr h.le_one, sub_le_self 1 h.nonneg, ?_, ?_⟩
  · rw [h.x_eq]
    ring
  · rw [h.y_eq]
    ring

end Along

theorem distance_comm (p q : Position ℝ) : distance p q = distance q p := by
  unfold distance
  congr 1
  ring

theorem distance_sq (p q : Position ℝ) :
    distance p q ^ 2 = (q.x - p.x) ^ 2 + (q.y - p.y) ^ 2 := by
  simp only [distance, sqrt_real, ← sq]
  exact Real.sq_sqrt (add_nonneg (sq_nonneg _) (sq_nonneg _))

theorem Along.distance_stop {p start stop : Position ℝ} {t : ℝ} (h : Along p start stop t) :
    distance p stop = (1 - t) * distance start stop := by
  rw [distance_comm p stop, h.reverse.distance_start, distance_comm stop start]

/-! ## The nearest place -/

/-- The place of a segment nearest to a point stands a fraction along it. -/
theorem exists_along_nearest (p start stop : Position ℝ) :
    ∃ t, Along (nearest p start stop) start stop t := by
  unfold nearest
  by_cases hsq : 0 < (stop.x - start.x) * (stop.x - start.x) +
      (stop.y - start.y) * (stop.y - start.y)
  · simp only [if_pos hsq]
    exact ⟨_, clampUnit_nonneg _, clampUnit_le_one _, rfl, rfl⟩
  · simp only [if_neg hsq]
    exact ⟨0, le_rfl, zero_le_one, by ring, by ring⟩

theorem nearest_of_along {p start stop : Position ℝ} {t : ℝ} (h : Along p start stop t) :
    SamePlace (nearest p start stop) p := by
  unfold nearest
  by_cases hsq : 0 < (stop.x - start.x) * (stop.x - start.x) +
      (stop.y - start.y) * (stop.y - start.y)
  · have hquot : ((p.x - start.x) * (stop.x - start.x) + (p.y - start.y) * (stop.y - start.y)) /
        ((stop.x - start.x) * (stop.x - start.x) + (stop.y - start.y) * (stop.y - start.y)) = t := by
      rw [div_eq_iff hsq.ne', h.x_eq, h.y_eq]
      ring
    simp only [if_pos hsq, hquot, clampUnit_of_mem h.nonneg h.le_one]
    exact ⟨h.x_eq.symm, h.y_eq.symm⟩
  · simp only [if_neg hsq]
    have hp := h.of_samePlace (samePlace_of_square_nonpos hsq)
    exact ⟨hp.1.symm, hp.2.symm⟩

/-- A number and any of `[0, 1]` lie on different sides of the nearest of `[0, 1]`. -/
theorem clampUnit_between {t s : ℝ} (h0 : 0 ≤ s) (h1 : s ≤ 1) :
    0 ≤ (t - clampUnit t) * (clampUnit t - s) := by
  rcases le_total t 0 with ht | ht
  · rw [clampUnit_of_nonpos ht]
    nlinarith
  · rcases le_total t 1 with ht1 | ht1
    · rw [clampUnit_of_mem ht ht1]
      simp
    · rw [clampUnit_of_one_le ht1]
      nlinarith

theorem clampUnit_nearest (t : ℝ) {s : ℝ} (h0 : 0 ≤ s) (h1 : s ≤ 1) :
    (clampUnit t - t) ^ 2 ≤ (s - t) ^ 2 := by
  have hbetween := clampUnit_between (t := t) h0 h1
  have hsq := sq_nonneg (clampUnit t - s)
  linarith

/-- No place of a segment is nearer to a point than the nearest one. -/
theorem distance_nearest_le {p q a b : Position ℝ} {s : ℝ} (hq : Along q a b s) :
    distance (nearest p a b) p ≤ distance q p := by
  unfold nearest
  by_cases hsq : 0 < (b.x - a.x) * (b.x - a.x) + (b.y - a.y) * (b.y - a.y)
  · simp only [if_pos hsq]
    generalize hT : ((p.x - a.x) * (b.x - a.x) + (p.y - a.y) * (b.y - a.y)) /
      ((b.x - a.x) * (b.x - a.x) + (b.y - a.y) * (b.y - a.y)) = t
    rw [div_eq_iff hsq.ne'] at hT
    have hle := mul_le_mul_of_nonneg_left (clampUnit_nearest t hq.nonneg hq.le_one) hsq.le
    have hplace : distance q p =
        distance ⟨a.x + s * (b.x - a.x), a.y + s * (b.y - a.y), none⟩ p :=
      distance_congr ⟨hq.x_eq, hq.y_eq⟩ ⟨rfl, rfl⟩
    rw [hplace]
    refine Real.sqrt_le_sqrt ?_
    linear_combination hle + 2 * (s - clampUnit t) * hT
  · simp only [if_neg hsq]
    have hplace := hq.of_samePlace (samePlace_of_square_nonpos hsq)
    exact (distance_congr (SamePlace.symm hplace) ⟨rfl, rfl⟩).le

theorem lt_distance_of_locate_none {p q a b : Position ℝ} {tolerance s : ℝ}
    (h : locate p a b tolerance = none) (hq : Along q a b s) : tolerance < distance q p := by
  by_contra hle
  have hnear := (distance_nearest_le hq).trans (not_lt.mp hle)
  rw [locate_eq_some_iff.mpr ⟨hnear, rfl⟩] at h
  cases h

/-! ## The measured place -/

/-- Measured on the axis with the larger extent, a place is at most twice as far in square as any
other place of the segment. The other axis goes from `other` over `side`. -/
theorem axisFraction_drift {value start extent across other side s : ℝ} (h0 : 0 ≤ s) (h1 : s ≤ 1)
    (hext : extent ≠ 0) (hside : |side| ≤ |extent|) :
    (value - (start + axisFraction value start extent * extent)) ^ 2 +
        (across - (other + axisFraction value start extent * side)) ^ 2 ≤
      2 * ((value - (start + s * extent)) ^ 2 + (across - (other + s * side)) ^ 2) := by
  have hne : (extent == 0) = false := by simpa using hext
  have hvalue : value = start + (value - start) / extent * extent := by
    field_simp
    ring
  simp only [axisFraction, hne]
  generalize (value - start) / extent = t at hvalue ⊢
  have hobtuse := mul_nonneg (clampUnit_between (t := t) h0 h1) (sq_nonneg extent)
  have hsides : side ^ 2 ≤ extent ^ 2 := sq_le_sq.mpr hside
  have hmoved := mul_le_mul_of_nonneg_left hsides (sq_nonneg (clampUnit t - s))
  have hsum := sq_nonneg ((across - (other + s * side)) + (clampUnit t - s) * side)
  have hrest := sq_nonneg ((t - clampUnit t) * extent)
  rw [hvalue]
  simp only [Bool.false_eq_true, if_false]
  linarith

theorem Along.drift {p q n start stop : Position ℝ} {s : ℝ} (hn : Along n start stop s)
    (hq : Along q start stop (dominantFraction p start stop)) :
    (p.x - q.x) ^ 2 + (p.y - q.y) ^ 2 ≤ 2 * ((p.x - n.x) ^ 2 + (p.y - n.y) ^ 2) := by
  by_cases hends : SamePlace start stop
  · have hplace := (hq.of_samePlace hends).trans (hn.of_samePlace hends).symm
    rw [hplace.1, hplace.2]
    linarith [sq_nonneg (p.x - n.x), sq_nonneg (p.y - n.y)]
  · rw [hq.x_eq, hq.y_eq, hn.x_eq, hn.y_eq, Path.dominantFraction_eq]
    by_cases hle : |stop.y - start.y| ≤ |stop.x - start.x|
    · rw [if_pos hle]
      exact axisFraction_drift hn.nonneg hn.le_one (moves_of_dominant_x hends hle) hle
    · rw [if_neg hle, add_comm, add_comm ((p.x - _) ^ 2)]
      exact axisFraction_drift hn.nonneg hn.le_one (moves_of_dominant_y hle) (not_le.mp hle).le

theorem exists_along (start stop : Position ℝ) {t : ℝ} (h : 0 ≤ t ∧ t ≤ 1) :
    ∃ q, Along q start stop t :=
  ⟨⟨start.x + t * (stop.x - start.x), start.y + t * (stop.y - start.y), none⟩, h.1, h.2, rfl, rfl⟩

/-- A located point is not far from the place of the segment that its fraction tells. -/
theorem locate_drift {p start stop : Position ℝ} {tolerance t : ℝ}
    (h : locate p start stop tolerance = some t) :
    ∃ q, Along q start stop t ∧ distance q p ≤ √2 * tolerance := by
  obtain ⟨hnear, rfl⟩ := locate_eq_some_iff.mp h
  obtain ⟨s, hs⟩ := exists_along_nearest p start stop
  obtain ⟨q, hq⟩ := exists_along start stop (dominantFraction_mem_unit p start stop)
  refine ⟨q, hq, ?_⟩
  calc distance q p ≤ √2 * distance (nearest p start stop) p := by
        simp only [distance, sqrt_real, ← sq]
        rw [← Real.sqrt_mul zero_le_two]
        exact Real.sqrt_le_sqrt (hs.drift hq)
    _ ≤ √2 * tolerance := mul_le_mul_of_nonneg_left hnear (Real.sqrt_nonneg 2)

/-! ## Without tolerance -/

theorem locate_zero_of_along {p start stop : Position ℝ} {t : ℝ} (h : Along p start stop t) :
    locate p start stop 0 = some (dominantFraction p start stop) := by
  refine locate_eq_some_iff.mpr ⟨?_, rfl⟩
  rw [distance_eq_zero_iff.mpr (nearest_of_along h)]

theorem along_of_locate_zero {p start stop : Position ℝ} {t : ℝ}
    (h : locate p start stop 0 = some t) : Along p start stop t := by
  obtain ⟨hdist, rfl⟩ := locate_eq_some_iff.mp h
  have hplace := distance_eq_zero_iff.mp (le_antisymm hdist (distance_nonneg _ _))
  obtain ⟨u, hnearest⟩ := exists_along_nearest p start stop
  exact (hnearest.congr hplace.symm).measured

theorem locate_zero_iff {p start stop : Position ℝ} {t : ℝ} (hends : ¬SamePlace start stop) :
    locate p start stop 0 = some t ↔ Along p start stop t := by
  refine ⟨along_of_locate_zero, fun h => ?_⟩
  rw [locate_zero_of_along h, h.dominantFraction_eq hends]

theorem locate_zero_eq_none_iff {p start stop : Position ℝ} :
    locate p start stop 0 = none ↔ ∀ t, ¬Along p start stop t := by
  constructor
  · intro hnone t h
    rw [locate_zero_of_along h] at hnone
    cases hnone
  · intro h
    cases hloc : locate p start stop 0 with
    | none => rfl
    | some t => exact absurd (along_of_locate_zero hloc) (h t)

/-! ## From the other end -/

theorem nearest_reverse (p a b : Position ℝ) : nearest p b a = nearest p a b := by
  have hsq : (a.x - b.x) * (a.x - b.x) + (a.y - b.y) * (a.y - b.y) =
      (b.x - a.x) * (b.x - a.x) + (b.y - a.y) * (b.y - a.y) := by ring
  unfold nearest
  simp only [hsq]
  by_cases hpos : 0 < (b.x - a.x) * (b.x - a.x) + (b.y - a.y) * (b.y - a.y)
  · have hquot : ((p.x - b.x) * (a.x - b.x) + (p.y - b.y) * (a.y - b.y)) /
        ((b.x - a.x) * (b.x - a.x) + (b.y - a.y) * (b.y - a.y)) =
      1 - ((p.x - a.x) * (b.x - a.x) + (p.y - a.y) * (b.y - a.y)) /
        ((b.x - a.x) * (b.x - a.x) + (b.y - a.y) * (b.y - a.y)) := by
      rw [eq_sub_iff_add_eq, ← add_div, div_eq_one_iff_eq hpos.ne']
      ring
    rw [if_pos hpos, if_pos hpos, hquot, clampUnit_one_sub]
    simp only [Position.mk.injEq, and_true]
    constructor <;> ring
  · have hends := samePlace_of_square_nonpos hpos
    rw [if_neg hpos, if_neg hpos, hends.1, hends.2]

theorem axisFraction_reverse (value : ℝ) {a b : ℝ} (h : b - a ≠ 0) :
    axisFraction value b (a - b) = 1 - axisFraction value a (b - a) := by
  have hba : ((b - a) == 0) = false := by simpa using h
  have hab : ((a - b) == 0) = false := by
    rw [beq_eq_false_iff_ne, ← neg_sub]
    exact neg_ne_zero.mpr h
  have hquot : (value - b) / (a - b) = 1 - (value - a) / (b - a) := by
    rw [← neg_sub b a, eq_sub_iff_add_eq, div_neg, ← sub_eq_neg_add, ← sub_div, div_eq_one_iff_eq h]
    ring
  simp only [axisFraction, hba, hab, hquot]
  exact clampUnit_one_sub _

theorem dominantFraction_reverse (p : Position ℝ) {a b : Position ℝ} (h : ¬SamePlace a b) :
    dominantFraction p b a = 1 - dominantFraction p a b := by
  rw [dominantFraction_eq, dominantFraction_eq, abs_sub_comm a.y, abs_sub_comm a.x]
  by_cases hle : |b.y - a.y| ≤ |b.x - a.x|
  · rw [if_pos hle, if_pos hle]
    exact axisFraction_reverse p.x (moves_of_dominant_x h hle)
  · rw [if_neg hle, if_neg hle]
    exact axisFraction_reverse p.y (moves_of_dominant_y hle)

theorem locate_reverse (p : Position ℝ) {a b : Position ℝ} (tolerance : ℝ)
    (hab : ¬SamePlace a b) :
    locate p b a tolerance = (locate p a b tolerance).map (1 - ·) := by
  unfold locate
  rw [nearest_reverse, dominantFraction_reverse p hab]
  split <;> rfl

/-! ## Where a point is located -/

/-- A fraction of a segment is a place for a point: within `√2` times the tolerance, and its own
place for a point of the segment. -/
structure Placed (p a b : Position ℝ) (tolerance t : ℝ) : Prop where
  nonneg : 0 ≤ t
  le_one : t ≤ 1
  near : (p.x - (a.x + t * (b.x - a.x))) ^ 2 + (p.y - (a.y + t * (b.y - a.y))) ^ 2 ≤
    2 * tolerance ^ 2
  own : ∀ s, Along p a b s → Along p a b t

theorem exists_locate_iff {p a b : Position ℝ} {tolerance : ℝ} :
    (∃ t, locate p a b tolerance = some t) ↔
      ∃ q s, Along q a b s ∧ distance q p ≤ tolerance := by
  constructor
  · rintro ⟨t, ht⟩
    obtain ⟨s, hs⟩ := exists_along_nearest p a b
    exact ⟨nearest p a b, s, hs, (locate_eq_some_iff.mp ht).1⟩
  · rintro ⟨q, s, hq, hnear⟩
    exact ⟨_, locate_eq_some_iff.mpr ⟨(distance_nearest_le hq).trans hnear, rfl⟩⟩

theorem placed_of_locate {p a b : Position ℝ} {tolerance t : ℝ}
    (h : locate p a b tolerance = some t) : Placed p a b tolerance t := by
  obtain ⟨q, hq, hdrift⟩ := locate_drift h
  refine ⟨hq.nonneg, hq.le_one, ?_, fun s hs => ?_⟩
  · have hsq : distance q p ^ 2 ≤ (√2 * tolerance) ^ 2 :=
      pow_le_pow_left₀ (distance_nonneg q p) hdrift 2
    rwa [distance_sq, mul_pow, Real.sq_sqrt zero_le_two, hq.x_eq, hq.y_eq] at hsq
  · rw [← (locate_eq_some_iff.mp h).2]
    exact hs.measured

/-- A point is located exactly when the segment comes within the tolerance of it, at a place for it
that does not depend on the end from which the segment is taken. -/
theorem locate_places (p a b : Position ℝ) (tolerance : ℝ) :
    ((∃ t, locate p a b tolerance = some t) ↔
        ∃ q s, Along q a b s ∧ distance q p ≤ tolerance) ∧
      (∀ t, locate p a b tolerance = some t → Placed p a b tolerance t) ∧
      (¬SamePlace a b → locate p b a tolerance = (locate p a b tolerance).map (1 - ·)) :=
  ⟨exists_locate_iff, fun _ => placed_of_locate, locate_reverse p tolerance⟩

/-- The nearest place of a segment is at three fifths, the measured one at three quarters. -/
theorem locate_places_near :
    let p : Position ℝ := ⟨1, 3, none⟩
    let a : Position ℝ := ⟨0, 0, none⟩
    let b : Position ℝ := ⟨3, 4, none⟩
    ¬SamePlace a b ∧ locate p a b 1 = some (3 / 4) ∧ Placed p a b 1 (3 / 4) ∧
      locate p b a 1 = some (1 / 4) := by
  intro p a b
  have hab : ¬SamePlace a b := by norm_num [SamePlace, a, b]
  obtain ⟨hlocated, hplaced, hreverse⟩ := locate_places p a b 1
  have hnear : distance (⟨9 / 5, 12 / 5, none⟩ : Position ℝ) p = 1 :=
    distance_eq_of_sq (by norm_num) (by norm_num)
  obtain ⟨t, ht⟩ := hlocated.mpr
    ⟨⟨9 / 5, 12 / 5, none⟩, 3 / 5, ⟨by norm_num, by norm_num, by norm_num, by norm_num⟩, hnear.le⟩
  have hquarters : t = 3 / 4 := by
    rw [← (locate_eq_some_iff.mp ht).2, dominantFraction_eq, if_neg (by norm_num)]
    exact Along.axisFraction_eq (by norm_num) (by norm_num) (by norm_num) (by norm_num)
  rw [hquarters] at ht
  refine ⟨hab, ht, hplaced _ ht, ?_⟩
  rw [hreverse hab, ht, Option.map_some]
  norm_num

end Geospatial.Path
