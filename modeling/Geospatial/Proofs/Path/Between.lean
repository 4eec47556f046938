import Geospatial.Proofs.Path.Passing

/-!
# A position added on the way

A place between the ends of a segment divides it into two, and what stands along the segment stands
along one of them, its height between those of its ends as before. So a path passes the same points
with a position added there, and they are located at the same cuts.
-/

namespace Geospatial.Path

/-! ## Along the parts of a segment -/

namespace Along

variable {p q a b x : Position ℝ} {t u : ℝ}

theorem of_first (hx : Along x a b t) (hq : Along q a x u) : Along q a b (u * t) := by
  refine ⟨mul_nonneg hq.nonneg hx.nonneg, mul_le_one₀ hq.le_one hx.nonneg hx.le_one, ?_, ?_⟩
  · rw [hq.x_eq, hx.x_eq]
    ring
  · rw [hq.y_eq, hx.y_eq]
    ring

theorem first (hx : Along x a b t) (hq : Along q a b u) (ht : 0 < t) (hut : u ≤ t) :
    Along q a x (u / t) := by
  refine ⟨div_nonneg hq.nonneg hx.nonneg, (div_le_one ht).mpr hut, ?_, ?_⟩
  · rw [hq.x_eq, hx.x_eq]
    field_simp
    ring
  · rw [hq.y_eq, hx.y_eq]
    field_simp
    ring

theorem of_second (hx : Along x a b t) (hq : Along q x b u) :
    Along q a b (t + u * (1 - t)) := by
  have h := (hx.reverse.of_first hq.reverse).reverse
  rwa [show 1 - (1 - u) * (1 - t) = t + u * (1 - t) by ring] at h

theorem second (hx : Along x a b t) (hq : Along q a b u) (ht : t < 1) (htu : t ≤ u) :
    Along q x b ((u - t) / (1 - t)) := by
  have hpos : 0 < 1 - t := by linarith
  have h := (hx.reverse.first hq.reverse hpos (by linarith)).reverse
  rwa [show 1 - (1 - u) / (1 - t) = (u - t) / (1 - t) by field_simp; ring] at h

end Along

/-! ## The parts of a segment -/

section Parts

variable {p q a b : Position ℝ} {t u : ℝ}

theorem Along.cutPosition (h : Along p a b t) : Along (cutPosition p a b t) a b t :=
  h.congr (samePlace_cutPosition p a b t)

theorem cutPosition_first (p q a b : Position ℝ) (u : ℝ) (ht : t ≠ 0) :
    cutPosition q a (cutPosition p a b t) (u / t) = cutPosition q a b u := by
  cases ha : a.z with
  | none => simp [cutPosition, ha]
  | some za =>
      cases hb : b.z with
      | none => simp [cutPosition, ha, hb, Position.flat]
      | some zb =>
          simp only [cutPosition, ha, hb, Position.mk.injEq, Option.some.injEq, true_and]
          field_simp
          ring

theorem cutPosition_second (p q a b : Position ℝ) (u : ℝ) (ht : t ≠ 1) :
    cutPosition q (cutPosition p a b t) b ((u - t) / (1 - t)) = cutPosition q a b u := by
  have hne : 1 - t ≠ 0 := sub_ne_zero.mpr ht.symm
  cases ha : a.z with
  | none => simp [cutPosition, ha, Position.flat]
  | some za =>
      cases hb : b.z with
      | none => simp [cutPosition, ha, hb, Position.flat]
      | some zb =>
          simp only [cutPosition, ha, hb, Position.mk.injEq, Option.some.injEq, true_and]
          field_simp
          ring

end Parts

/-- A position between the ends of a segment: its place a fraction along it, and its height. -/
structure Between (x a b : Position ℝ) (t : ℝ) : Prop where
  along : Along x a b t
  pos : 0 < t
  lt_one : t < 1
  apart : ¬SamePlace a b
  height : ∃ p, x = cutPosition p a b t

namespace Between

variable {x a b q : Position ℝ} {t : ℝ} (h : Between x a b t)

include h

theorem distance_add : distance a x + distance x b = distance a b := by
  rw [h.along.distance_start, h.along.distance_stop]
  ring

theorem ne_start : ¬SamePlace a x := by
  rw [← distance_pos_iff, h.along.distance_start]
  exact mul_pos h.pos (distance_pos_iff.mpr h.apart)

theorem ne_stop : ¬SamePlace x b := by
  rw [← distance_pos_iff, h.along.distance_stop]
  exact mul_pos (sub_pos.mpr h.lt_one) (distance_pos_iff.mpr h.apart)

theorem totalLength_eq (rest : Path ℝ) :
    totalLength (a :: x :: b :: rest) = totalLength (a :: b :: rest) := by
  rw [totalLength_cons_cons, totalLength_cons_cons, totalLength_cons_cons, ← add_assoc,
    h.distance_add]

theorem passesFrom_iff {sum arc : ℝ} {rest : Path ℝ} :
    PassesFrom sum q arc (a :: x :: b :: rest) ↔ PassesFrom sum q arc (a :: b :: rest) := by
  have hstart := h.along.distance_start
  have hstop := h.along.distance_stop
  rw [passesFrom_cons_cons, passesFrom_cons_cons, passesFrom_cons_cons, add_assoc, h.distance_add]
  constructor
  · rintro (⟨u, hu, harc⟩ | ⟨u, hu, harc⟩ | hrest)
    · refine Or.inl ⟨u * t, h.along.of_first hu, ?_⟩
      rw [harc, hstart]
      ring
    · refine Or.inl ⟨t + u * (1 - t), h.along.of_second hu, ?_⟩
      rw [harc, hstart, hstop]
      ring
    · exact Or.inr hrest
  · rintro (⟨u, hu, harc⟩ | hrest)
    · rcases le_total u t with hut | htu
      · refine Or.inl ⟨u / t, h.along.first hu h.pos hut, ?_⟩
        rw [harc, hstart, ← mul_assoc, div_mul_cancel₀ u h.pos.ne']
      · have hne : 1 - t ≠ 0 := (sub_pos.mpr h.lt_one).ne'
        refine Or.inr (Or.inl ⟨(u - t) / (1 - t), h.along.second hu h.lt_one htu, ?_⟩)
        rw [harc, hstart, hstop, ← mul_assoc, div_mul_cancel₀ _ hne]
        ring
    · exact Or.inr (Or.inr hrest)

/-- A point before the added position is located on the part before it, at the same cut. -/
theorem cutOn_first (sum u : ℝ) :
    cutOn q (sum, a) (sum + distance a x, x) (u / t) = cutOn q (sum, a) (sum + distance a b, b) u := by
  obtain ⟨p, hp⟩ := h.height
  have harc : u / t * (t * distance a b) = u * distance a b := by
    rw [← mul_assoc, div_mul_cancel₀ u h.pos.ne']
  simp only [cutOn, add_sub_cancel_left, h.along.distance_start, harc]
  rw [hp, cutPosition_first p q a b u h.pos.ne']

theorem cutOn_second (sum u : ℝ) :
    cutOn q (sum + distance a x, x) (sum + distance a x + distance x b, b) ((u - t) / (1 - t)) =
      cutOn q (sum, a) (sum + distance a b, b) u := by
  obtain ⟨p, hp⟩ := h.height
  have hne : 1 - t ≠ 0 := (sub_pos.mpr h.lt_one).ne'
  have harc : sum + t * distance a b + (u - t) / (1 - t) * ((1 - t) * distance a b) =
      sum + u * distance a b := by
    rw [← mul_assoc, div_mul_cancel₀ _ hne]
    ring
  simp only [cutOn, add_sub_cancel_left, h.along.distance_start, h.along.distance_stop, harc]
  rw [hp, cutPosition_second p q a b u h.lt_one.ne]

/-- Points are located at the same cuts with the position added. -/
theorem locateOnPath_eq (sum : ℝ) (rest : Path ℝ) :
    locateOnPath q 0 sum (a :: x :: b :: rest) = locateOnPath q 0 sum (a :: b :: rest) := by
  cases hloc : locate q a b 0 with
  | none =>
      have hnone := locate_zero_eq_none_iff.mp hloc
      have hfirst : locate q a x 0 = none :=
        locate_zero_eq_none_iff.mpr fun u hu => hnone _ (h.along.of_first hu)
      have hsecond : locate q x b 0 = none :=
        locate_zero_eq_none_iff.mpr fun u hu => hnone _ (h.along.of_second hu)
      rw [locateOnPath_of_none _ _ hfirst, locateOnPath_of_none _ _ hsecond,
        locateOnPath_of_none _ _ hloc, add_assoc, h.distance_add]
  | some u =>
      have hu := along_of_locate_zero hloc
      rw [locateOnPath_of_some sum rest hloc]
      by_cases hut : u ≤ t
      · have hfirst := (locate_zero_iff h.ne_start).mpr (h.along.first hu h.pos hut)
        rw [locateOnPath_of_some _ _ hfirst, h.cutOn_first]
      · have hfirst : locate q a x 0 = none := by
          refine locate_zero_eq_none_iff.mpr fun v hv => hut ?_
          rw [hu.unique (h.along.of_first hv) h.apart]
          exact mul_le_of_le_one_left h.pos.le hv.le_one
        have hsecond := (locate_zero_iff h.ne_stop).mpr
          (h.along.second hu h.lt_one (not_le.mp hut).le)
        rw [locateOnPath_of_none _ _ hfirst, locateOnPath_of_some _ _ hsecond, h.cutOn_second]

end Between

/-! ## Paths with a position added -/

section Added

variable {front rest : Path ℝ} {x a b : Position ℝ} {t : ℝ} (h : Between x a b t)

include h

theorem totalLength_added :
    totalLength (front ++ a :: x :: b :: rest) = totalLength (front ++ a :: b :: rest) := by
  rw [totalLength_append, h.totalLength_eq, ← totalLength_append]

theorem locateOnPath_added (p : Position ℝ) :
    locateOnPath p 0 0 (front ++ a :: x :: b :: rest) =
      locateOnPath p 0 0 (front ++ a :: b :: rest) := by
  rw [locateOnPath_append, h.locateOnPath_eq, ← locateOnPath_append]

theorem passesFrom_added {p : Position ℝ} {arc : ℝ} :
    PassesFrom 0 p arc (front ++ a :: x :: b :: rest) ↔
      PassesFrom 0 p arc (front ++ a :: b :: rest) := by
  rw [passesFrom_append, h.passesFrom_iff, ← passesFrom_append]

theorem simple_added (hsimple : Simple (front ++ a :: b :: rest)) :
    Simple (front ++ a :: x :: b :: rest) := by
  intro p s t hs ht hlt
  rw [totalLength_added h]
  exact hsimple p s t ((passesFrom_added h).mp hs) ((passesFrom_added h).mp ht) hlt

theorem vertices_added :
    ∃ later, vertices (front ++ a :: b :: rest) =
        vertices (front ++ [a]) ++ (totalLength (front ++ [a]) + distance a b, b) :: later ∧
      vertices (front ++ a :: x :: b :: rest) =
        vertices (front ++ [a]) ++ (totalLength (front ++ [a]) + t * distance a b, x) ::
          (totalLength (front ++ [a]) + distance a b, b) :: later := by
  have hx : totalLength (front ++ [a] ++ [x]) = totalLength (front ++ [a]) + t * distance a b := by
    rw [totalLength_concat, h.along.distance_start]
  have hb : totalLength (front ++ [a]) + t * distance a b + distance x b =
      totalLength (front ++ [a]) + distance a b := by
    rw [← h.along.distance_start, add_assoc, h.distance_add]
  have hbefore := verticesFrom_append 0 (front ++ [a]) rest b
  have hadded := verticesFrom_append 0 (front ++ [a]) (b :: rest) x
  obtain ⟨later, hlater⟩ :=
    verticesFrom_eq_cons (totalLength (front ++ [a]) + distance a b) b rest
  rw [List.append_assoc, List.singleton_append, zero_add, totalLength_concat, hlater] at hbefore
  rw [List.append_assoc, List.singleton_append, zero_add, hx, verticesFrom_cons_cons, hb,
    hlater] at hadded
  exact ⟨later, hbefore, hadded⟩

/-- The cuts of a path are the same with a position added. -/
theorem cuts_added (points : List (Position ℝ)) :
    cuts (front ++ a :: x :: b :: rest) points 0 = cuts (front ++ a :: b :: rest) points 0 := by
  unfold cuts located
  simp only [lengths_getLast?, totalLength_added h, locateOnPath_added h]

end Added

end Geospatial.Path
