import Geospatial.Proofs.Path.Passing
import Geospatial.Proofs.Path.Pieces
import Mathlib.Analysis.InnerProductSpace.PiL2

/-!
# The detour through the cuts

A point that is located on a segment lies within `√2` times the tolerance of the place that is
measured for it, as the axis of the measure is the one on which the segment moves the most. So the
way through all stops is no shorter than the path, and longer by no more than there and back at
every cut. The pieces share it out; those that are dropped have no part of it.
-/

namespace Geospatial.Path

/-! ## Distances in a triangle -/

theorem distance_eq_dist (p q : Position ℝ) :
    distance p q = dist !₂[p.x, p.y] !₂[q.x, q.y] := by
  rw [dist_comm, EuclideanSpace.dist_eq]
  simp [distance, sqrt_real, Real.dist_eq, sq]

theorem distance_triangle (p q r : Position ℝ) : distance p r ≤ distance p q + distance q r := by
  simp only [distance_eq_dist]
  exact dist_triangle _ _ _

/-- Going over one more position is no shorter. -/
theorem totalLength_cons_le (a b : Position ℝ) (rest : Path ℝ) :
    totalLength (a :: rest) ≤ totalLength (a :: b :: rest) := by
  cases rest with
  | nil => exact totalLength_nonneg _
  | cons c rest =>
      simp only [totalLength_cons_cons]
      linarith [distance_triangle a b c]

theorem totalLength_le_cons (a : Position ℝ) (rest : Path ℝ) :
    totalLength rest ≤ totalLength (a :: rest) := by
  cases rest with
  | nil => exact le_rfl
  | cons b rest => exact le_add_of_nonneg_left (distance_nonneg a b)

theorem totalLength_cons_sublist {short long : Path ℝ} (h : short.Sublist long)
    (a : Position ℝ) : totalLength (a :: short) ≤ totalLength (a :: long) := by
  induction h generalizing a with
  | slnil => exact le_rfl
  | cons b _ ih => exact (ih a).trans (totalLength_cons_le a b _)
  | cons_cons b _ ih =>
      simp only [totalLength_cons_cons]
      exact add_le_add_right (ih b) _

/-- Positions left out of a path make it no longer. -/
theorem totalLength_sublist {short long : Path ℝ} (h : short.Sublist long) :
    totalLength short ≤ totalLength long := by
  induction h with
  | slnil => exact le_rfl
  | cons b _ ih => exact ih.trans (totalLength_le_cons b _)
  | cons_cons b h _ => exact totalLength_cons_sublist h b

/-! ## From stop to stop -/

/-- Along a segment distances are differences of arc lengths. -/
theorem Along.distance_of_arcs {q r : Position ℝ} {u v : ℝ × Position ℝ} {t w a b : ℝ}
    (hq : Along q u.2 v.2 t) (hr : Along r u.2 v.2 w) (huv : Follows u v)
    (ha : a = u.1 + t * (v.1 - u.1)) (hb : b = u.1 + w * (v.1 - u.1)) (hle : a ≤ b) :
    distance q r = b - a := by
  have hgap : v.1 - u.1 = distance u.2 v.2 := sub_eq_of_eq_add' huv
  have hdiff : (w - t) * distance u.2 v.2 = b - a := by
    rw [ha, hb, hgap]
    ring
  rw [hq.distance_eq hr, ← abs_of_nonneg (distance_nonneg u.2 v.2), ← abs_mul, hdiff,
    abs_of_nonneg (sub_nonneg.mpr hle)]

theorem Along.distance_stop_of_arc {q : Position ℝ} {u v : ℝ × Position ℝ} {t a : ℝ}
    (hq : Along q u.2 v.2 t) (huv : Follows u v) (ha : a = u.1 + t * (v.1 - u.1)) :
    distance q v.2 = v.1 - a := by
  refine hq.distance_of_arcs (Along.at_stop u.2 v.2) huv ha (by ring) ?_
  have hmul := mul_le_mul_of_nonneg_right hq.le_one (sub_nonneg.mpr huv.le)
  linarith

/-- How far a stop is at most from the point of the path at its arc length, where a cut is at most
`off` from it. -/
noncomputable def Stop.drift (off : ℝ) (s : Stop ℝ) : ℝ := if s.cut?.isSome then off else 0

theorem Stop.drift_nonneg {off : ℝ} (hoff : 0 ≤ off) (s : Stop ℝ) : 0 ≤ s.drift off := by
  unfold Stop.drift
  split
  · exact hoff
  · exact le_rfl

theorem Stop.drift_of_uncut (off : ℝ) {s : Stop ℝ} (h : s.cut? = none) : s.drift off = 0 := by
  simp [drift, h]

theorem sum_drift (off : ℝ) (way : List (Stop ℝ)) :
    (way.map (Stop.drift off)).sum = off * (way.filterMap Stop.cut?).length := by
  induction way with
  | nil => simp
  | cons s rest ih =>
      rw [List.map_cons, List.sum_cons, ih]
      cases hcut : s.cut? with
      | none => rw [Stop.drift_of_uncut off hcut, List.filterMap_cons_none hcut, zero_add]
      | some cut =>
          rw [List.filterMap_cons_some hcut, List.length_cons, Nat.cast_succ]
          simp only [Stop.drift, hcut, Option.isSome_some, if_true]
          ring

def Beside (off : ℝ) (u v : ℝ × Position ℝ) (s : Stop ℝ) : Prop :=
  ∃ q t, Along q u.2 v.2 t ∧ s.arc = u.1 + t * (v.1 - u.1) ∧ distance q s.place ≤ s.drift off

/-- From one stop to the next it is no farther than along the path and to the path and back. -/
def Detours (off : ℝ) (s t : Stop ℝ) : Prop :=
  distance s.place t.place ≤ s.drift off + (t.arc - s.arc) + t.drift off

theorem Beside.detours_stop {off : ℝ} (hoff : 0 ≤ off) {u v : ℝ × Position ℝ} {s : Stop ℝ}
    (h : Beside off u v s) (huv : Follows u v) (cut : Option (Cut ℝ)) :
    Detours off s (.vertex v.1 v.2 cut) := by
  obtain ⟨q, t, hq, harc, hdrift⟩ := h
  have hnext := Stop.drift_nonneg hoff (.vertex v.1 v.2 cut)
  unfold Detours
  calc distance s.place v.2 ≤ distance s.place q + distance q v.2 := distance_triangle _ _ _
    _ ≤ s.drift off + (v.1 - s.arc) := by
        rw [distance_comm s.place, hq.distance_stop_of_arc huv harc]
        exact add_le_add_left hdrift _
    _ ≤ s.drift off + (v.1 - s.arc) + _ := le_add_of_nonneg_right hnext

theorem Beside.detours_inserted {off : ℝ} {u v : ℝ × Position ℝ} {s : Stop ℝ} {cut : Cut ℝ}
    (h : Beside off u v s) (hcut : Beside off u v (.inserted cut)) (huv : Follows u v)
    (hlt : s.arc < cut.arc) : Detours off s (.inserted cut) := by
  obtain ⟨q, t, hq, harc, hdrift⟩ := h
  obtain ⟨r, w, hr, harc', hdrift'⟩ := hcut
  have hbetween : distance q r = cut.arc - s.arc := hq.distance_of_arcs hr huv harc harc' hlt.le
  unfold Detours
  calc distance s.place cut.place
      ≤ distance s.place q + distance q cut.place := distance_triangle _ _ _
    _ ≤ distance q s.place + (distance q r + distance r cut.place) := by
        rw [distance_comm s.place]
        exact add_le_add_right (distance_triangle _ _ _) _
    _ ≤ s.drift off + (cut.arc - s.arc) + (Stop.inserted cut).drift off := by
        rw [hbetween, add_assoc]
        exact add_le_add hdrift (add_le_add_right hdrift' _)

theorem detours_carries {off : ℝ} (hoff : 0 ≤ off) : Carries (Beside off) (Detours off) where
  start u v cut := by
    refine ⟨u.2, 0, Along.at_start u.2 v.2, by simp, ?_⟩
    rw [Stop.place_vertex, distance_eq_zero_iff.mpr ⟨rfl, rfl⟩]
    exact Stop.drift_nonneg hoff _
  stop huv hs cut := hs.detours_stop hoff huv cut
  inserted huv hs hcut hlt := hs.detours_inserted hcut huv hlt

theorem cutOn_beside {p : Position ℝ} {u v : ℝ × Position ℝ} {tolerance t : ℝ}
    (h : locate p u.2 v.2 tolerance = some t) :
    Beside (√2 * tolerance) u v (.inserted (cutOn p u v t)) := by
  obtain ⟨q, hq, hdrift⟩ := locate_drift h
  have hplace : SamePlace (cutOn p u v t).place p := samePlace_cutPosition p u.2 v.2 t
  refine ⟨q, t, hq, rfl, ?_⟩
  rw [Stop.place_inserted, distance_congr ⟨rfl, rfl⟩ hplace]
  exact hdrift

/-! ## The way through all stops -/

/-- A way from stop to stop is no longer than along the path and, for every stop between its ends,
to the path and back. -/
theorem totalLength_way_le {off : ℝ} {way : List (Stop ℝ)} {first last : Stop ℝ}
    (h : way.IsChain (Detours off)) (hfirst : way.head? = some first)
    (hlast : way.getLast? = some last) :
    totalLength (way.map Stop.place) + first.drift off + last.drift off ≤
      last.arc - first.arc + 2 * (way.map (Stop.drift off)).sum := by
  induction way generalizing first with
  | nil => cases hfirst
  | cons s rest ih =>
      obtain rfl : s = first := Option.some.inj hfirst
      cases rest with
      | nil =>
          obtain rfl : s = last := Option.some.inj hlast
          simp only [List.map_cons, List.map_nil, List.sum_cons, List.sum_nil, totalLength]
          linarith
      | cons t rest =>
          obtain ⟨hst, hrest⟩ := List.isChain_cons_cons.mp h
          rw [List.getLast?_cons_cons] at hlast
          have hway := ih hrest rfl hlast
          unfold Detours at hst
          simp only [List.map_cons, List.sum_cons, totalLength_cons_cons] at hway ⊢
          linarith

/-- The positions among stops are left when the inserted cuts are left out. -/
theorem vertices_sublist (way : List (Stop ℝ)) :
    ((way.filterMap Stop.vertex?).map Prod.snd).Sublist (way.map Stop.place) := by
  induction way with
  | nil => exact List.Sublist.refl _
  | cons s rest ih =>
      cases s with
      | vertex arc place cut => exact ih.cons_cons place
      | inserted cut => exact ih.cons cut.place

section Way

variable {path : Path ℝ} (points : List (Position ℝ)) {tolerance : ℝ}

theorem stops_detours (htol : 0 ≤ tolerance) :
    (stops path (cuts path points tolerance) tolerance).IsChain (Detours (√2 * tolerance)) := by
  have hoff : 0 ≤ √2 * tolerance := mul_nonneg (Real.sqrt_nonneg 2) htol
  refine stops_isChain_of points (detours_carries hoff) htol fun cut hcut => ?_
  obtain ⟨p, -, i, hloc⟩ := mem_cuts_located hcut
  refine hloc.between.imp fun u v hbetween hlo hhi => ?_
  obtain ⟨t, ht, rfl⟩ := hbetween hlo (by linarith)
  exact cutOn_beside ht

theorem totalLength_le_stops (path : Path ℝ) (found : List (Cut ℝ)) (tolerance : ℝ) :
    totalLength path ≤ totalLength ((stops path found tolerance).map Stop.place) := by
  have hsublist := vertices_sublist (stops path found tolerance)
  rw [filterMap_vertex?_stops, map_snd_vertices] at hsublist
  exact totalLength_sublist hsublist

/-- The walk starts at the start of the path. -/
theorem stops_head_arc {found : List (Cut ℝ)} {s : Stop ℝ}
    (h : (stops path found tolerance).head? = some s) : s.arc = 0 ∧ s.cut? = none := by
  rw [head?_stops] at h
  obtain ⟨v, hv, rfl⟩ := Option.map_eq_some_iff.mp h
  exact ⟨vertices_head? hv, rfl⟩

theorem stops_last_arc (htol : 0 ≤ tolerance) {s : Stop ℝ}
    (h : (stops path (cuts path points tolerance) tolerance).getLast? = some s) :
    s.arc = totalLength path ∧ s.cut? = none := by
  obtain ⟨v, hv, hlast⟩ := stops_last points htol h
  exact ⟨(Stop.arc_of_vertex? hv).trans (vertices_getLast? hlast), last_stop_uncut points htol s h⟩

theorem totalLength_stops_le (htol : 0 ≤ tolerance) :
    totalLength ((stops path (cuts path points tolerance) tolerance).map Stop.place) ≤
      totalLength path + 2 * √2 * tolerance * (cuts path points tolerance).length := by
  rcases eq_or_ne path [] with rfl | hpath
  · rw [cuts_of_short [] points tolerance (by simp)]
    simp [stops, vertices, lengths, lengthsFrom]
  · have hne := stops_ne_nil points tolerance hpath
    have hfirst := List.head?_eq_some_head hne
    have hlast := List.getLast?_eq_some_getLast hne
    have hway := totalLength_way_le (stops_detours points htol) hfirst hlast
    obtain ⟨hstart, hstartcut⟩ := stops_head_arc hfirst
    obtain ⟨hend, hendcut⟩ := stops_last_arc points htol hlast
    rw [sum_drift, filterMap_cut?_stops points htol hpath, Stop.drift_of_uncut _ hstartcut,
      Stop.drift_of_uncut _ hendcut, hstart, hend] at hway
    linarith

end Way

/-! ## The pieces -/

theorem sum_runsFrom (current later : List (Stop ℝ)) (h : current ≠ []) :
    ((runsFrom current later).map fun run => totalLength (run.map Stop.place)).sum =
      totalLength ((current ++ later).map Stop.place) := by
  induction later generalizing current with
  | nil => simp [runsFrom]
  | cons s later ih =>
      cases hcut : s.cut? with
      | some cut =>
          have happend := totalLength_append (current.map Stop.place) (later.map Stop.place) s.place
          rw [runsFrom_of_cut current later (by simp [hcut]), List.map_cons, List.sum_cons,
            ih [s] (List.cons_ne_nil s [])]
          simpa using happend.symm
      | none =>
          rw [runsFrom_of_no_cut current later hcut, ih _ (by simp), List.append_assoc,
            List.singleton_append]

/-- The pieces share out the way through all stops. -/
theorem sum_piecesAt (path : Path ℝ) (found : List (Cut ℝ)) (tolerance : ℝ) :
    ((piecesAt path found tolerance).map totalLength).sum =
      totalLength ((stops path found tolerance).map Stop.place) := by
  cases hvertices : vertices path with
  | nil =>
      rw [vertices] at hvertices
      simp [piecesAt, stops, vertices, hvertices, totalLength]
  | cons v rest =>
      rw [piecesAt_eq_runs found tolerance (by simp [hvertices]),
        stops_of_vertices found tolerance hvertices, List.map_map]
      exact sum_runsFrom [.vertex v.1 v.2 none] _ (List.cons_ne_nil _ [])

theorem totalLength_eq_zero_of_not_hasLength {piece : Path ℝ} (h : hasLength piece = false) :
    totalLength piece = 0 := by
  have hshort : ¬(2 ≤ piece.length ∧ 0 < totalLength piece) := by
    rw [← hasLength_iff, h]
    exact Bool.false_ne_true
  match piece with
  | [] => rfl
  | [a] => rfl
  | a :: b :: rest =>
      have hnot : ¬0 < totalLength (a :: b :: rest) := fun hpos => hshort ⟨by simp, hpos⟩
      exact le_antisymm (not_lt.mp hnot) (totalLength_nonneg _)

theorem sum_filter_hasLength (pieces : List (Path ℝ)) :
    ((pieces.filter hasLength).map totalLength).sum = (pieces.map totalLength).sum := by
  induction pieces with
  | nil => rfl
  | cons piece rest ih =>
      cases hpiece : hasLength piece with
      | true =>
          rw [List.filter_cons_of_pos hpiece, List.map_cons, List.map_cons, List.sum_cons,
            List.sum_cons, ih]
      | false =>
          rw [List.filter_cons_of_neg (by simp [hpiece]), ih, List.map_cons, List.sum_cons,
            totalLength_eq_zero_of_not_hasLength hpiece, zero_add]

/-- What the pieces of a path measure together. -/
structure Measures (path : Path ℝ) (points : List (Position ℝ)) (tolerance : ℝ) : Prop where
  le_sum : totalLength path ≤ ((splitAt path points tolerance).map totalLength).sum
  /-- For every cut they measure the way from the path and back, at most. -/
  sum_le : ((splitAt path points tolerance).map totalLength).sum ≤
    totalLength path + 2 * √2 * tolerance * (cuts path points tolerance).length
  /-- Those that are dropped measure nothing. -/
  dropped : ((splitAt path points tolerance).map totalLength).sum =
    ((piecesAt path (cuts path points tolerance) tolerance).map totalLength).sum

theorem sum_splitAt (path : Path ℝ) (points : List (Position ℝ)) (tolerance : ℝ) :
    ((splitAt path points tolerance).map totalLength).sum =
      ((piecesAt path (cuts path points tolerance) tolerance).map totalLength).sum := by
  by_cases hcuts : cuts path points tolerance = []
  · rw [splitAt_of_no_cuts path points tolerance hcuts, hcuts, sum_piecesAt,
      map_place_stops_of_no_cuts, List.map_singleton, List.sum_singleton]
  · rw [splitAt_of_cuts path points tolerance hcuts, sum_filter_hasLength]

theorem splitAt_measures (path : Path ℝ) (points : List (Position ℝ)) {tolerance : ℝ}
    (htol : 0 ≤ tolerance) : Measures path points tolerance := by
  have hsum := sum_splitAt path points tolerance
  rw [sum_piecesAt] at hsum
  refine ⟨?_, ?_, sum_splitAt path points tolerance⟩
  · rw [hsum]
    exact totalLength_le_stops path _ tolerance
  · rw [hsum]
    exact totalLength_stops_le points htol

/-- Without tolerance the pieces are together as long as the path. -/
theorem sum_splitAt_zero (path : Path ℝ) (points : List (Position ℝ)) :
    ((splitAt path points 0).map totalLength).sum = totalLength path := by
  obtain ⟨hle, hge, -⟩ := splitAt_measures path points le_rfl
  rw [mul_zero, zero_mul, add_zero] at hge
  exact le_antisymm hge hle

end Geospatial.Path
