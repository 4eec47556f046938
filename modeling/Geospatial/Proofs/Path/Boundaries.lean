import Geospatial.Proofs.Path.Pieces

/-!
# Boundaries between pieces

Every boundary between pieces is within the tolerance of a located point, and every located point is
within twice the tolerance of a boundary or of an end of the path: once for a point that is dropped
for a cut before it, and once for a cut that is made at a position. A run of stops without length is
no piece, but it ends at the arc length at which it begins, so no boundary is lost with it.
-/

namespace Geospatial.Path

/-! ## Intervals in a row -/

section Intervals

variable {β : Type} {lo hi : β → ℝ} {p : β → Bool} {items : List β}

theorem mem_dropLast_of_mem_filter {a : β} (h : a ∈ (items.filter p).dropLast) :
    a ∈ items.dropLast := by
  induction items with
  | nil => cases h
  | cons x rest ih =>
      cases rest with
      | nil =>
          cases hx : p x with
          | true => simp [hx] at h
          | false => simp [hx] at h
      | cons y rest =>
          rw [List.dropLast_cons_cons]
          cases hx : p x with
          | false =>
              rw [List.filter_cons_of_neg (by simp [hx])] at h
              exact List.mem_cons_of_mem _ (ih h)
          | true =>
              rw [List.filter_cons_of_pos hx] at h
              cases hF : (y :: rest).filter p with
              | nil => simp [hF] at h
              | cons z later =>
                  rw [hF, List.dropLast_cons_cons] at h
                  rcases List.mem_cons.mp h with rfl | h
                  · exact List.mem_cons_self
                  · exact List.mem_cons_of_mem _ (ih (hF ▸ h))

theorem isChain_cons_filter {a : β} (h : (a :: items).IsChain fun x y => hi x = lo y)
    (hempty : ∀ x ∈ items, p x = false → lo x = hi x) :
    (a :: items.filter p).IsChain fun x y => hi x = lo y := by
  induction items generalizing a with
  | nil => simp
  | cons b rest ih =>
      obtain ⟨hab, hrest⟩ := List.isChain_cons_cons.mp h
      have hempty' : ∀ x ∈ rest, p x = false → lo x = hi x :=
        fun x hx => hempty x (List.mem_cons_of_mem _ hx)
      cases hb : p b with
      | true =>
          rw [List.filter_cons_of_pos hb]
          exact List.isChain_cons_cons.mpr ⟨hab, ih hrest hempty'⟩
      | false =>
          rw [List.filter_cons_of_neg (by simp [hb])]
          have hsame := hempty b List.mem_cons_self hb
          refine ih ?_ hempty'
          cases rest with
          | nil => simp
          | cons c rest =>
              obtain ⟨hbc, hrest⟩ := List.isChain_cons_cons.mp hrest
              exact List.isChain_cons_cons.mpr ⟨(hab.trans hsame).trans hbc, hrest⟩

/-- Intervals that follow one another still do when those without extent are left out. -/
theorem isChain_filter (h : items.IsChain fun x y => hi x = lo y)
    (hempty : ∀ x ∈ items, p x = false → lo x = hi x) :
    (items.filter p).IsChain fun x y => hi x = lo y := by
  cases items with
  | nil => simp
  | cons a rest =>
      have hrest := isChain_cons_filter h fun x hx => hempty x (List.mem_cons_of_mem _ hx)
      cases ha : p a with
      | true =>
          rw [List.filter_cons_of_pos ha]
          exact hrest
      | false =>
          rw [List.filter_cons_of_neg (by simp [ha])]
          exact hrest.tail

theorem hi_getLast_of_empty {a : β} (h : (a :: items).IsChain fun x y => hi x = lo y)
    (hempty : ∀ x ∈ a :: items, lo x = hi x) :
    hi ((a :: items).getLast (List.cons_ne_nil _ _)) = lo a := by
  induction items generalizing a with
  | nil => exact (hempty a List.mem_cons_self).symm
  | cons b rest ih =>
      obtain ⟨hab, hrest⟩ := List.isChain_cons_cons.mp h
      rw [List.getLast_cons_cons, ih hrest fun x hx => hempty x (List.mem_cons_of_mem _ hx), ← hab]
      exact (hempty a List.mem_cons_self).symm

theorem first_boundary_of_filter {a c : β} (h : (a :: c :: items).IsChain fun x y => hi x = lo y)
    (hempty : ∀ x ∈ a :: c :: items, p x = false → lo x = hi x) :
    hi a = lo a ∨ hi a = hi ((a :: c :: items).getLast (List.cons_ne_nil _ _)) ∨
      hi a ∈ (((a :: c :: items).filter p).dropLast).map hi := by
  obtain ⟨hac, hrest⟩ := List.isChain_cons_cons.mp h
  cases ha : p a with
  | false => exact Or.inl (hempty a List.mem_cons_self ha).symm
  | true =>
      right
      cases hF : (c :: items).filter p with
      | nil =>
          left
          have hnone : ∀ x ∈ c :: items, lo x = hi x := by
            intro x hx
            refine hempty x (List.mem_cons_of_mem _ hx) ?_
            simpa using List.filter_eq_nil_iff.mp hF x hx
          rw [List.getLast_cons_cons, hi_getLast_of_empty hrest hnone, hac]
      | cons d later =>
          right
          rw [List.filter_cons_of_pos ha, hF, List.dropLast_cons_cons]
          exact List.mem_map.mpr ⟨a, List.mem_cons_self, rfl⟩

theorem mem_boundaries_filter_cons {a : β} {b : ℝ}
    (h : b ∈ ((items.filter p).dropLast).map hi) :
    b ∈ (((a :: items).filter p).dropLast).map hi := by
  cases ha : p a with
  | false =>
      rw [List.filter_cons_of_neg (by simp [ha])]
      exact h
  | true =>
      cases hF : items.filter p with
      | nil => simp [hF] at h
      | cons d later =>
          rw [hF] at h
          rw [List.filter_cons_of_pos ha, hF, List.dropLast_cons_cons, List.map_cons]
          exact List.mem_cons_of_mem _ h

/-- A boundary between intervals is one between those with extent, or an end of the whole. -/
theorem boundary_of_filter {a : β} {b : ℝ} (h : (a :: items).IsChain fun x y => hi x = lo y)
    (hempty : ∀ x ∈ a :: items, p x = false → lo x = hi x)
    (hb : b ∈ ((a :: items).dropLast).map hi) :
    b = lo a ∨ b = hi ((a :: items).getLast (List.cons_ne_nil _ _)) ∨
      b ∈ (((a :: items).filter p).dropLast).map hi := by
  induction items generalizing a with
  | nil => simp at hb
  | cons c rest ih =>
      obtain ⟨hac, hrest⟩ := List.isChain_cons_cons.mp h
      rw [List.dropLast_cons_cons, List.map_cons] at hb
      rcases List.mem_cons.mp hb with rfl | hb
      · exact first_boundary_of_filter h hempty
      · rcases ih hrest (fun x hx => hempty x (List.mem_cons_of_mem _ hx)) hb with hb | hb | hb
        · -- where the second interval begins the first one ends
          rw [hb, ← hac]
          exact first_boundary_of_filter h hempty
        · exact Or.inr (Or.inl hb)
        · exact Or.inr (Or.inr (mem_boundaries_filter_cons hb))

end Intervals

/-! ## Where runs begin and end -/

noncomputable def begins (run : List (Stop ℝ)) : ℝ := (run.head?.map Stop.arc).getD 0

noncomputable def ends (run : List (Stop ℝ)) : ℝ := (run.getLast?.map Stop.arc).getD 0

/-- The arc lengths at which one piece ends and the next begins. -/
noncomputable def boundaries (pieces : List (List (Stop ℝ))) : List ℝ := pieces.dropLast.map ends

theorem begins_of_head? {run : List (Stop ℝ)} {s : Stop ℝ} (h : run.head? = some s) :
    begins run = s.arc := by
  simp [begins, h]

theorem ends_of_getLast? {run : List (Stop ℝ)} {s : Stop ℝ} (h : run.getLast? = some s) :
    ends run = s.arc := by
  simp [ends, h]

theorem Meets.ends_eq_begins {p q : List (Stop ℝ)} (h : Meets p q) : ends p = begins q := by
  obtain ⟨s, hp, hq, -⟩ := h
  rw [ends_of_getLast? hp, begins_of_head? hq]

/-- The runs of stops end where cuts are made. -/
theorem boundaries_runsFrom (current later : List (Stop ℝ)) :
    boundaries (runsFrom current later) =
      (later.filter fun s => s.cut?.isSome).map Stop.arc := by
  induction later generalizing current with
  | nil => rfl
  | cons s later ih =>
      cases hcut : s.cut? with
      | some c =>
          rw [runsFrom_of_cut current later (by simp [hcut]), boundaries,
            List.dropLast_cons_of_ne_nil (runsFrom_ne_nil _ _), List.map_cons,
            List.filter_cons_of_pos (by simp [hcut]), List.map_cons, ← ih [s],
            ends_of_getLast? List.getLast?_concat]
          rfl
      | none =>
          rw [runsFrom_of_no_cut current later hcut, ih, List.filter_cons_of_neg (by simp [hcut])]

theorem boundaries_runs {stops : List (Stop ℝ)} (h : ∀ s ∈ stops.head?, s.cut? = none) :
    boundaries (runs stops) = (stops.filter fun s => s.cut?.isSome).map Stop.arc := by
  cases stops with
  | nil => rfl
  | cons s later =>
      rw [runs, boundaries_runsFrom, List.filter_cons_of_neg (by simp [h s rfl])]

/-- A run whose places have no length begins and ends at one arc length. -/
theorem begins_eq_ends {run : List (Stop ℝ)} (hrun : run.IsChain Advances)
    (h : hasLength (run.map Stop.place) = false) : begins run = ends run := by
  cases run with
  | nil => rfl
  | cons s rest =>
      have hlast := List.getLast?_eq_some_getLast (List.cons_ne_nil s rest)
      have hle := (totalLength_run_pos_iff hrun rfl hlast).1
      rw [begins_of_head? rfl, ends_of_getLast? hlast]
      refine le_antisymm hle (not_lt.mp fun hlt => ?_)
      rw [(hasLength_run_iff hrun rfl hlast).mpr hlt] at h
      cases h

/-! ## The boundaries of a path that is cut -/

section Cut

variable {path : Path ℝ} (points : List (Position ℝ)) {tolerance : ℝ}

theorem runs_advance (htol : 0 ≤ tolerance) {run : List (Stop ℝ)}
    (h : run ∈ runs (stops path (cuts path points tolerance) tolerance)) :
    run.IsChain Advances :=
  isChain_of_mem_runs (stops_isChain points htol) h

theorem pieceRuns_subset {run : List (Stop ℝ)} (h : run ∈ pieceRuns path points tolerance) :
    run ∈ runs (stops path (cuts path points tolerance) tolerance) := by
  simp only [pieceRuns] at h
  split at h
  · exact h
  · exact (List.mem_filter.mp h).1

theorem pieceRuns_isChain (htol : 0 ≤ tolerance) :
    (pieceRuns path points tolerance).IsChain fun p q => ends p = begins q := by
  have hall : (runs (stops path (cuts path points tolerance) tolerance)).IsChain
      fun p q => ends p = begins q := (runs_isChain _).imp fun _ _ => Meets.ends_eq_begins
  simp only [pieceRuns]
  split
  · exact hall
  · exact isChain_filter hall fun run hrun h => begins_eq_ends (runs_advance points htol hrun) h

theorem pieceRuns_dropLast_subset {run : List (Stop ℝ)}
    (h : run ∈ (pieceRuns path points tolerance).dropLast) :
    run ∈ (runs (stops path (cuts path points tolerance) tolerance)).dropLast := by
  simp only [pieceRuns] at h
  split at h
  · exact h
  · exact mem_dropLast_of_mem_filter h

/-- The stop of a boundary is that of a cut. -/
theorem boundary_of_cut {b : ℝ} (h : b ∈ boundaries (pieceRuns path points tolerance)) :
    ∃ s ∈ stops path (cuts path points tolerance) tolerance, s.cut?.isSome ∧ s.arc = b := by
  have hall : b ∈ boundaries (runs (stops path (cuts path points tolerance) tolerance)) := by
    obtain ⟨run, hrun, rfl⟩ := List.mem_map.mp h
    exact List.mem_map.mpr ⟨run, pieceRuns_dropLast_subset points hrun, rfl⟩
  rw [boundaries_runs head_stops_uncut] at hall
  obtain ⟨s, hs, rfl⟩ := List.mem_map.mp hall
  obtain ⟨hmem, hcut⟩ := List.mem_filter.mp hs
  exact ⟨s, hmem, hcut, rfl⟩

theorem begins_runs {run : List (Stop ℝ)}
    (h : (runs (stops path (cuts path points tolerance) tolerance)).head? = some run) :
    begins run = 0 := by
  obtain ⟨first, hfirst, hhead⟩ := head?_runs (stops path (cuts path points tolerance) tolerance)
  obtain rfl := Option.some.inj (h.symm.trans hfirst)
  rw [begins, hhead, head?_stops]
  cases hv : (vertices path).head? with
  | none => rfl
  | some v => exact vertices_head? hv

theorem ends_runs (htol : 0 ≤ tolerance) (hpath : path ≠ []) {run : List (Stop ℝ)}
    (h : (runs (stops path (cuts path points tolerance) tolerance)).getLast? = some run) :
    ends run = totalLength path := by
  obtain ⟨last, hlast, hend⟩ := getLast?_runs (stops path (cuts path points tolerance) tolerance)
  obtain rfl := Option.some.inj (h.symm.trans hlast)
  have hne := stops_ne_nil points tolerance hpath
  rw [List.getLast?_eq_some_getLast hne] at hend
  obtain ⟨v, hv, hvertex⟩ := stops_last points htol (List.getLast?_eq_some_getLast hne)
  rw [ends_of_getLast? hend, Stop.arc_of_vertex? hv]
  exact vertices_getLast? hvertex

/-- A cut that is kept is near a boundary between pieces or near an end of the path. -/
theorem cut_near_boundary (htol : 0 ≤ tolerance) {cut : Cut ℝ}
    (h : cut ∈ cuts path points tolerance) :
    ∃ b, (b = 0 ∨ b = totalLength path ∨ b ∈ boundaries (pieceRuns path points tolerance)) ∧
      |cut.arc - b| ≤ tolerance := by
  have hne : cuts path points tolerance ≠ [] := List.ne_nil_of_mem h
  have hpath := ne_nil_of_cuts path points tolerance hne
  rw [← filterMap_cut?_stops points htol hpath] at h
  obtain ⟨s, hs, hcut⟩ := List.mem_filterMap.mp h
  refine ⟨s.arc, ?_, cut_near_stop points htol hs hcut⟩
  have hbound : s.arc ∈ boundaries (runs (stops path (cuts path points tolerance) tolerance)) := by
    rw [boundaries_runs head_stops_uncut]
    exact List.mem_map.mpr ⟨s, List.mem_filter.mpr ⟨hs, by simp [hcut]⟩, rfl⟩
  have hchain := (runs_isChain (stops path (cuts path points tolerance) tolerance)).imp
    fun _ _ => Meets.ends_eq_begins
  have hempty : ∀ run ∈ runs (stops path (cuts path points tolerance) tolerance),
      hasLength (run.map Stop.place) = false → begins run = ends run :=
    fun run hrun => begins_eq_ends (runs_advance points htol hrun)
  have hlast := fun run => @ends_runs path points tolerance htol hpath run
  rw [pieceRuns, if_neg (by simpa using hne)]
  cases hruns : runs (stops path (cuts path points tolerance) tolerance) with
  | nil => exact absurd hruns (runs_ne_nil _)
  | cons first more =>
      have hfirst : begins first = 0 := begins_runs points (by rw [hruns]; rfl)
      rw [hruns] at hbound hchain hempty hlast
      rcases boundary_of_filter hchain hempty hbound with hb | hb | hb
      · exact Or.inl (hb.trans hfirst)
      · exact Or.inr (Or.inl (hb.trans (hlast _ (List.getLast?_eq_some_getLast _))))
      · exact Or.inr (Or.inr hb)

end Cut

/-! ## Cuts and boundaries together -/

/-- How the pieces of a path lie to the points at which it is cut. A point is located on the first
segment that it lies on. -/
structure Placement (path : Path ℝ) (points : List (Position ℝ)) (tolerance : ℝ)
    (found : List (Cut ℝ)) (pieces : List (List (Stop ℝ))) : Prop where
  rising : found.Pairwise fun c d => c.arc < d.arc
  apart : found.Pairwise fun c d => tolerance < d.arc - c.arc
  inside : ∀ cut ∈ found, tolerance < cut.arc ∧ cut.arc < totalLength path - tolerance
  /-- The cuts are among those at which points are located. -/
  justified : ∀ cut ∈ found, ∃ p ∈ points, ∃ i,
    LocatedAt ((lengths path).zip path) tolerance p i cut
  /-- The stops of the pieces that are not inserted cuts are positions at their arc lengths. -/
  positions : (stops path found tolerance).filterMap Stop.vertex? = (lengths path).zip path
  stretches : ∀ piece ∈ pieces, piece <:+: stops path found tolerance
  meet : pieces.IsChain fun p q => ends p = begins q
  /-- Every boundary between pieces is near a located point. -/
  near : ∀ b ∈ boundaries pieces, ∃ p ∈ points, ∃ i cut,
    LocatedAt ((lengths path).zip path) tolerance p i cut ∧ |b - cut.arc| ≤ tolerance
  /-- Every located point is near a boundary between pieces or an end of the path. -/
  covered : ∀ p ∈ points, ∀ i cut, LocatedAt ((lengths path).zip path) tolerance p i cut →
    ∃ b, (b = 0 ∨ b = totalLength path ∨ b ∈ boundaries pieces) ∧ |b - cut.arc| ≤ 2 * tolerance

section Placed

variable {path : Path ℝ} (points : List (Position ℝ)) {tolerance : ℝ}

theorem located_near_boundary (htol : 0 ≤ tolerance) {p : Position ℝ} {i : Nat} {cut : Cut ℝ}
    (hp : p ∈ points) (h : LocatedAt (vertices path) tolerance p i cut) :
    ∃ b, (b = 0 ∨ b = totalLength path ∨ b ∈ boundaries (pieceRuns path points tolerance)) ∧
      |b - cut.arc| ≤ 2 * tolerance := by
  obtain ⟨hlo, hhi⟩ := h.arc_mem_path
  rcases cuts_cover htol hp h with hstart | hend | ⟨kept, hkept, hnear⟩
  · refine ⟨0, Or.inl rfl, ?_⟩
    rw [abs_le]
    constructor <;> linarith
  · refine ⟨totalLength path, Or.inr (Or.inl rfl), ?_⟩
    rw [abs_le]
    constructor <;> linarith
  · obtain ⟨b, hb, hkeptb⟩ := cut_near_boundary points htol hkept
    refine ⟨b, hb, ?_⟩
    calc |b - cut.arc| = |cut.arc - b| := abs_sub_comm _ _
      _ ≤ |cut.arc - kept.arc| + |kept.arc - b| := abs_sub_le _ _ _
      _ ≤ 2 * tolerance := by linarith

theorem boundary_near_located (htol : 0 ≤ tolerance) {b : ℝ}
    (h : b ∈ boundaries (pieceRuns path points tolerance)) :
    ∃ p ∈ points, ∃ i cut, LocatedAt (vertices path) tolerance p i cut ∧
      |b - cut.arc| ≤ tolerance := by
  obtain ⟨s, hs, hcut, rfl⟩ := boundary_of_cut points h
  obtain ⟨cut, hcut⟩ := Option.isSome_iff_exists.mp hcut
  obtain ⟨p, hp, i, hloc⟩ := mem_cuts_located (mem_cuts_of_stop htol hs hcut)
  refine ⟨p, hp, i, cut, hloc, ?_⟩
  rw [abs_sub_comm]
  exact cut_near_stop points htol hs hcut

end Placed

/-- The cuts of a path stand apart, its pieces end near located points, and no located point is far
from every boundary. -/
theorem splitAt_placement (path : Path ℝ) (points : List (Position ℝ)) (tolerance : ℝ)
    (htol : 0 ≤ tolerance) :
    splitAt path points tolerance =
        (pieceRuns path points tolerance).map (List.map Stop.place) ∧
      Placement path points tolerance (cuts path points tolerance)
        (pieceRuns path points tolerance) := by
  refine ⟨splitAt_eq_pieceRuns path points tolerance,
    ?rising, ?apart, ?inside, ?justified, ?positions, ?stretches, ?meet, ?near, ?covered⟩
  case rising =>
    refine (cuts_pairwise htol).imp fun {c d} hgap => ?_
    have : tolerance < d.arc - c.arc := hgap
    linarith
  case apart => exact cuts_pairwise htol
  case inside => exact fun cut hcut => mem_cuts_bounds htol hcut
  case justified => exact fun cut hcut => mem_cuts_located hcut
  case positions => exact filterMap_vertex?_stops path _ _
  case stretches =>
    exact fun piece hpiece => infix_of_mem_runs (pieceRuns_subset points hpiece)
  case meet => exact pieceRuns_isChain points htol
  case near => exact fun b hb => boundary_near_located points htol hb
  case covered => exact fun p hp i cut hloc => located_near_boundary points htol hp hloc

/-- A path that turns, and two points close to the turn. -/
theorem splitAt_placement_of_turn :
    (0 : ℝ) ≤ 1 / 4 ∧
    splitAt [⟨0, 0, none⟩, ⟨4, 0, none⟩, ⟨4, 3, none⟩]
          [⟨31 / 8, 0, none⟩, ⟨4, 1 / 8, none⟩] (1 / 4) =
        (pieceRuns [⟨0, 0, none⟩, ⟨4, 0, none⟩, ⟨4, 3, none⟩]
          [⟨31 / 8, 0, none⟩, ⟨4, 1 / 8, none⟩] (1 / 4 : ℝ)).map (List.map Stop.place) ∧
    Placement [⟨0, 0, none⟩, ⟨4, 0, none⟩, ⟨4, 3, none⟩]
      [⟨31 / 8, 0, none⟩, ⟨4, 1 / 8, none⟩] (1 / 4)
      (cuts [⟨0, 0, none⟩, ⟨4, 0, none⟩, ⟨4, 3, none⟩]
        [⟨31 / 8, 0, none⟩, ⟨4, 1 / 8, none⟩] (1 / 4))
      (pieceRuns [⟨0, 0, none⟩, ⟨4, 0, none⟩, ⟨4, 3, none⟩]
        [⟨31 / 8, 0, none⟩, ⟨4, 1 / 8, none⟩] (1 / 4)) := by
  have htol : (0 : ℝ) ≤ 1 / 4 := by norm_num
  exact ⟨htol, splitAt_placement _ _ _ htol⟩

end Geospatial.Path
