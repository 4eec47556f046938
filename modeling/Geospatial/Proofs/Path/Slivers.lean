import Geospatial.Proofs.Path.Boundaries
import Geospatial.Proofs.Path.Detour

/-!
# Pieces longer than the tolerance

Cuts are kept apart and off the ends of a path by more than the tolerance, but one within the
tolerance of a position is made there. Where points stand on the segments on which they are located,
the positions before a cut are farther from it than the tolerance, so that no cut moves back, and
one that moves on to a position stays before the next cut by more than the tolerance. A piece then
measures what lies between its ends. Only the last one may be short, when a cut has moved on to a
position near the end of the path.
-/

namespace Geospatial.Path

/-! ## Points located where they stand -/

/-- A point stands on the segment on which it is located. Or it is located within the tolerance of
the end of that segment, and past the start by more than the tolerance. -/
def Steady (path : Path ℝ) (tolerance : ℝ) (p : Position ℝ) : Prop :=
  ∀ i cut start stop, LocatedAt (vertices path) tolerance p i cut →
    IsSegment (vertices path) i start stop →
      (∃ t, Along p start.2 stop.2 t) ∨
        (start.1 + tolerance < cut.arc ∧ stop.1 - tolerance ≤ cut.arc)

section Segment

variable {path : Path ℝ} {tolerance t : ℝ} {p : Position ℝ} {i : Nat} {cut : Cut ℝ}
  {start stop : ℝ × Position ℝ}

theorem LocatedAt.arc_of_along (h : LocatedAt (vertices path) tolerance p i cut)
    (hseg : IsSegment (vertices path) i start stop) (ht : Along p start.2 stop.2 t) :
    cut.arc = start.1 + t * (stop.1 - start.1) := by
  obtain ⟨start', stop', t', hseg', hloc, rfl⟩ := h.here
  obtain ⟨rfl, rfl⟩ := hseg'.unique hseg
  by_cases hends : SamePlace start'.2 stop'.2
  · simp [cutOn, hseg'.follows.eq_iff.mpr hends]
  · obtain ⟨-, rfl⟩ := locate_eq_some_iff.mp hloc
    simp only [cutOn, ht.dominantFraction_eq hends]

theorem LocatedAt.samePlace (h : LocatedAt (vertices path) tolerance p i cut) :
    SamePlace cut.place p := by
  obtain ⟨start', stop', t', -, -, rfl⟩ := h.here
  exact samePlace_cutPosition p start'.2 stop'.2 t'

/-- A position before the end of a segment is not after its start. -/
theorem IsSegment.le_start (h : IsSegment (vertices path) i start stop) {v : ℝ × Position ℝ}
    (hv : v ∈ vertices path) (hlt : v.1 < stop.1) : v.1 ≤ start.1 := by
  obtain ⟨hi, rfl⟩ := List.getElem?_eq_some_iff.mp h.1
  obtain ⟨hnext, rfl⟩ := List.getElem?_eq_some_iff.mp h.2
  obtain ⟨k, hk, rfl⟩ := List.getElem_of_mem hv
  have hsorted := List.pairwise_iff_getElem.mp (vertices_pairwise path)
  rcases Nat.lt_trichotomy k i with hki | rfl | hki
  · exact hsorted k i hk hi hki
  · exact le_rfl
  · rcases Nat.eq_or_lt_of_le (Nat.succ_le_of_lt hki) with rfl | hlater
    · exact absurd hlt (lt_irrefl _)
    · exact absurd hlt (not_lt.mpr (hsorted (i + 1) k hnext hk hlater))

/-- A point on a segment other than the first stands past the start by more than the tolerance, or
it would be located on the segment before. -/
theorem Steady.start_before (hsteady : Steady path tolerance p)
    (h : LocatedAt (vertices path) tolerance p (i + 1) cut)
    (hseg : IsSegment (vertices path) (i + 1) start stop) : start.1 + tolerance < cut.arc := by
  rcases hsteady _ _ _ _ h hseg with ⟨t, ht⟩ | ⟨hfar, -⟩
  · obtain ⟨hlt, -⟩ := List.getElem?_eq_some_iff.mp hseg.1
    have hprevious : IsSegment (vertices path) i (vertices path)[i] start :=
      ⟨List.getElem?_eq_getElem (Nat.lt_of_succ_lt hlt), hseg.1⟩
    have hnone := h.notBefore i (Nat.lt_succ_self i) _ _ hprevious
    have hfar := lt_distance_of_locate_none hnone (Along.at_stop _ _)
    rw [ht.distance_start, ← sub_eq_of_eq_add' hseg.follows] at hfar
    rw [h.arc_of_along hseg ht]
    linarith
  · exact hfar

end Segment

/-! ## The way between stops -/

def Stands (u v : ℝ × Position ℝ) (s : Stop ℝ) : Prop :=
  ∃ t, Along s.place u.2 v.2 t ∧ s.arc = u.1 + t * (v.1 - u.1)

def Measured (s t : Stop ℝ) : Prop := distance s.place t.place = t.arc - s.arc

theorem stands_carries : Carries Stands Measured where
  start u v _ := ⟨0, Along.at_start u.2 v.2, by simp⟩
  stop huv hs _ := by
    obtain ⟨t, ht, harc⟩ := hs
    exact ht.distance_stop_of_arc huv harc
  inserted huv hs hcut hlt := by
    obtain ⟨t, ht, harc⟩ := hs
    obtain ⟨w, hw, harc'⟩ := hcut
    exact ht.distance_of_arcs hw huv harc harc' hlt.le

theorem Steady.cutOn {path : Path ℝ} {tolerance : ℝ} {p : Position ℝ} {i : Nat} {cut : Cut ℝ}
    (hsteady : Steady path tolerance p) (htol : 0 ≤ tolerance)
    (h : LocatedAt (vertices path) tolerance p i cut) :
    (vertices path).IsChain (CutOn Stands tolerance cut) := by
  refine List.isChain_iff_getElem.mpr fun j hj hlo hhi => ?_
  have hseg : IsSegment (vertices path) j (vertices path)[j] (vertices path)[j + 1] :=
    ⟨List.getElem?_eq_getElem _, List.getElem?_eq_getElem hj⟩
  obtain rfl := h.eq_of_between hseg hlo (by linarith)
  rcases hsteady _ _ _ _ h hseg with ⟨t, ht⟩ | ⟨-, hend⟩
  · exact ⟨t, ht.congr h.samePlace, h.arc_of_along hseg ht⟩
  · exact absurd hend (not_le.mpr hhi)

/-- A run of such stops measures what lies between its ends. -/
theorem totalLength_measured {run : List (Stop ℝ)} {first last : Stop ℝ}
    (h : run.IsChain Measured) (hfirst : run.head? = some first)
    (hlast : run.getLast? = some last) :
    totalLength (run.map Stop.place) = last.arc - first.arc := by
  induction run generalizing first with
  | nil => cases hfirst
  | cons s rest ih =>
      obtain rfl : s = first := Option.some.inj hfirst
      cases rest with
      | nil =>
          obtain rfl : s = last := Option.some.inj hlast
          simp [totalLength]
      | cons t rest =>
          obtain ⟨hst, hrest⟩ := List.isChain_cons_cons.mp h
          rw [List.getLast?_cons_cons] at hlast
          have hway := ih hrest rfl hlast
          have hstep : distance s.place t.place = t.arc - s.arc := hst
          rw [List.map_cons] at hway
          rw [List.map_cons, List.map_cons, totalLength_cons_cons, hstep, hway]
          ring

/-! ## Where runs begin and end -/

section Runs

variable {first : Stop ℝ} {current later : List (Stop ℝ)}

/-- All runs but the last one lead from the start or from a cut to a later cut. -/
theorem spans_runsFrom {R : Stop ℝ → Stop ℝ → Prop} (hfirst : current.head? = some first)
    (h : (first :: later.filter fun s => s.cut?.isSome).Pairwise R) {run : List (Stop ℝ)}
    (hrun : run ∈ (runsFrom current later).dropLast) :
    ∃ s t, run.head? = some s ∧ run.getLast? = some t ∧ R s t := by
  induction later generalizing first current with
  | nil => cases hrun
  | cons s later ih =>
      have hlonger : (current ++ [s]).head? = some first := by
        rw [List.head?_append, hfirst, Option.some_or]
      cases hcut : s.cut? with
      | some c =>
          rw [List.filter_cons_of_pos (by simp [hcut])] at h
          obtain ⟨hall, hrest⟩ := List.pairwise_cons.mp h
          rw [runsFrom_of_cut current later (by simp [hcut]),
            List.dropLast_cons_of_ne_nil (runsFrom_ne_nil _ _)] at hrun
          rcases List.mem_cons.mp hrun with rfl | hrun
          · exact ⟨first, s, hlonger, List.getLast?_concat, hall s List.mem_cons_self⟩
          · exact ih rfl hrest hrun
      | none =>
          rw [List.filter_cons_of_neg (by simp [hcut])] at h
          rw [runsFrom_of_no_cut current later hcut] at hrun
          exact ih hlonger h hrun

/-- Every run begins at the start or at a cut. -/
theorem head?_of_mem_runsFrom (hfirst : current.head? = some first) {run : List (Stop ℝ)}
    (hrun : run ∈ runsFrom current later) :
    ∃ s, run.head? = some s ∧ (s = first ∨ s ∈ later.filter fun s => s.cut?.isSome) := by
  induction later generalizing first current with
  | nil =>
      obtain rfl := List.mem_singleton.mp hrun
      exact ⟨first, hfirst, Or.inl rfl⟩
  | cons s later ih =>
      have hlonger : (current ++ [s]).head? = some first := by
        rw [List.head?_append, hfirst, Option.some_or]
      cases hcut : s.cut? with
      | some c =>
          rw [List.filter_cons_of_pos (by simp [hcut])]
          rw [runsFrom_of_cut current later (by simp [hcut])] at hrun
          rcases List.mem_cons.mp hrun with rfl | hrun
          · exact ⟨first, hlonger, Or.inl rfl⟩
          · obtain ⟨r, hr, hmem⟩ := ih rfl hrun
            exact ⟨r, hr, Or.inr (List.mem_cons.mpr hmem)⟩
      | none =>
          rw [List.filter_cons_of_neg (by simp [hcut])]
          rw [runsFrom_of_no_cut current later hcut] at hrun
          exact ih hlonger hrun

end Runs

/-! ## Cuts that move on -/

section Split

variable {path : Path ℝ} {points : List (Position ℝ)} {tolerance : ℝ}

/-- The positions before a cut are farther from it than the tolerance. -/
theorem position_before_cut (htol : 0 ≤ tolerance)
    (hsteady : ∀ p ∈ points, Steady path tolerance p) {cut : Cut ℝ}
    (hcut : cut ∈ cuts path points tolerance) {v : ℝ × Position ℝ} (hv : v ∈ vertices path)
    (hlt : v.1 < cut.arc) : v.1 + tolerance < cut.arc := by
  obtain ⟨p, hp, i, hloc⟩ := mem_cuts_located hcut
  obtain ⟨start, stop, t, hseg, -⟩ := hloc.here
  have hstart := hseg.le_start hv (hlt.trans_le (hloc.arc_mem hseg).2)
  cases i with
  | zero =>
      have hhead : start ∈ (vertices path).head? := by
        rw [List.head?_eq_getElem?]
        exact hseg.1
      linarith [vertices_head? hhead, (mem_cuts_bounds htol hcut).1]
  | succ i => linarith [(hsteady p hp).start_before hloc hseg]

/-- A cut is made where it is, or within the tolerance after it. -/
theorem cut_moves_on (htol : 0 ≤ tolerance) (hsteady : ∀ p ∈ points, Steady path tolerance p)
    {s : Stop ℝ} {cut : Cut ℝ} (hs : s ∈ stops path (cuts path points tolerance) tolerance)
    (hcut : s.cut? = some cut) : cut.arc ≤ s.arc ∧ s.arc ≤ cut.arc + tolerance := by
  obtain ⟨hlo, hhi⟩ := abs_le.mp (cut_near_stop points htol hs hcut)
  refine ⟨?_, by linarith⟩
  cases s with
  | inserted c =>
      cases hcut
      exact le_rfl
  | vertex arc place c =>
      by_contra hback
      have hbefore : arc + tolerance < cut.arc := position_before_cut htol hsteady
        (mem_cuts_of_stop htol hs hcut) (mem_vertices_of_stop hs rfl) (not_le.mp hback)
      rw [Stop.arc_vertex] at hhi
      linarith

def Clears (tolerance : ℝ) (s t : Stop ℝ) : Prop := tolerance < t.arc - s.arc

/-- A cut that moves on to a position stays before the next cut by more than the tolerance. -/
theorem clears_of_apart (htol : 0 ≤ tolerance) (hsteady : ∀ p ∈ points, Steady path tolerance p)
    {s t : Stop ℝ} {c d : Cut ℝ} (hs : s ∈ stops path (cuts path points tolerance) tolerance)
    (ht : t ∈ stops path (cuts path points tolerance) tolerance) (hc : s.cut? = some c)
    (hd : t.cut? = some d) (hcd : Apart tolerance c d) : Clears tolerance s t := by
  obtain ⟨-, hon⟩ := cut_moves_on htol hsteady hs hc
  obtain ⟨hnext, -⟩ := cut_moves_on htol hsteady ht hd
  unfold Apart at hcd
  unfold Clears
  cases s with
  | inserted cut =>
      cases hc
      rw [Stop.arc_inserted]
      linarith
  | vertex arc place cut =>
      rw [Stop.arc_vertex] at hon ⊢
      have hbefore := position_before_cut htol hsteady (mem_cuts_of_stop htol ht hd)
        (mem_vertices_of_stop hs rfl) (by linarith)
      linarith

/-- The start of a path and the stops of its cuts follow one another at more than the tolerance. -/
theorem cut_stops_clear (htol : 0 ≤ tolerance) (hsteady : ∀ p ∈ points, Steady path tolerance p)
    {first : Stop ℝ} {later : List (Stop ℝ)}
    (h : stops path (cuts path points tolerance) tolerance = first :: later) :
    (first :: later.filter fun s => s.cut?.isSome).Pairwise (Clears tolerance) := by
  have hmem : ∀ s ∈ later, s ∈ stops path (cuts path points tolerance) tolerance := by
    intro s hs
    rw [h]
    exact List.mem_cons_of_mem _ hs
  refine List.pairwise_cons.mpr ⟨fun t ht => ?_, ?_⟩
  · obtain ⟨hlater, hcut⟩ := List.mem_filter.mp ht
    obtain ⟨d, hd⟩ := Option.isSome_iff_exists.mp hcut
    have hhead : (stops path (cuts path points tolerance) tolerance).head? = some first := by
      rw [h, List.head?_cons]
    obtain ⟨hzero, -⟩ := stops_head_arc hhead
    have hbounds := mem_cuts_bounds htol (mem_cuts_of_stop htol (hmem t hlater) hd)
    have hon := cut_moves_on htol hsteady (hmem t hlater) hd
    unfold Clears
    linarith
  · have hne : path ≠ [] := by
      rintro rfl
      cases h
    have hapart : (cuts path points tolerance).Pairwise (Apart tolerance) := cuts_pairwise htol
    rw [← filterMap_cut?_stops points htol hne, h, List.pairwise_filterMap] at hapart
    have hrest := (List.pairwise_cons.mp hapart).2
    refine (hrest.filter _).imp_of_mem fun {s t} hs ht hst => ?_
    obtain ⟨hs, hc⟩ := List.mem_filter.mp hs
    obtain ⟨ht, hd⟩ := List.mem_filter.mp ht
    obtain ⟨c, hc⟩ := Option.isSome_iff_exists.mp hc
    obtain ⟨d, hd⟩ := Option.isSome_iff_exists.mp hd
    exact clears_of_apart htol hsteady (hmem s hs) (hmem t ht) hc hd (hst c hc d hd)

theorem runs_measured (htol : 0 ≤ tolerance) (hsteady : ∀ p ∈ points, Steady path tolerance p)
    {run : List (Stop ℝ)}
    (h : run ∈ runs (stops path (cuts path points tolerance) tolerance)) :
    run.IsChain Measured := by
  refine isChain_of_mem_runs (stops_isChain_of points stands_carries htol fun cut hcut => ?_) h
  obtain ⟨p, hp, i, hloc⟩ := mem_cuts_located hcut
  exact (hsteady p hp).cutOn htol hloc

/-- No cut moves on to a position within the tolerance of the end of the path. -/
def StaysOff (path : Path ℝ) (points : List (Position ℝ)) (tolerance : ℝ) : Prop :=
  ∀ cut ∈ cuts path points tolerance, ∀ v ∈ vertices path, cut.arc ≤ v.1 →
    v.1 ≤ cut.arc + tolerance → v.1 < totalLength path - tolerance

theorem stop_off_end (htol : 0 ≤ tolerance) (hsteady : ∀ p ∈ points, Steady path tolerance p)
    (hoff : StaysOff path points tolerance) {s : Stop ℝ} {cut : Cut ℝ}
    (hs : s ∈ stops path (cuts path points tolerance) tolerance) (hcut : s.cut? = some cut) :
    s.arc < totalLength path - tolerance := by
  obtain ⟨hlo, hhi⟩ := cut_moves_on htol hsteady hs hcut
  have hmem := mem_cuts_of_stop htol hs hcut
  cases s with
  | inserted c =>
      cases hcut
      exact (mem_cuts_bounds htol hmem).2
  | vertex arc place c => exact hoff cut hmem _ (mem_vertices_of_stop hs rfl) hlo hhi

theorem run_before_last_long (htol : 0 ≤ tolerance)
    (hsteady : ∀ p ∈ points, Steady path tolerance p) {run : List (Stop ℝ)}
    (h : run ∈ (runs (stops path (cuts path points tolerance) tolerance)).dropLast) :
    tolerance < totalLength (run.map Stop.place) := by
  have hchain := runs_measured htol hsteady (List.mem_of_mem_dropLast h)
  cases hstops : stops path (cuts path points tolerance) tolerance with
  | nil =>
      rw [hstops] at h
      cases h
  | cons first later =>
      rw [hstops] at h
      obtain ⟨s, t, hs, ht, hst⟩ :=
        spans_runsFrom rfl (cut_stops_clear htol hsteady hstops) h
      rw [totalLength_measured hchain hs ht]
      exact hst

theorem last_run_long (htol : 0 ≤ tolerance) (hsteady : ∀ p ∈ points, Steady path tolerance p)
    (hoff : StaysOff path points tolerance) (hcuts : cuts path points tolerance ≠ [])
    {run : List (Stop ℝ)}
    (h : (runs (stops path (cuts path points tolerance) tolerance)).getLast? = some run) :
    tolerance < totalLength (run.map Stop.place) := by
  have hpath := ne_nil_of_cuts path points tolerance hcuts
  have hrun := List.mem_of_getLast? h
  have hends := ends_runs points htol hpath h
  have hchain := runs_measured htol hsteady hrun
  obtain ⟨cut, hcut⟩ := List.exists_mem_of_ne_nil _ hcuts
  obtain ⟨hlo, hhi⟩ := mem_cuts_bounds htol hcut
  cases hstops : stops path (cuts path points tolerance) tolerance with
  | nil => exact absurd hstops (stops_ne_nil points tolerance hpath)
  | cons first later =>
      rw [hstops] at hrun
      have hfirst : [first].head? = some first := rfl
      obtain ⟨s, hs, hbegin⟩ := head?_of_mem_runsFrom hfirst hrun
      have hbefore : s.arc < totalLength path - tolerance := by
        rcases hbegin with rfl | hmem
        · have hhead : (stops path (cuts path points tolerance) tolerance).head? = some s := by
            rw [hstops, List.head?_cons]
          linarith [(stops_head_arc hhead).1]
        · obtain ⟨hlater, hsome⟩ := List.mem_filter.mp hmem
          obtain ⟨c, hc⟩ := Option.isSome_iff_exists.mp hsome
          have hstop : s ∈ stops path (cuts path points tolerance) tolerance := by
            rw [hstops]
            exact List.mem_cons_of_mem _ hlater
          exact stop_off_end htol hsteady hoff hstop hc
      have hne : run ≠ [] := by
        rintro rfl
        cases hs
      have hlast := List.getLast?_eq_some_getLast hne
      rw [ends_of_getLast? hlast] at hends
      rw [totalLength_measured hchain hs hlast, hends]
      linarith

/-- Where points stand on the segments on which they are located, all pieces but the last are longer
than the tolerance, and the last one is unless a cut moves on to the end. -/
theorem splitAt_no_slivers (path : Path ℝ) (points : List (Position ℝ)) (tolerance : ℝ)
    (htol : 0 ≤ tolerance) (hsteady : ∀ p ∈ points, Steady path tolerance p)
    (hmany : 2 ≤ (splitAt path points tolerance).length) :
    (∀ piece ∈ (splitAt path points tolerance).dropLast, tolerance < totalLength piece) ∧
      (StaysOff path points tolerance →
        ∀ piece ∈ splitAt path points tolerance, tolerance < totalLength piece) := by
  have hcuts : cuts path points tolerance ≠ [] := by
    intro hnone
    rw [splitAt_of_no_cuts path points tolerance hnone] at hmany
    simp at hmany
  rw [splitAt_eq_pieceRuns]
  constructor
  · intro piece hpiece
    rw [← List.map_dropLast] at hpiece
    obtain ⟨run, hrun, rfl⟩ := List.mem_map.mp hpiece
    exact run_before_last_long htol hsteady (pieceRuns_dropLast_subset points hrun)
  · intro hoff piece hpiece
    obtain ⟨run, hrun, rfl⟩ := List.mem_map.mp hpiece
    have hall := pieceRuns_subset points hrun
    rw [← List.dropLast_concat_getLast (runs_ne_nil _)] at hall
    rcases List.mem_append.mp hall with hbefore | hlast
    · exact run_before_last_long htol hsteady hbefore
    · obtain rfl := List.mem_singleton.mp hlast
      exact last_run_long htol hsteady hoff hcuts (List.getLast?_eq_some_getLast (runs_ne_nil _))

end Split

/-! ## A corner -/

noncomputable def corner : Path ℝ :=
  [⟨0, 0, none⟩, ⟨(20 : ℕ), 0, none⟩, ⟨(20 : ℕ), (20 : ℕ), none⟩]

/-- A point on the first segment, and one on the second close to the turn. -/
noncomputable def cornerPoints : List (Position ℝ) :=
  [⟨(8 : ℕ), 0, none⟩, ⟨(20 : ℕ), 1, none⟩]

theorem corner_eq : corner = [⟨0, 0, none⟩, ⟨20, 0, none⟩, ⟨20, 20, none⟩] := by
  simp [corner]

theorem mem_cornerPoints {p : Position ℝ} :
    p ∈ cornerPoints ↔ p = ⟨8, 0, none⟩ ∨ p = ⟨20, 1, none⟩ := by
  simp [cornerPoints]

theorem vertices_corner : vertices corner =
    [(0, ⟨0, 0, none⟩), (20, ⟨20, 0, none⟩), (40, ⟨20, 20, none⟩)] := by
  have hfirst : distance (⟨0, 0, none⟩ : Position ℝ) ⟨20, 0, none⟩ = 20 :=
    distance_eq_of_sq (by norm_num) (by norm_num)
  have hsecond : distance (⟨20, 0, none⟩ : Position ℝ) ⟨20, 20, none⟩ = 20 :=
    distance_eq_of_sq (by norm_num) (by norm_num)
  simp only [vertices, corner_eq, lengths, lengthsFrom, hfirst, hsecond]
  norm_num

theorem totalLength_corner : totalLength corner = 40 := by
  have hlast : (40, ⟨20, 20, none⟩) ∈ (vertices corner).getLast? := by simp [vertices_corner]
  exact (vertices_getLast? hlast).symm

theorem locate_corner_first :
    locate (⟨8, 0, none⟩ : Position ℝ) ⟨0, 0, none⟩ ⟨20, 0, none⟩ 2 = some (2 / 5) := by
  have halong : Along (⟨8, 0, none⟩ : Position ℝ) ⟨0, 0, none⟩ ⟨20, 0, none⟩ (2 / 5) := by
    constructor <;> norm_num
  have hzero : distance (⟨8, 0, none⟩ : Position ℝ) ⟨8, 0, none⟩ = 0 :=
    distance_eq_zero_iff.mpr ⟨rfl, rfl⟩
  refine locate_eq_some_iff.mpr ⟨(distance_nearest_le halong).trans ?_, ?_⟩
  · rw [hzero]
    exact zero_le_two
  · exact halong.dominantFraction_eq (by norm_num [SamePlace])

/-- The point past the turn is located at the turn. -/
theorem locate_corner_second :
    locate (⟨20, 1, none⟩ : Position ℝ) ⟨0, 0, none⟩ ⟨20, 0, none⟩ 2 = some 1 := by
  have hone : distance (⟨20, 0, none⟩ : Position ℝ) ⟨20, 1, none⟩ = 1 :=
    distance_eq_of_sq (by norm_num) (by norm_num)
  refine locate_eq_some_iff.mpr ⟨(distance_nearest_le (Along.at_stop _ _)).trans ?_, ?_⟩
  · rw [hone]
    norm_num
  · rw [dominantFraction_eq]
    norm_num [axisFraction, clampUnit_of_one_le]

theorem located_corner {p : Position ℝ} (hp : p ∈ cornerPoints) {i : Nat} {cut : Cut ℝ}
    (h : LocatedAt (vertices corner) 2 p i cut) :
    i = 0 ∧ (p = ⟨8, 0, none⟩ ∧ cut.arc = 8 ∨ p = ⟨20, 1, none⟩ ∧ cut.arc = 20) := by
  obtain ⟨t, hloc, harc⟩ : ∃ t, locate p ⟨0, 0, none⟩ ⟨20, 0, none⟩ 2 = some t ∧
      (p = ⟨8, 0, none⟩ ∧ 0 + t * (20 - 0) = 8 ∨ p = ⟨20, 1, none⟩ ∧ 0 + t * (20 - 0) = 20) := by
    rcases mem_cornerPoints.mp hp with rfl | rfl
    · exact ⟨_, locate_corner_first, Or.inl ⟨rfl, by norm_num⟩⟩
    · exact ⟨_, locate_corner_second, Or.inr ⟨rfl, by norm_num⟩⟩
  rw [vertices_corner] at h
  cases i with
  | zero =>
      obtain ⟨t', hloc', rfl⟩ := LocatedAt.zero_iff.mp h
      obtain rfl := Option.some.inj (hloc.symm.trans hloc')
      exact ⟨rfl, harc⟩
  | succ i =>
      have hnone := (LocatedAt.succ_iff.mp h).1
      rw [hloc] at hnone
      cases hnone

theorem steady_corner : ∀ p ∈ cornerPoints, Steady corner 2 p := by
  intro p hp i cut start stop h hseg
  obtain ⟨rfl, harc⟩ := located_corner hp h
  rw [vertices_corner] at hseg
  obtain ⟨rfl, rfl⟩ := isSegment_zero.mp hseg
  rcases harc with ⟨rfl, -⟩ | ⟨-, harc⟩
  · refine Or.inl ⟨2 / 5, ?_⟩
    constructor <;> norm_num
  · right
    rw [harc]
    norm_num

theorem staysOff_corner : StaysOff corner cornerPoints 2 := by
  intro cut hcut v hv _ hhi
  obtain ⟨p, hp, i, hloc⟩ := mem_cuts_located hcut
  obtain ⟨-, harc⟩ := located_corner hp hloc
  have hle : cut.arc ≤ 20 := by
    rcases harc with ⟨-, harc⟩ | ⟨-, harc⟩
    · rw [harc]
      norm_num
    · exact harc.le
  rw [totalLength_corner]
  linarith

theorem two_le_corner : 2 ≤ (splitAt corner cornerPoints 2).length := by
  have hlocated : LocatedAt (vertices corner) 2 ⟨8, 0, none⟩ 0
      (cutOn ⟨8, 0, none⟩ (0, ⟨0, 0, none⟩) (20, ⟨20, 0, none⟩) (2 / 5)) := by
    rw [vertices_corner]
    exact LocatedAt.zero_iff.mpr ⟨_, locate_corner_first, rfl⟩
  have hcuts : cuts corner cornerPoints 2 ≠ [] := by
    have hmem : (⟨8, 0, none⟩ : Position ℝ) ∈ cornerPoints := mem_cornerPoints.mpr (Or.inl rfl)
    rcases cuts_cover zero_le_two hmem hlocated with hstart | hend | ⟨kept, hkept, -⟩
    · norm_num [cutOn] at hstart
    · rw [totalLength_corner] at hend
      norm_num [cutOn] at hend
    · exact List.ne_nil_of_mem hkept
  have hdistinct : corner.IsChain fun p q => ¬SamePlace p q := by norm_num [corner_eq, SamePlace]
  have hpos := List.length_pos_iff.mpr hcuts
  rw [splitAt_eq_pieceRuns, List.length_map,
    pieceRuns_eq_runs cornerPoints zero_le_two (by simp [corner]) hdistinct,
    length_runs head_stops_uncut, filterMap_cut?_stops cornerPoints zero_le_two (by simp [corner])]
  omega

/-- The corner cut on its way and at its turn. -/
theorem splitAt_no_slivers_of_corner :
    (0 : ℝ) ≤ 2 ∧ (∀ p ∈ cornerPoints, Steady corner 2 p) ∧
    2 ≤ (splitAt corner cornerPoints 2).length ∧ StaysOff corner cornerPoints 2 ∧
    ∀ piece ∈ splitAt corner cornerPoints 2, 2 < totalLength piece :=
  ⟨zero_le_two, steady_corner, two_le_corner, staysOff_corner,
    (splitAt_no_slivers corner cornerPoints 2 zero_le_two steady_corner two_le_corner).2
      staysOff_corner⟩

/-! ## Short steps -/

noncomputable def shortSteps : Path ℝ :=
  [⟨0, 0, none⟩, ⟨1, 0, none⟩, ⟨(3 : ℕ), 0, none⟩, ⟨(20 : ℕ), 0, none⟩]

theorem shortSteps_eq :
    shortSteps = [⟨0, 0, none⟩, ⟨1, 0, none⟩, ⟨3, 0, none⟩, ⟨20, 0, none⟩] := by
  simp [shortSteps]

theorem distance_level {a b : ℝ} (h : a ≤ b) :
    distance (⟨a, 0, none⟩ : Position ℝ) ⟨b, 0, none⟩ = b - a :=
  distance_eq_of_sq (sub_nonneg.mpr h) (by ring)

theorem locateOnPath_shortSteps :
    locateOnPath ⟨4, 0, none⟩ 2 0 shortSteps = some ⟨3, ⟨4, 0, none⟩⟩ := by
  have hfirst : locate (⟨4, 0, none⟩ : Position ℝ) ⟨0, 0, none⟩ ⟨1, 0, none⟩ 2 = none := by
    cases hloc : locate (⟨4, 0, none⟩ : Position ℝ) ⟨0, 0, none⟩ ⟨1, 0, none⟩ 2 with
    | none => rfl
    | some t =>
        obtain ⟨hnear, -⟩ := locate_eq_some_iff.mp hloc
        obtain ⟨s, hs⟩ := exists_along_nearest ⟨4, 0, none⟩ ⟨0, 0, none⟩ (⟨1, 0, none⟩ : Position ℝ)
        have hx := hs.x_eq
        have hle := (le_abs_self _).trans (abs_sub_le_distance
          (nearest (⟨4, 0, none⟩ : Position ℝ) ⟨0, 0, none⟩ ⟨1, 0, none⟩) ⟨4, 0, none⟩)
        simp only at hx hle
        linarith [hs.le_one]
  have hsecond : locate (⟨4, 0, none⟩ : Position ℝ) ⟨1, 0, none⟩ ⟨3, 0, none⟩ 2 = some 1 := by
    refine locate_eq_some_iff.mpr ⟨(distance_nearest_le (Along.at_stop _ _)).trans ?_, ?_⟩
    · rw [distance_level (by norm_num)]
      norm_num
    · rw [dominantFraction_eq]
      norm_num [axisFraction, clampUnit_of_one_le]
  rw [shortSteps_eq, locateOnPath_of_none _ _ hfirst, locateOnPath_of_some _ _ hsecond,
    distance_level zero_le_one, distance_level (by norm_num)]
  norm_num [cutOn, cutPosition, Position.flat]

theorem lengths_shortSteps : lengths shortSteps = [0, 1, 3, 20] := by
  simp only [lengths, shortSteps_eq, lengthsFrom]
  rw [distance_level zero_le_one, distance_level (by norm_num), distance_level (by norm_num)]
  norm_num

theorem cuts_shortSteps : cuts shortSteps [⟨4, 0, none⟩] 2 = [⟨3, ⟨4, 0, none⟩⟩] := by
  simp only [cuts, located, List.filterMap_cons, List.filterMap_nil, locateOnPath_shortSteps,
    lengths_shortSteps, Sorting.sort, Sorting.leadingRun]
  norm_num [thin]

/-- The cut is made at the first position within the tolerance of it, not at the one it is at. -/
theorem splitAt_shortSteps : splitAt shortSteps [⟨4, 0, none⟩] 2 =
    [[⟨0, 0, none⟩, ⟨1, 0, none⟩], [⟨1, 0, none⟩, ⟨3, 0, none⟩, ⟨20, 0, none⟩]] := by
  have hpieces : piecesAt shortSteps [⟨3, ⟨4, 0, none⟩⟩] 2 =
      [[⟨0, 0, none⟩, ⟨1, 0, none⟩], [⟨1, 0, none⟩, ⟨3, 0, none⟩, ⟨20, 0, none⟩]] := by
    rw [piecesAt, lengths_shortSteps, shortSteps_eq]
    norm_num [walk, magnitude_eq_abs]
  rw [splitAt_of_cuts _ _ _ (by simp [cuts_shortSteps]), cuts_shortSteps, hpieces]
  refine List.filter_eq_self.mpr fun piece hpiece => ?_
  simp only [List.mem_cons, List.not_mem_nil, or_false] at hpiece
  rcases hpiece with rfl | rfl
  · refine hasLength_iff.mpr ⟨by simp, ?_⟩
    simp only [totalLength]
    rw [distance_level zero_le_one]
    norm_num
  · refine hasLength_iff.mpr ⟨by simp, ?_⟩
    simp only [totalLength]
    rw [distance_level (by norm_num), distance_level (by norm_num)]
    norm_num

/-- A point on the line, and a cut made at a position before the one at which it is located: the
first piece is no longer than the tolerance. -/
theorem splitAt_leaves_sliver :
    (0 : ℝ) ≤ 2 ∧ PassesFrom 0 ⟨4, 0, none⟩ 4 shortSteps ∧
    2 ≤ (splitAt shortSteps [⟨4, 0, none⟩] 2).length ∧
    ¬∀ piece ∈ splitAt shortSteps [⟨4, 0, none⟩] 2, 2 < totalLength piece := by
  have hpasses : PassesFrom 0 ⟨4, 0, none⟩ 4 shortSteps := by
    have halong : Along (⟨4, 0, none⟩ : Position ℝ) ⟨3, 0, none⟩ ⟨20, 0, none⟩ (1 / 17) := by
      constructor <;> norm_num
    rw [shortSteps_eq]
    refine Or.inr (Or.inr (Or.inl ⟨1 / 17, halong, ?_⟩))
    rw [distance_level zero_le_one, distance_level (by norm_num), distance_level (by norm_num)]
    norm_num
  rw [splitAt_shortSteps]
  refine ⟨zero_le_two, hpasses, le_rfl, fun h => ?_⟩
  have hfirst := h _ List.mem_cons_self
  simp only [totalLength] at hfirst
  rw [distance_level zero_le_one] at hfirst
  norm_num at hfirst

end Geospatial.Path
