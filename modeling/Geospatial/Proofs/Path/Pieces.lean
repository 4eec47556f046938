import Geospatial.Proofs.Path.Walk

/-!
# The pieces of a path

The pieces are the runs of stops between cuts. A run has length exactly when it ends at a greater
arc length than it begins. Where no two neighbours of a path are at one place every run has, so that
no piece is dropped.
-/

namespace Geospatial.Path

/-! ## The length of a run -/

theorem hasLength_iff {piece : Path ℝ} :
    hasLength piece = true ↔ 2 ≤ piece.length ∧ 0 < totalLength piece := by
  simp [hasLength]

theorem totalLength_run_pos_iff {run : List (Stop ℝ)} {s t : Stop ℝ}
    (hrun : run.IsChain Advances) (hs : run.head? = some s) (ht : run.getLast? = some t) :
    s.arc ≤ t.arc ∧ (0 < totalLength (run.map Stop.place) ↔ s.arc < t.arc) := by
  induction run generalizing s with
  | nil => cases hs
  | cons a rest ih =>
      obtain rfl : a = s := Option.some.inj hs
      cases rest with
      | nil =>
          obtain rfl : a = t := Option.some.inj ht
          simp [totalLength]
      | cons b rest =>
          obtain ⟨hab, hrest⟩ := List.isChain_cons_cons.mp hrun
          rw [List.getLast?_cons_cons] at ht
          obtain ⟨hle, hpos⟩ := ih hrest rfl ht
          refine ⟨hab.le.trans hle, ?_⟩
          have hnonneg := totalLength_nonneg ((b :: rest).map Stop.place)
          have hstep : 0 < distance a.place b.place ↔ a.arc < b.arc := by
            rw [distance_pos_iff, ← hab.eq_iff]
            exact ⟨fun hne => lt_of_le_of_ne hab.le hne, fun hlt => hlt.ne⟩
          change 0 < distance a.place b.place + totalLength ((b :: rest).map Stop.place) ↔ _
          constructor
          · intro h
            rcases lt_or_eq_of_le hab.le with hlt | heq
            · exact hlt.trans_le hle
            · have hzero : distance a.place b.place = 0 :=
                distance_eq_zero_iff.mpr (hab.eq_iff.mp heq)
              rw [hzero, zero_add] at h
              exact heq.trans_lt (hpos.mp h)
          · intro h
            rcases lt_or_eq_of_le hab.le with hlt | heq
            · exact add_pos_of_pos_of_nonneg (hstep.mpr hlt) hnonneg
            · exact add_pos_of_nonneg_of_pos (distance_nonneg _ _) (hpos.mpr (heq ▸ h))

theorem hasLength_run_iff {run : List (Stop ℝ)} {s t : Stop ℝ} (hrun : run.IsChain Advances)
    (hs : run.head? = some s) (ht : run.getLast? = some t) :
    hasLength (run.map Stop.place) = true ↔ s.arc < t.arc := by
  rw [hasLength_iff, (totalLength_run_pos_iff hrun hs ht).2, List.length_map]
  refine ⟨And.right, fun hlt => ⟨?_, hlt⟩⟩
  match run with
  | [] => cases hs
  | [a] =>
      cases hs
      cases ht
      exact absurd hlt (lt_irrefl _)
  | a :: b :: rest => simp

/-! ## The runs that are kept -/

section Runs

variable (path : Path ℝ) (points : List (Position ℝ)) (tolerance : ℝ)

/-- The runs of stops whose places are the pieces of a path. -/
noncomputable def pieceRuns : List (List (Stop ℝ)) :=
  let found := cuts path points tolerance
  let all := runs (stops path found tolerance)
  if found.isEmpty then all else all.filter fun run => hasLength (run.map Stop.place)

theorem map_place_stops_of_no_cuts : (stops path [] tolerance).map Stop.place = path := by
  rw [stops_of_no_cuts, List.map_map]
  exact map_snd_vertices path

theorem runs_stops_of_no_cuts :
    (runs (stops path [] tolerance)).map (List.map Stop.place) = [path] := by
  have hruns : runs (stops path [] tolerance) = [stops path [] tolerance] := by
    rw [stops_of_no_cuts]
    cases vertices path with
    | nil => rfl
    | cons v rest =>
        refine runsFrom_of_no_cuts _ fun s hs => ?_
        obtain ⟨w, -, rfl⟩ := List.mem_map.mp hs
        rfl
  rw [hruns, List.map_singleton, map_place_stops_of_no_cuts]

theorem ne_nil_of_cuts (h : cuts path points tolerance ≠ []) : path ≠ [] := by
  rintro rfl
  exact h (cuts_of_short [] points tolerance (by simp))

/-- A path with length is cut into the pieces that have length, also where it has no cuts. -/
theorem splitAt_of_hasLength (h : hasLength path = true) :
    splitAt path points tolerance =
      (piecesAt path (cuts path points tolerance) tolerance).filter hasLength := by
  by_cases hcuts : cuts path points tolerance = []
  · have hvertices : vertices path ≠ [] := by
      refine vertices_ne_nil ?_
      rintro rfl
      cases h
    rw [splitAt_of_no_cuts path points tolerance hcuts, hcuts, piecesAt_eq_runs _ _ hvertices,
      runs_stops_of_no_cuts, List.filter_cons_of_pos h, List.filter_nil]
  · exact splitAt_of_cuts path points tolerance hcuts

/-- A path is cut into the places of the runs that are kept. -/
theorem splitAt_eq_pieceRuns :
    splitAt path points tolerance =
      (pieceRuns path points tolerance).map (List.map Stop.place) := by
  by_cases hfound : cuts path points tolerance = []
  · rw [splitAt_of_no_cuts path points tolerance hfound, pieceRuns, hfound]
    exact (runs_stops_of_no_cuts path tolerance).symm
  · have hvertices := vertices_ne_nil (ne_nil_of_cuts path points tolerance hfound)
    have hempty : ¬(cuts path points tolerance).isEmpty := by simpa using hfound
    simp only [pieceRuns, if_neg hempty]
    rw [splitAt_of_cuts path points tolerance hfound, piecesAt_eq_runs _ _ hvertices,
      List.filter_map]
    rfl

theorem pieceRuns_of_hasLength
    (h : ∀ run ∈ runs (stops path (cuts path points tolerance) tolerance),
      hasLength (run.map Stop.place) = true) :
    pieceRuns path points tolerance = runs (stops path (cuts path points tolerance) tolerance) := by
  simp only [pieceRuns]
  split
  · rfl
  · exact List.filter_eq_self.mpr h

end Runs

/-! ## Positions and cuts among the stops -/

section Stops

variable {path : Path ℝ} {points : List (Position ℝ)} {tolerance : ℝ}

theorem mem_vertices_of_stop {found : List (Cut ℝ)} {s : Stop ℝ} {v : ℝ × Position ℝ}
    (hs : s ∈ stops path found tolerance) (hv : s.vertex? = some v) : v ∈ vertices path := by
  rw [← filterMap_vertex?_stops path found tolerance]
  exact List.mem_filterMap.mpr ⟨s, hs, hv⟩

theorem mem_cuts_of_stop (htol : 0 ≤ tolerance) {s : Stop ℝ} {cut : Cut ℝ}
    (hs : s ∈ stops path (cuts path points tolerance) tolerance) (hcut : s.cut? = some cut) :
    cut ∈ cuts path points tolerance := by
  have hne : path ≠ [] := by
    rintro rfl
    cases hs
  rw [← filterMap_cut?_stops points htol hne]
  exact List.mem_filterMap.mpr ⟨s, hs, hcut⟩

theorem exists_stop_of_vertex (found : List (Cut ℝ)) (tolerance : ℝ) {arc : ℝ} {place : Position ℝ}
    (h : (arc, place) ∈ vertices path) :
    ∃ cut, .vertex arc place cut ∈ stops path found tolerance := by
  rw [← filterMap_vertex?_stops path found tolerance] at h
  obtain ⟨s, hs, hv⟩ := List.mem_filterMap.mp h
  cases s with
  | vertex a p cut =>
      cases hv
      exact ⟨cut, hs⟩
  | inserted cut => cases hv

theorem exists_stop_of_cut (htol : 0 ≤ tolerance) {cut : Cut ℝ}
    (h : cut ∈ cuts path points tolerance) :
    .inserted cut ∈ stops path (cuts path points tolerance) tolerance ∨
      ∃ arc place, .vertex arc place (some cut) ∈
        stops path (cuts path points tolerance) tolerance := by
  have hne := ne_nil_of_cuts path points tolerance (List.ne_nil_of_mem h)
  have hcuts := filterMap_cut?_stops points htol hne
  rw [← hcuts] at h
  obtain ⟨s, hs, hcut⟩ := List.mem_filterMap.mp h
  cases s with
  | vertex arc place c =>
      obtain rfl : c = some cut := hcut
      exact Or.inr ⟨arc, place, hs⟩
  | inserted c =>
      cases hcut
      exact Or.inl hs

end Stops

/-! ## Paths without repeated places -/

theorem isChain_of_filterMap {β γ : Type} {f : β → Option γ} {R : γ → γ → Prop} {items : List β}
    (h : (items.filterMap f).IsChain R) :
    items.IsChain fun a b => ∀ u ∈ f a, ∀ v ∈ f b, R u v := by
  induction items with
  | nil => simp
  | cons a rest ih =>
      cases rest with
      | nil => simp
      | cons b rest =>
          cases ha : f a with
          | none =>
              rw [List.filterMap_cons_none ha] at h
              refine List.isChain_cons_cons.mpr ⟨fun u hu => ?_, ih h⟩
              rw [ha] at hu
              cases hu
          | some u =>
              rw [List.filterMap_cons_some ha] at h
              refine List.isChain_cons_cons.mpr ⟨fun u' hu v hv => ?_, ih h.tail⟩
              rw [ha] at hu
              cases hu
              rw [List.filterMap_cons_some hv] at h
              exact (List.isChain_cons_cons.mp h).1

section Distinct

variable {path : Path ℝ} (points : List (Position ℝ)) {tolerance : ℝ}

/-- Where neighbours are at different places, arc lengths rise from every stop to the next. -/
theorem stops_rise (htol : 0 ≤ tolerance) (hpath : path.IsChain fun p q => ¬SamePlace p q) :
    (stops path (cuts path points tolerance) tolerance).IsChain fun s t => s.arc < t.arc := by
  have hvertices : (vertices path).IsChain fun u v => ¬SamePlace u.2 v.2 := by
    rw [← map_snd_vertices path, List.isChain_map] at hpath
    exact hpath
  rw [← filterMap_vertex?_stops path (cuts path points tolerance) tolerance] at hvertices
  have hdistinct := isChain_of_filterMap hvertices
  refine List.isChain_iff_getElem.mpr fun i hi => ?_
  obtain ⟨hle, heq, hpositions⟩ := (stops_isChain points htol).getElem i hi
  refine lt_of_le_of_ne hle fun h => ?_
  obtain ⟨hs, ht⟩ := hpositions h
  obtain ⟨u, hu⟩ := Option.isSome_iff_exists.mp hs
  obtain ⟨v, hv⟩ := Option.isSome_iff_exists.mp ht
  refine hdistinct.getElem i hi u hu v hv ?_
  rw [← Stop.place_of_vertex? hu, ← Stop.place_of_vertex? hv]
  exact heq.mp h

theorem two_le_length_of_mem_runs (htol : 0 ≤ tolerance) (hlen : 2 ≤ path.length)
    {run : List (Stop ℝ)}
    (h : run ∈ runs (stops path (cuts path points tolerance) tolerance)) : 2 ≤ run.length := by
  match path, hlen with
  | p :: q :: rest, _ =>
      have hvertices := verticesFrom_cons_cons 0 p q rest
      obtain ⟨later, hlater⟩ := verticesFrom_eq_cons (0 + distance p q) q rest
      rw [verticesFrom_zero, hlater] at hvertices
      have hstart := underway_start points htol hvertices
      rw [stops_of_vertices _ _ hvertices] at h
      refine two_le_length_of_mem_runsFrom (List.cons_ne_nil _ []) (fun hnil => ?_)
        (fun s hs => ?_) h
      · exact absurd hnil stopsFrom_ne_nil
      · exact stopsFrom_last_uncut hstart htol hs

/-- Where neighbours are at different places no piece is dropped. -/
theorem pieceRuns_eq_runs (htol : 0 ≤ tolerance) (hlen : 2 ≤ path.length)
    (hpath : path.IsChain fun p q => ¬SamePlace p q) :
    pieceRuns path points tolerance = runs (stops path (cuts path points tolerance) tolerance) := by
  refine pieceRuns_of_hasLength path points tolerance fun run hrun => ?_
  have hrise := isChain_of_mem_runs (stops_rise points htol hpath) hrun
  match run, two_le_length_of_mem_runs points htol hlen hrun with
  | a :: b :: rest, _ =>
      have hlast := List.getLast?_eq_some_getLast (List.cons_ne_nil a (b :: rest))
      rw [hasLength_run_iff (isChain_of_mem_runs (stops_isChain points htol) hrun) rfl hlast]
      have : IsTrans (Stop ℝ) fun s t => s.arc < t.arc := ⟨fun _ _ _ => lt_trans⟩
      have hall := (List.pairwise_cons.mp hrise.pairwise).1
      refine hall _ ?_
      rw [List.getLast_cons_cons]
      exact List.getLast_mem _

end Distinct

end Geospatial.Path
