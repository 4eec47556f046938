import Geospatial.Proofs.Path.Pieces

/-!
# Cutting a path divides it

A path whose neighbours are at different places falls into one piece more than it has cuts. The
pieces follow one another from its first position to its last, and put together they pass all of its
positions and all of its cuts in order, every inserted cut on the segment that it was located on.
-/

namespace Geospatial.Path

/-! ## Pieces put together -/

theorem joined_map {β γ : Type} (f : β → γ) (pieces : List (List β)) :
    joined (pieces.map (List.map f)) = (joined pieces).map f := by
  cases pieces with
  | nil => rfl
  | cons first later =>
      simp only [List.map_cons, joined, List.map_append, List.map_flatMap, List.flatMap_map,
        List.map_tail]

/-- What the pieces of a path are: `way` are the stops on the way along it, `found` its cuts. -/
structure Division (path : Path ℝ) (points : List (Position ℝ)) (tolerance : ℝ)
    (found : List (Cut ℝ)) (pieces : List (Path ℝ)) (way : List (Stop ℝ)) : Prop where
  count : pieces.length = found.length + 1
  /-- A path without cuts is its only piece. -/
  whole : found = [] → pieces = [path]
  first : pieces.head?.bind List.head? = path.head?
  last : pieces.getLast?.bind List.getLast? = path.getLast?
  /-- A piece ends at the position where the next one starts. -/
  meet : pieces.IsChain fun p q => ∃ place, p.getLast? = some place ∧ q.head? = some place
  /-- The pieces put together are the places of the stops. -/
  places : joined pieces = way.map Stop.place
  /-- The pieces end at the stops where cuts are made. -/
  ends : pieces = (runs way).map (List.map Stop.place)
  /-- Without the inserted cuts the stops are the positions of the path. -/
  positions : way.filterMap Stop.vertex? = (lengths path).zip path
  /-- Every cut is made once and in order. -/
  once : way.filterMap Stop.cut? = found
  /-- A cut that is not inserted is made at a position within the tolerance. -/
  near : ∀ arc place cut, .vertex arc place (some cut) ∈ way → |cut.arc - arc| ≤ tolerance
  /-- An inserted cut is on the segment on which the point that it is made for was located. -/
  between : ∀ before cut after, way = before ++ .inserted cut :: after →
    ∃ i start stop, (before.filterMap Stop.vertex?).length = i + 1 ∧
      IsSegment ((lengths path).zip path) i start stop ∧
      start.1 < cut.arc ∧ cut.arc < stop.1 - tolerance ∧
      ∃ p ∈ points, LocatedAt ((lengths path).zip path) tolerance p i cut ∧
        ∃ t, locate p start.2 stop.2 tolerance = some t ∧
          cut.arc = start.1 + t * (stop.1 - start.1) ∧
          ∀ a b, start.2.z = some a → stop.2.z = some b →
            cut.place = ⟨p.x, p.y, some (a + t * (b - a))⟩

section Way

variable {path : Path ℝ} (points : List (Position ℝ)) {tolerance : ℝ}

theorem stops_head_place (tolerance : ℝ) :
    (stops path (cuts path points tolerance) tolerance).head?.map Stop.place = path.head? := by
  rw [head?_stops, Option.map_map, ← map_snd_vertices path, List.head?_map, map_snd_vertices path]
  rfl

theorem stops_last_place (htol : 0 ≤ tolerance) (hpath : path ≠ []) :
    (stops path (cuts path points tolerance) tolerance).getLast?.map Stop.place =
      path.getLast? := by
  have hne := List.getLast?_eq_some_getLast (stops_ne_nil points tolerance hpath)
  obtain ⟨v, hv, hlast⟩ := stops_last points htol hne
  rw [hne, Option.map_some, Stop.place_of_vertex? hv, ← map_snd_vertices path, List.getLast?_map,
    hlast, Option.map_some]

theorem inserted_on_segment (htol : 0 ≤ tolerance) {before after : List (Stop ℝ)} {cut : Cut ℝ}
    (hway : stops path (cuts path points tolerance) tolerance = before ++ .inserted cut :: after) :
    ∃ i start stop, (before.filterMap Stop.vertex?).length = i + 1 ∧
      IsSegment (vertices path) i start stop ∧ start.1 < cut.arc ∧
        cut.arc < stop.1 - tolerance := by
  cases hvertices : vertices path with
  | nil => simp [stops, hvertices] at hway
  | cons u rest =>
      rw [stops_of_vertices _ _ hvertices] at hway
      obtain ⟨before, rfl, hrest⟩ := List.cons_eq_append_iff.mp hway |>.resolve_left (by simp)
      obtain ⟨start, stop, hseg, hlo, hhi⟩ :=
        inserted_between (underway_start points htol hvertices) htol hrest
      exact ⟨_, start, stop, rfl, hseg, hlo, hhi⟩

end Way

/-- Cutting a path whose neighbours are at different places divides it. -/
theorem splitAt_division (path : Path ℝ) (points : List (Position ℝ)) (tolerance : ℝ)
    (hlen : 2 ≤ path.length) (hpath : path.IsChain fun p q => ¬(p.x = q.x ∧ p.y = q.y))
    (htol : 0 ≤ tolerance) :
    Division path points tolerance (cuts path points tolerance) (splitAt path points tolerance)
      (stops path (cuts path points tolerance) tolerance) := by
  have hne : path ≠ [] := by
    rintro rfl
    cases hlen
  have hruns : splitAt path points tolerance =
      (runs (stops path (cuts path points tolerance) tolerance)).map (List.map Stop.place) := by
    rw [splitAt_eq_pieceRuns, pieceRuns_eq_runs points htol hlen hpath]
  refine ⟨?count, ?whole, ?first, ?last, ?meet, ?places, hruns, ?positions, ?once, ?near, ?between⟩
  case count =>
    rw [hruns, List.length_map, length_runs head_stops_uncut, filterMap_cut?_stops points htol hne]
  case whole =>
    intro hnone
    simp [splitAt, hnone]
  case first =>
    obtain ⟨run, hrun, hhead⟩ := head?_runs (stops path (cuts path points tolerance) tolerance)
    rw [hruns, List.head?_map, hrun, Option.map_some, Option.bind_some, List.head?_map, hhead]
    exact stops_head_place points tolerance
  case last =>
    obtain ⟨run, hrun, hlast⟩ := getLast?_runs (stops path (cuts path points tolerance) tolerance)
    rw [hruns, List.getLast?_map, hrun, Option.map_some, Option.bind_some, List.getLast?_map, hlast]
    exact stops_last_place points htol hne
  case meet =>
    rw [hruns, List.isChain_map]
    refine (runs_isChain _).imp fun p q hpq => ?_
    obtain ⟨s, hp, hq, -⟩ := hpq
    exact ⟨s.place, by simp [List.getLast?_map, hp], by simp [List.head?_map, hq]⟩
  case places => rw [hruns, joined_map, joined_runs]
  case positions => exact filterMap_vertex?_stops path _ _
  case once => exact filterMap_cut?_stops points htol hne
  case near =>
    intro arc place cut h
    exact cut_near_stop points htol h rfl
  case between =>
    intro before cut after hsplit
    obtain ⟨i, start, stop, hcount, hseg, hlo, hhi⟩ := inserted_on_segment points htol hsplit
    have hstop : .inserted cut ∈ stops path (cuts path points tolerance) tolerance := by
      simp [hsplit]
    have hmem := mem_cuts_of_stop htol hstop rfl
    obtain ⟨p, hp, j, hloc⟩ := mem_cuts_located hmem
    obtain rfl := hloc.eq_of_between hseg hlo (by linarith)
    refine ⟨j, start, stop, hcount, hseg, hlo, hhi, p, hp, hloc, ?_⟩
    obtain ⟨start', stop', t, hseg', ht, rfl⟩ := hloc.here
    obtain ⟨rfl, rfl⟩ := hseg'.unique hseg
    exact ⟨t, ht, rfl, fun a b ha hb => cutPosition_of_heights t ha hb⟩

/-- A path in space that turns, and a point on its first segment. -/
theorem splitAt_division_of_turn :
    2 ≤ [(⟨0, 0, some 0⟩ : Position ℝ), ⟨4, 0, some 8⟩, ⟨4, 3, some 8⟩].length ∧
    [(⟨0, 0, some 0⟩ : Position ℝ), ⟨4, 0, some 8⟩, ⟨4, 3, some 8⟩].IsChain
      (fun p q => ¬(p.x = q.x ∧ p.y = q.y)) ∧ (0 : ℝ) ≤ 1 / 8 ∧
    Division [⟨0, 0, some 0⟩, ⟨4, 0, some 8⟩, ⟨4, 3, some 8⟩] [⟨1, 0, none⟩] (1 / 8)
      (cuts [⟨0, 0, some 0⟩, ⟨4, 0, some 8⟩, ⟨4, 3, some 8⟩] [⟨1, 0, none⟩] (1 / 8))
      (splitAt [⟨0, 0, some 0⟩, ⟨4, 0, some 8⟩, ⟨4, 3, some 8⟩] [⟨1, 0, none⟩] (1 / 8))
      (stops [⟨0, 0, some 0⟩, ⟨4, 0, some 8⟩, ⟨4, 3, some 8⟩]
        (cuts [⟨0, 0, some 0⟩, ⟨4, 0, some 8⟩, ⟨4, 3, some 8⟩] [⟨1, 0, none⟩] (1 / 8))
        (1 / 8)) := by
  have hlen : 2 ≤ [(⟨0, 0, some 0⟩ : Position ℝ), ⟨4, 0, some 8⟩, ⟨4, 3, some 8⟩].length := by
    simp
  have hpath : [(⟨0, 0, some 0⟩ : Position ℝ), ⟨4, 0, some 8⟩, ⟨4, 3, some 8⟩].IsChain
      (fun p q => ¬(p.x = q.x ∧ p.y = q.y)) := by
    simp
  have htol : (0 : ℝ) ≤ 1 / 8 := by norm_num
  exact ⟨hlen, hpath, htol, splitAt_division _ [⟨1, 0, none⟩] (1 / 8) hlen hpath htol⟩

end Geospatial.Path
