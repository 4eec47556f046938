import Geospatial.Proofs.Path.Clear
import Geospatial.Proofs.Path.Halves
import Geospatial.Proofs.Split.Lines

/-!
# Splitting a line from its end

Where the points of a blade are clear on a line, the line is split from its end as from its start:
its pieces are the same, each taken from its end. A line that comes back to a point of the blade is
split there on the first segment through it only, and that segment is another one from its end.
-/

namespace Geospatial.Split

variable {Net : Type}

theorem evenPositions_reverse (path : Path ℝ) :
    (Geometry.lineString path.reverse).evenPositions =
      (Geometry.lineString path).evenPositions.reverse := by
  have hheight : (Geometry.lineString path.reverse).hasHeight =
      (Geometry.lineString path).hasHeight := List.any_reverse
  unfold Geometry.evenPositions
  rw [hheight]
  split
  · exact List.map_reverse
  · rfl

/-- A line on which the points of a blade are clear is split the same from both ends. -/
theorem lines_reverse (k : PlanarKernel ℝ Net) (path : Path ℝ)
    (points : List (Option (Position ℝ))) (tolerance : ℝ) (htol : 0 ≤ tolerance)
    (hclear : Path.Clear (Geometry.lineString path).evenPositions
      (Geometry.multiPoint points).positions tolerance) :
    ∃ pieces : List (Path ℝ),
      lines k (.lineString path) (.multiPoint points) tolerance = .ok (.multiLineString pieces) ∧
      lines k (.lineString path.reverse) (.multiPoint points) tolerance =
        .ok (.multiLineString (pieces.map List.reverse).reverse) := by
  by_cases hne : path = []
  · subst hne
    exact ⟨[], lines_of_no_line k points tolerance (Or.inl rfl),
      lines_of_no_line k points tolerance (Or.inl rfl)⟩
  · have hne' : path.reverse ≠ [] := by simpa using hne
    refine ⟨_, lines_of_line k points tolerance (Or.inl rfl) hne, ?_⟩
    rw [lines_of_line k points tolerance (Or.inl rfl) hne', evenPositions_reverse,
      Path.splitAt_reverse hclear htol]

/-! ## A hook -/

noncomputable def hook : Path ℝ := spacePath [(0, 0, 0), (20, 0, 40), (20, 15, 40)]

noncomputable def hookPoints : List (Position ℝ) := planePath [(5, 0), (20, 1)]

theorem hook_eq : hook = [⟨0, 0, some 0⟩, ⟨20, 0, some 40⟩, ⟨20, 15, some 40⟩] := by
  simp [hook, spacePath]

theorem mem_hookPoints {p : Position ℝ} :
    p ∈ hookPoints ↔ p = ⟨5, 0, none⟩ ∨ p = ⟨20, 1, none⟩ := by
  simp [hookPoints, planePath]

theorem vertices_hook :
    Path.vertices hook = [(0, ⟨0, 0, some 0⟩), (20, ⟨20, 0, some 40⟩), (35, ⟨20, 15, some 40⟩)] := by
  have hfirst : Path.distance (⟨0, 0, some 0⟩ : Position ℝ) ⟨20, 0, some 40⟩ = 20 :=
    Path.distance_eq_of_sq (by norm_num) (by norm_num)
  have hsecond : Path.distance (⟨20, 0, some 40⟩ : Position ℝ) ⟨20, 15, some 40⟩ = 15 :=
    Path.distance_eq_of_sq (by norm_num) (by norm_num)
  rw [hook_eq, ← Path.verticesFrom_zero]
  simp only [Path.verticesFrom_cons_cons, Path.verticesFrom_singleton, hfirst, hsecond]
  norm_num

theorem liesAt_hook {p : Position ℝ} {cut : Path.Cut ℝ} (h : Path.LiesAt hook 1 p cut) :
    (∃ t, Path.locate p ⟨0, 0, some 0⟩ ⟨20, 0, some 40⟩ 1 = some t ∧
      cut = Path.cutOn p (0, ⟨0, 0, some 0⟩) (20, ⟨20, 0, some 40⟩) t) ∨
    ∃ t, Path.locate p ⟨20, 0, some 40⟩ ⟨20, 15, some 40⟩ 1 = some t ∧
      cut = Path.cutOn p (20, ⟨20, 0, some 40⟩) (35, ⟨20, 15, some 40⟩) t := by
  obtain ⟨i, start, stop, t, hseg, hloc, hcut⟩ := h
  rw [vertices_hook] at hseg
  match i, hseg with
  | 0, hseg =>
      obtain ⟨rfl, rfl⟩ := Path.isSegment_zero.mp hseg
      exact Or.inl ⟨t, hloc, hcut⟩
  | 1, hseg =>
      obtain ⟨rfl, rfl⟩ : (20, ⟨20, 0, some 40⟩) = start ∧ (35, ⟨20, 15, some 40⟩) = stop := by
        simpa [Path.IsSegment] using hseg
      exact Or.inr ⟨t, hloc, hcut⟩
  | i + 2, hseg => cases hseg.2

theorem liesAt_hook_first {cut : Path.Cut ℝ} (h : Path.LiesAt hook 1 ⟨5, 0, none⟩ cut) :
    cut = ⟨5, ⟨5, 0, some 10⟩⟩ := by
  rcases liesAt_hook h with ⟨t, hloc, rfl⟩ | ⟨t, hloc, -⟩
  · have halong : Path.Along (⟨5, 0, none⟩ : Position ℝ) ⟨0, 0, some 0⟩ ⟨20, 0, some 40⟩
        (1 / 4) := by
      constructor <;> norm_num
    have ht := (Path.locate_eq_some_iff.mp hloc).2
    rw [halong.dominantFraction_eq (by norm_num [Path.SamePlace])] at ht
    subst ht
    norm_num [Path.cutOn, Path.cutPosition]
  · -- all of the second segment is further away
    obtain ⟨u, hu⟩ := Path.exists_along_nearest ⟨5, 0, none⟩ ⟨20, 0, some 40⟩ ⟨20, 15, some 40⟩
    have hfar := (Path.locate_eq_some_iff.mp hloc).1
    have hgap := Path.abs_sub_le_distance
      (Path.nearest ⟨5, 0, none⟩ ⟨20, 0, some 40⟩ ⟨20, 15, some 40⟩) ⟨5, 0, none⟩
    rw [hu.x_eq] at hgap
    norm_num at hgap
    linarith

/-- The point near the turn lies at the end of the first segment and on the second. -/
theorem liesAt_hook_turn {cut : Path.Cut ℝ} (h : Path.LiesAt hook 1 ⟨20, 1, none⟩ cut) :
    20 ≤ cut.arc ∧ cut.arc ≤ 21 := by
  rcases liesAt_hook h with ⟨t, hloc, rfl⟩ | ⟨t, hloc, rfl⟩
  · have ht := (Path.locate_eq_some_iff.mp hloc).2
    rw [Path.dominantFraction_eq, if_pos (by norm_num),
      Path.Along.axisFraction_eq zero_le_one le_rfl (by norm_num) (by norm_num)] at ht
    subst ht
    norm_num [Path.cutOn]
  · have ht := (Path.locate_eq_some_iff.mp hloc).2
    have hfraction : Path.axisFraction (1 : ℝ) 0 (15 - 0) = 1 / 15 :=
      Path.Along.axisFraction_eq (by norm_num) (by norm_num) (by norm_num) (by norm_num)
    rw [Path.dominantFraction_eq, if_neg (by norm_num), hfraction] at ht
    subst ht
    norm_num [Path.cutOn]

theorem touches_hook {cut : Path.Cut ℝ} (h : Path.Touches hook hookPoints 1 cut) :
    cut = ⟨5, ⟨5, 0, some 10⟩⟩ ∨ (20 ≤ cut.arc ∧ cut.arc ≤ 21) := by
  obtain ⟨⟨p, hp, hlies⟩, -⟩ := h
  rcases mem_hookPoints.mp hp with rfl | rfl
  · exact Or.inl (liesAt_hook_first hlies)
  · exact Or.inr (liesAt_hook_turn hlies)

/-- What lies within the tolerance of a position lies near the turn. -/
theorem near_hook {cut : Path.Cut ℝ} {v : ℝ × Position ℝ}
    (h : Path.Touches hook hookPoints 1 cut) (hv : v ∈ Path.vertices hook)
    (hnear : Path.Near 1 cut v) :
    v = (20, ⟨20, 0, some 40⟩) ∧ 20 ≤ cut.arc ∧ cut.arc ≤ 21 := by
  rw [Path.Near, abs_le] at hnear
  rw [vertices_hook] at hv
  simp only [List.mem_cons, List.not_mem_nil, or_false] at hv
  rcases touches_hook h with rfl | hc
  · rcases hv with rfl | rfl | rfl <;> norm_num at hnear
  · rcases hv with rfl | rfl | rfl
    · norm_num at hnear
      linarith
    · exact ⟨rfl, hc⟩
    · norm_num at hnear
      linarith

theorem clear_hook : Path.Clear hook hookPoints 1 := by
  have hturn : (20, ⟨20, 0, some 40⟩) ∈ Path.vertices hook := by simp [vertices_hook]
  have hlast : (35, ⟨20, 15, some 40⟩) ∈ (Path.vertices hook).getLast? := by simp [vertices_hook]
  have hlength : Path.totalLength hook = 35 := (Path.vertices_getLast? hlast).symm
  have halike : ∀ c d : Path.Cut ℝ, 20 ≤ c.arc ∧ c.arc ≤ 21 → 20 ≤ d.arc ∧ d.arc ≤ 21 →
      Path.Alike hook 1 c d := by
    rintro c d ⟨hclo, hchi⟩ ⟨hdlo, hdhi⟩
    refine Or.inr ⟨_, hturn, ?_, ?_⟩
    · rw [Path.Near, abs_le]
      constructor <;> linarith
    · rw [Path.Near, abs_le]
      constructor <;> linarith
  constructor
  case distinct => norm_num [hook_eq, Path.SamePlace]
  case once =>
    intro p hp c d hc hd hoff
    rcases mem_hookPoints.mp hp with rfl | rfl
    · obtain rfl := liesAt_hook_first hc
      obtain rfl := liesAt_hook_first hd
      exact ⟨hoff, Or.inl rfl⟩
    · have hd' := liesAt_hook_turn hd
      refine ⟨?_, halike c d (liesAt_hook_turn hc) hd'⟩
      rw [Path.OffEnds, hlength]
      constructor <;> linarith
  case apart =>
    intro c d hc hd hgap
    rw [abs_le] at hgap
    rcases touches_hook hc with rfl | hc
    · rcases touches_hook hd with rfl | hd
      · exact Or.inl rfl
      · norm_num at hgap
        linarith
    · rcases touches_hook hd with rfl | hd
      · norm_num at hgap
        linarith
      · exact halike c d hc hd
  case single =>
    intro c hc u hu v hv hcu hcv
    rw [(near_hook hc hu hcu).1, (near_hook hc hv hcv).1]
  case close =>
    intro c d hc hd v hv hcv hdv
    obtain ⟨-, hclo, hchi⟩ := near_hook hc hv hcv
    obtain ⟨-, hdlo, hdhi⟩ := near_hook hd hv hdv
    rw [abs_le]
    constructor <;> linarith

/-- The hook split on the way along its first segment and at its turn; an empty point cuts
nothing. -/
theorem lines_reverse_of_hook :
    (0 : ℝ) ≤ 1 ∧ Path.Clear (Geometry.lineString hook).evenPositions
      (Geometry.multiPoint (none :: hookPoints.map some)).positions 1 ∧
    ∃ pieces : List (Path ℝ),
      lines barePlane (.lineString hook) (.multiPoint (none :: hookPoints.map some)) 1 =
        .ok (.multiLineString pieces) ∧
      lines barePlane (.lineString hook.reverse) (.multiPoint (none :: hookPoints.map some)) 1 =
        .ok (.multiLineString (pieces.map List.reverse).reverse) := by
  have heven : EvenHeights hook := spacePath_even _
  have hpoints : (Geometry.multiPoint (none :: hookPoints.map some)).positions = hookPoints :=
    Geometry.positions_ofPoints hookPoints
  have hclear : Path.Clear (Geometry.lineString hook).evenPositions
      (Geometry.multiPoint (none :: hookPoints.map some)).positions 1 := by
    rw [evenPositions_lineString heven, hpoints]
    exact clear_hook
  exact ⟨zero_le_one, hclear, lines_reverse barePlane hook _ 1 zero_le_one hclear⟩

/-! ## A line that crosses itself -/

noncomputable def crossing : Path ℝ := planePath [(0, 0), (4, 0), (4, 2), (2, 2), (2, -2)]

theorem crossing_eq : crossing =
    [⟨0, 0, none⟩, ⟨4, 0, none⟩, ⟨4, 2, none⟩, ⟨2, 2, none⟩, ⟨2, -2, none⟩] := by
  simp [crossing, planePath]

theorem splitAt_crossing : Path.splitAt crossing [⟨2, 0, none⟩] 0 =
    [[⟨0, 0, none⟩, ⟨2, 0, none⟩],
      [⟨2, 0, none⟩, ⟨4, 0, none⟩, ⟨4, 2, none⟩, ⟨2, 2, none⟩, ⟨2, -2, none⟩]] := by
  have halong : Path.Along (⟨2, 0, none⟩ : Position ℝ) ⟨0, 0, none⟩ ⟨4, 0, none⟩ (1 / 2) := by
    constructor <;> norm_num
  rw [crossing_eq, Path.splitAt_first_segment _ halong (by norm_num) (by norm_num)
    (by norm_num [Path.SamePlace])]
  simp [Path.cutPosition, Position.flat]

theorem splitAt_crossing_reverse : Path.splitAt crossing.reverse [⟨2, 0, none⟩] 0 =
    [[⟨2, -2, none⟩, ⟨2, 0, none⟩],
      [⟨2, 0, none⟩, ⟨2, 2, none⟩, ⟨4, 2, none⟩, ⟨4, 0, none⟩, ⟨0, 0, none⟩]] := by
  have halong : Path.Along (⟨2, 0, none⟩ : Position ℝ) ⟨2, -2, none⟩ ⟨2, 2, none⟩ (1 / 2) := by
    constructor <;> norm_num
  have hreverse : crossing.reverse =
      [⟨2, -2, none⟩, ⟨2, 2, none⟩, ⟨4, 2, none⟩, ⟨4, 0, none⟩, ⟨0, 0, none⟩] := by
    rw [crossing_eq]
    rfl
  rw [hreverse, Path.splitAt_first_segment _ halong (by norm_num) (by norm_num)
    (by norm_num [Path.SamePlace])]
  simp [Path.cutPosition, Position.flat]

/-- A line is not split the same from both ends at a point at which it crosses itself. -/
theorem lines_reverse_fails_at_crossing :
    ¬∃ pieces : List (Path ℝ),
      lines barePlane (.lineString crossing) (.multiPoint [some ⟨2, 0, none⟩]) 0 =
        .ok (.multiLineString pieces) ∧
      lines barePlane (.lineString crossing.reverse) (.multiPoint [some ⟨2, 0, none⟩]) 0 =
        .ok (.multiLineString (pieces.map List.reverse).reverse) := by
  have heven : EvenHeights crossing := planePath_even _
  have hpoint : (Geometry.multiPoint [some (⟨2, 0, none⟩ : Position ℝ)]).positions =
      [⟨2, 0, none⟩] := rfl
  rintro ⟨pieces, hpieces, hmirrored⟩
  rw [lines_of_line barePlane _ 0 (Or.inl rfl) (by simp [crossing_eq]),
    evenPositions_lineString heven, hpoint, splitAt_crossing] at hpieces
  rw [lines_of_line barePlane _ 0 (Or.inl rfl) (by simp [crossing_eq]), evenPositions_reverse,
    evenPositions_lineString heven, hpoint, splitAt_crossing_reverse] at hmirrored
  cases hpieces
  -- the first pieces have two positions and five
  simp at hmirrored

end Geospatial.Split
