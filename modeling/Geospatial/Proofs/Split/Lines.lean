import Geospatial.Proofs.Geometry.Components
import Geospatial.Proofs.Geometry.Rows
import Geospatial.Proofs.Path.Boundaries
import Geospatial.Split.Split

/-!
# Splitting lines at points

A blade that is points cuts every line of a target at all of them. The pieces of a line have heights
throughout or not at all, as its positions have, so they can be split again as they are.
-/

namespace Geospatial

variable {α Net : Type}

/-! ## Even heights -/

theorem evenPositions_of_even [Div α] [OfNat α 0] {g : Geometry α} (h : EvenHeights g.positions) :
    g.evenPositions = g.positions := by
  unfold Geometry.evenPositions
  by_cases hheight : g.hasHeight
  · have hall : ∀ p ∈ g.positions, p.z ≠ none := by
      obtain ⟨q, hq, hz⟩ := List.any_eq_true.mp hheight
      rcases h with h | h
      · exact h
      · simp [Position.hasHeight, h q hq] at hz
    rw [if_pos hheight]
    refine (List.map_congr_left fun p hp => ?_).trans (List.map_id _)
    obtain ⟨z, hz⟩ := Option.ne_none_iff_exists'.mp (hall p hp)
    obtain ⟨x, y, _⟩ := p
    subst hz
    rfl
  · rw [if_neg hheight]

theorem evenPositions_lineString [Div α] [OfNat α 0] {path : Path α} (h : EvenHeights path) :
    (Geometry.lineString path).evenPositions = path :=
  evenPositions_of_even h

theorem even_evenPositions [Div α] [OfNat α 0] (g : Geometry α) :
    EvenHeights g.evenPositions := by
  unfold Geometry.evenPositions
  by_cases hheight : g.hasHeight
  · rw [if_pos hheight]
    refine Or.inl fun p hp => ?_
    obtain ⟨q, -, rfl⟩ := List.mem_map.mp hp
    exact Option.some_ne_none _
  · rw [if_neg hheight]
    refine Or.inr fun p hp => ?_
    have hnone : ∀ q ∈ g.positions, q.z = none := by
      simpa [Geometry.hasHeight, Position.hasHeight] using hheight
    exact hnone p hp

namespace Split

/-- Empty points of a blade cut nothing. -/
theorem ofGeometry_multiPoint (k : PlanarKernel α Net) (points : List (Option (Position α))) :
    Blade.ofGeometry k (.multiPoint points) =
      .ok ⟨(Geometry.multiPoint points).positions, none⟩ := by
  have hpoints : (Geometry.multiPoint points).components.flatMap Blade.pointOf =
      (Geometry.multiPoint points).positions := by
    simp [Geometry.components, Geometry.positions, Blade.pointOf, List.flatMap_map]
  have hlines : (Geometry.multiPoint points).components.flatMap Blade.linesOf = [] := by
    simp [Geometry.components, Blade.linesOf]
  unfold Blade.ofGeometry
  simp only [hpoints, hlines]
  rfl

section Components

variable [Add α] [Sub α] [Mul α] [Div α] [Neg α] [OfNat α 0] [OfNat α 1] [LT α] [LE α]
  [DecidableLT α] [DecidableLE α] [BEq α] [Root α]

/-- Every component of a target is cut at its own positions. -/
theorem lines_eq (k : PlanarKernel α Net) {target blade : Geometry α} {parts : Blade α Net}
    {points : Geometry α → List (Position α)} (tolerance : α) (htarget : target.isUnknown = false)
    (hblade : blade.isUnknown = false) (hparts : Blade.ofGeometry k blade = .ok parts)
    (hpaths : ∀ c ∈ target.components, pathOf c = .ok c.evenPositions)
    (hpoints : ∀ c ∈ target.components, parts.cutPositions k c = .ok (points c)) :
    lines k target blade tolerance = .ok (.multiLineString (target.components.flatMap fun c =>
      Path.splitAt c.evenPositions (points c) tolerance)) := by
  have hpieces : target.components.mapM (piecesOfPath k parts tolerance) =
      .ok (target.components.map fun c => Path.splitAt c.evenPositions (points c) tolerance) := by
    refine mapM_ok fun c hc => ?_
    unfold piecesOfPath
    rw [hpoints c hc, hpaths c hc]
    rfl
  unfold lines
  rw [Geometry.readable_eq htarget, Geometry.readable_eq hblade]
  simp only [bind, Except.bind, hparts, hpieces]
  rfl

end Components

theorem lines_multiPoint (k : PlanarKernel ℝ Net) {target : Geometry ℝ}
    (points : List (Option (Position ℝ))) (tolerance : ℝ) (hread : target.isUnknown = false)
    (hpaths : ∀ c ∈ target.components, pathOf c = .ok c.evenPositions) :
    lines k target (.multiPoint points) tolerance =
      .ok (.multiLineString (target.components.flatMap fun c =>
        Path.splitAt c.evenPositions (Geometry.multiPoint points).positions tolerance)) :=
  lines_eq k tolerance hread rfl (ofGeometry_multiPoint k points) hpaths fun _ _ => rfl

/-- Points cut a line that has a position at all of them. -/
theorem lines_of_line (k : PlanarKernel ℝ Net) {target : Geometry ℝ} {path : Path ℝ}
    (points : List (Option (Position ℝ))) (tolerance : ℝ)
    (hline : target = .lineString path ∨ target = .linearRing path) (hne : path ≠ []) :
    lines k target (.multiPoint points) tolerance =
      .ok (.multiLineString (Path.splitAt target.evenPositions
        (Geometry.multiPoint points).positions tolerance)) := by
  have hempty : path.isEmpty = false := by simpa using hne
  have hcomponents : target.components = [target] := by
    rcases hline with rfl | rfl
    · simp [Geometry.components, hempty]
    · simp [Geometry.components, hempty]
  rw [lines_multiPoint k points tolerance ?_ ?_, hcomponents, List.flatMap_singleton]
  · rcases hline with rfl | rfl <;> rfl
  · rw [hcomponents]
    intro c hc
    obtain rfl := List.mem_singleton.mp hc
    rcases hline with rfl | rfl <;> rfl

theorem lines_of_no_line (k : PlanarKernel ℝ Net) {target : Geometry ℝ}
    (points : List (Option (Position ℝ))) (tolerance : ℝ)
    (hline : target = .lineString [] ∨ target = .linearRing []) :
    lines k target (.multiPoint points) tolerance = .ok (.multiLineString []) := by
  have hcomponents : target.components = [] := by rcases hline with rfl | rfl <;> rfl
  rw [lines_multiPoint k points tolerance ?_ ?_, hcomponents]
  · rfl
  · rcases hline with rfl | rfl <;> rfl
  · rw [hcomponents]
    intro c hc
    cases hc

/-- Points cut every line of several with even heights. -/
theorem lines_multiLineString (k : PlanarKernel ℝ Net) {paths : List (Path ℝ)}
    (points : List (Option (Position ℝ))) (tolerance : ℝ) (hne : ∀ path ∈ paths, path ≠ [])
    (heven : ∀ path ∈ paths, EvenHeights path) :
    lines k (.multiLineString paths) (.multiPoint points) tolerance =
      .ok (.multiLineString (paths.flatMap fun path =>
        Path.splitAt path (Geometry.multiPoint points).positions tolerance)) := by
  have hcomponents : (Geometry.multiLineString paths).components = paths.map .lineString := by
    simp only [Geometry.components]
    rw [List.filter_eq_self.mpr]
    intro path hpath
    simpa using hne path hpath
  rw [lines_multiPoint k points tolerance rfl ?_, hcomponents, List.flatMap_map]
  · rw [List.flatMap_congr fun path hpath => ?_]
    rw [evenPositions_lineString (heven path hpath)]
  · rw [hcomponents]
    intro c hc
    obtain ⟨path, -, rfl⟩ := List.mem_map.mp hc
    rfl

/-- A plane in which linework touches nothing; without linework no other is asked. -/
def barePlane : PlanarKernel ℝ Unit where
  net _ := .ok ()
  common _ _ := .ok (.collection [])
  faces _ _ := .ok []
  innerPoint area := area.shell.headD ⟨0, 0, none⟩
  holds _ _ := false

noncomputable def planePath (places : List (ℤ × ℤ)) : Path ℝ :=
  places.map fun v => ⟨v.1, v.2, none⟩

noncomputable def spacePath (places : List (ℤ × ℤ × ℤ)) : Path ℝ :=
  places.map fun v => ⟨v.1, v.2.1, some (v.2.2 : ℝ)⟩

theorem planePath_even (places : List (ℤ × ℤ)) : EvenHeights (planePath places) := by
  refine Or.inr fun p hp => ?_
  obtain ⟨v, -, rfl⟩ := List.mem_map.mp hp
  rfl

theorem spacePath_even (places : List (ℤ × ℤ × ℤ)) : EvenHeights (spacePath places) := by
  refine Or.inl fun p hp => ?_
  obtain ⟨v, -, rfl⟩ := List.mem_map.mp hp
  exact Option.some_ne_none _

end Split

end Geospatial
