import Geospatial.Proofs.Geometry.Components
import Mathlib.Data.Set.List

/-!
# Putting components together again

The components of a geometry of one family make up a multi-geometry. It has them as its components,
in their order, with lines in place of rings, and is what its own components make up. The rows of
positions of a geometry are those of its components, one after the other; where the geometry has
heights and a component has none, its rows get a height that is missing.
-/

namespace Geospatial.Geometry

variable {α : Type} {g : Geometry α}

/-! ## Multi-geometries -/

/-- A component as a part of a multi-geometry: a ring counts as the line of its positions. -/
def opened : Geometry α → Geometry α
  | linearRing path => lineString path
  | g => g

structure Rebuilt (f : Family) (g m : Geometry α) : Prop where
  gives : assemble f g.components = .ok m
  family_eq : m.family = .ok f
  components_eq : m.components = g.components.map opened
  /-- Taken apart and put together again it is the same. -/
  rests : assemble f m.components = .ok m

/-- Contents that were made geometries are read off them again. -/
theorem mapM_map_of_reads {β : Type} {wrap : β → Geometry α} {read : Geometry α → Except Failure β}
    (h : ∀ content, read (wrap content) = .ok content) (contents : List β) :
    (contents.map wrap).mapM read = .ok contents := by
  have hread : contents.mapM (read ∘ wrap) = .ok (contents.map id) :=
    mapM_ok fun content _ => h content
  rw [List.mapM_map, hread, List.map_id]

theorem asPoint_point (p : Position α) : asPoint (point (some p)) = .ok p := rfl

theorem asPolygon_polygon (area : Polygon α) : asPolygon (polygon area) = .ok area := rfl

theorem assemble_points (points : List (Position α)) :
    assemble .puntal (points.map fun p => point (some p)) = .ok (ofPoints points) := by
  rw [assemble, mapM_map_of_reads asPoint_point]
  rfl

/-- Lines and rings are put together as the lines of their positions. -/
theorem assemble_lines {items : List (Geometry α)}
    (h : ∀ c ∈ items, c.IsComponent ∧ c.family = .ok .lineal) :
    assemble .lineal items = .ok (multiLineString (items.map positions)) := by
  have hread : items.mapM asPath = .ok (items.map positions) := by
    refine mapM_ok fun c hc => ?_
    obtain ⟨hcomponent, hline⟩ := h c hc
    cases hcomponent with
    | point _ => cases hline
    | lineString hpath => simp [asPath, positions, hpath]
    | linearRing hpath => simp [asPath, positions, hpath]
    | polygon _ => cases hline
  rw [assemble, hread]
  rfl

/-- Areas are put together without those that are empty. -/
theorem assemble_areas (areas : List (Polygon α)) :
    assemble .polygonal (areas.map polygon) =
      .ok (multiPolygon (areas.filter fun area => !area.isEmpty)) := by
  have hparts : (areas.map polygon).filter (fun part => !part.isEmpty) =
      (areas.filter fun area => !area.isEmpty).map polygon := by
    rw [List.filter_map]
    rfl
  have hnone : ((areas.filter fun area => !area.isEmpty).map polygon).any
      isMultiPolygon = false := by
    rw [List.any_map, List.any_eq_false]
    exact fun area _ => Bool.false_ne_true
  have hread : ((areas.filter fun area => !area.isEmpty).map polygon).mapM
      asPolygon = .ok (areas.filter fun area => !area.isEmpty) :=
    mapM_map_of_reads asPolygon_polygon _
  unfold assemble asPolygons
  simp only [hparts, hnone, hread]
  rfl

/-! ## Components of one family -/

/-- Geometries that all come from contents of one kind. -/
theorem exists_contents {β : Type} (wrap : β → Geometry α) {items : List (Geometry α)}
    (h : ∀ c ∈ items, ∃ content, wrap content = c) :
    ∃ contents : List β, contents.map wrap = items := by
  have hrange : items ∈ Set.range (List.map wrap) := by
    rw [Set.range_list_map]
    exact h
  exact hrange

theorem rebuilt_points (h : ∀ c ∈ g.components, c.family = .ok .puntal) :
    ∃ m, Rebuilt .puntal g m := by
  obtain ⟨points, hpoints⟩ := exists_contents (fun p => point (some p)) fun c hc => by
    obtain ⟨p, hp⟩ := (isComponent_of_mem hc).of_puntal (h c hc)
    exact ⟨p, hp.symm⟩
  have hgives := assemble_points points
  have hcomponents := components_ofPoints points
  refine ⟨ofPoints points, ?_, rfl, ?_, by rw [hcomponents, hgives]⟩
  · rw [← hpoints, hgives]
  · rw [hcomponents, ← hpoints, List.map_map]
    rfl

theorem lineString_positions {c : Geometry α} (hc : c.IsComponent)
    (h : c.family = .ok .lineal) : lineString c.positions = opened c := by
  obtain ⟨path, rfl | rfl⟩ := hc.of_lineal h
  · rfl
  · rfl

theorem opened_positions (c : Geometry α) : (opened c).positions = c.positions := by
  cases c <;> rfl

theorem rebuilt_lines (h : ∀ c ∈ g.components, c.family = .ok .lineal) :
    ∃ m, Rebuilt .lineal g m := by
  let m : Geometry α := multiLineString (g.components.map positions)
  have hgives : assemble .lineal g.components = .ok m :=
    assemble_lines fun c hc => ⟨isComponent_of_mem hc, h c hc⟩
  have hkept : (g.components.map positions).filter (fun path => !path.isEmpty) =
      g.components.map positions := by
    refine List.filter_eq_self.mpr fun path hpath => ?_
    obtain ⟨c, hc, rfl⟩ := List.mem_map.mp hpath
    simpa using (isComponent_of_mem hc).positions_ne_nil
  have hopened : m.components = g.components.map opened := by
    rw [components, hkept, List.map_map]
    exact List.map_congr_left fun c hc => lineString_positions (isComponent_of_mem hc) (h c hc)
  -- The lines that the rings became have the positions of the rings.
  have hrests : assemble .lineal m.components = .ok m := by
    have hlines : ∀ c ∈ m.components, c.IsComponent ∧ c.family = .ok .lineal := fun c hc =>
      ⟨isComponent_of_mem hc, family_of_mem_components (g := m) rfl (by decide) hc⟩
    have hsame : m.components.map positions = g.components.map positions := by
      rw [hopened, List.map_map]
      exact List.map_congr_left fun c _ => opened_positions c
    rw [assemble_lines hlines, hsame]
  exact ⟨m, hgives, rfl, hopened, hrests⟩

theorem rebuilt_areas (h : ∀ c ∈ g.components, c.family = .ok .polygonal) :
    ∃ m, Rebuilt .polygonal g m := by
  obtain ⟨areas, hareas⟩ := exists_contents polygon fun c hc => by
    obtain ⟨p, hp, -⟩ := (isComponent_of_mem hc).of_polygonal (h c hc)
    exact ⟨p, hp.symm⟩
  have hkept : (areas.filter fun area => !area.isEmpty) = areas := by
    refine List.filter_eq_self.mpr fun area harea => ?_
    have hmem : polygon area ∈ g.components := hareas ▸ List.mem_map_of_mem harea
    cases isComponent_of_mem hmem with
    | polygon hshell => simpa [Polygon.isEmpty] using hshell
  have hgives := assemble_areas areas
  rw [hkept] at hgives
  have hcomponents : (multiPolygon areas).components = areas.map polygon := by
    rw [components, hkept]
  refine ⟨multiPolygon areas, ?_, rfl, ?_, ?_⟩
  · rw [← hareas, hgives]
  · rw [hcomponents, ← hareas, List.map_map]
    rfl
  · rw [hcomponents, hgives]

theorem exists_rebuilt {f : Family} (hf : f ≠ .mixed) (h : g.family = .ok f) :
    ∃ m, Rebuilt f g m := by
  have hall : ∀ c ∈ g.components, c.family = .ok f :=
    fun c hc => family_of_mem_components h hf hc
  cases f with
  | puntal => exact rebuilt_points hall
  | lineal => exact rebuilt_lines hall
  | polygonal => exact rebuilt_areas hall
  | mixed => exact absurd rfl hf

/-! ## Rows of positions -/

theorem hasHeight_of_mem_components {c : Geometry α} (hc : c ∈ g.components)
    (h : c.hasHeight = true) : g.hasHeight = true := by
  obtain ⟨p, hp, hheight⟩ := List.any_eq_true.mp h
  exact List.any_eq_true.mpr ⟨p, positions_subset hc hp, hheight⟩

/-- The rows of a geometry that can be built are those of its components. -/
theorem Formed.evenPositions_eq [Div α] [OfNat α 0] (hg : g.Formed) :
    g.evenPositions = g.components.flatMap fun c =>
      if g.hasHeight && !c.hasHeight then
        c.evenPositions.map fun p => { p with z := some (0 / 0) }
      else c.evenPositions := by
  cases hheight : g.hasHeight with
  | false =>
      rw [evenPositions, if_neg (by simp [hheight]), hg.positions_eq]
      refine List.flatMap_congr fun c hc => ?_
      have hflat : c.hasHeight = false := by
        by_contra hc'
        rw [hasHeight_of_mem_components hc (by simpa using hc')] at hheight
        cases hheight
      simp [evenPositions, hflat]
  | true =>
      rw [evenPositions, if_pos hheight, hg.positions_eq, List.map_flatMap]
      refine List.flatMap_congr fun c hc => ?_
      cases hc' : c.hasHeight with
      | true => simp [evenPositions, hc']
      | false =>
          have hnone : ∀ p ∈ c.positions, p.z = none := by
            simpa [hasHeight, Position.hasHeight] using hc'
          simp only [evenPositions, hc', Bool.not_false, Bool.and_true, if_true]
          refine List.map_congr_left fun p hp => ?_
          rw [hnone p hp]
          rfl

/-- The components of a geometry give it back: put together, where it is of one family, and by
their rows. -/
theorem components_restore (g : Geometry Float) (hg : g.Formed) :
    (∀ f ≠ Family.mixed, g.family = .ok f → ∃ m, Rebuilt f g m) ∧
      ∃ missing : Float, missing.isNaN = true ∧
        g.evenPositions = g.components.flatMap fun c =>
          if g.hasHeight && !c.hasHeight then
            c.evenPositions.map fun p => { p with z := some missing }
          else c.evenPositions :=
  ⟨fun _ hf h => exists_rebuilt hf h, 0 / 0, by decide +kernel, hg.evenPositions_eq⟩

/-! ## A level ring beside a climb -/

def slopes : Geometry Float :=
  .collection [
    .linearRing [⟨0, 0, none⟩, ⟨4, 0, none⟩, ⟨0, 4, none⟩, ⟨0, 0, none⟩],
    .collection [
      .lineString [],
      .multiLineString [[], [⟨1, 1, some 5⟩, ⟨2, 1, some 6⟩]]]]

theorem slopes_formed : slopes.Formed := by
  refine .collection fun part hpart => ?_
  rcases List.mem_pair.mp hpart with rfl | rfl
  · exact .linearRing _
  · refine .collection fun inner hinner => ?_
    rcases List.mem_pair.mp hinner with rfl | rfl
    · exact .lineString _
    · exact .multiLineString _

/-- The ring and the line make up a multi-line, and the first row of the ring gets a height. -/
theorem components_restore_of_slopes :
    slopes.Formed ∧ (∃ m, Rebuilt .lineal slopes m ∧ m.components.length = 2) ∧
      ∃ missing : Float, missing.isNaN = true ∧
        slopes.evenPositions.head? = some ⟨0, 0, some missing⟩ := by
  obtain ⟨hrebuilt, missing, hmissing, hrows⟩ := components_restore slopes slopes_formed
  obtain ⟨m, hm⟩ := hrebuilt .lineal (by decide) rfl
  refine ⟨slopes_formed, ⟨m, hm, ?_⟩, missing, hmissing, ?_⟩
  · rw [hm.components_eq, List.length_map]
    rfl
  · rw [hrows]
    rfl

end Geospatial.Geometry
