import Geospatial.Proofs.Geometry.Components

/-!
# Geometries without their heights

A geometry without its heights has the same parts, and they have their places in the plane left. It
has the components of the geometry, each without its heights, and the same positions, whether the
heights are made even before they are dropped or not.
-/

namespace Geospatial

variable {α : Type}

@[simp] theorem Position.flat_flat (p : Position α) : p.flat.flat = p.flat := rfl

namespace Polygon

def flat (p : Polygon α) : Polygon α :=
  ⟨p.shell.map Position.flat, p.holes.map (List.map Position.flat)⟩

@[simp] theorem flat_flat (p : Polygon α) : p.flat.flat = p.flat := by
  simp [flat, Function.comp_def]

@[simp] theorem isEmpty_flat (p : Polygon α) : p.flat.isEmpty = p.isEmpty := by
  simp [flat, isEmpty]

theorem rings_flat (p : Polygon α) : p.flat.rings = p.rings.map (List.map Position.flat) := by
  unfold rings
  rw [isEmpty_flat]
  split <;> rfl

theorem positions_flat (p : Polygon α) : p.flat.positions = p.positions.map Position.flat := by
  simp [flat, positions, List.map_flatten]

end Polygon

namespace Geometry

mutual

def flat : Geometry α → Geometry α
  | point p => point (p.map Position.flat)
  | lineString path => lineString (path.map Position.flat)
  | linearRing path => linearRing (path.map Position.flat)
  | polygon p => polygon p.flat
  | multiPoint points => multiPoint (points.map (Option.map Position.flat))
  | multiLineString paths => multiLineString (paths.map (List.map Position.flat))
  | multiPolygon polygons => multiPolygon (polygons.map Polygon.flat)
  | collection parts => collection (flatParts parts)
  | unknown name => unknown name

def flatParts : List (Geometry α) → List (Geometry α)
  | [] => []
  | part :: rest => flat part :: flatParts rest

end

theorem flatParts_eq_map (parts : List (Geometry α)) : flatParts parts = parts.map flat := by
  induction parts with
  | nil => rfl
  | cons part rest ih => rw [flatParts, ih, List.map_cons]

@[simp] theorem flat_collection (parts : List (Geometry α)) :
    (collection parts).flat = collection (parts.map flat) := by
  rw [flat, flatParts_eq_map]

theorem flat_flat (g : Geometry α) : g.flat.flat = g.flat := by
  induction g using induction_on_parts with
  | parts items ih =>
      rw [flat_collection, flat_collection, List.map_map]
      exact congrArg collection (List.map_congr_left ih)
  | other g hg =>
      cases g with
      | collection parts => exact absurd rfl (hg parts)
      | _ => simp [flat, Function.comp_def]

theorem isUnknown_flat (g : Geometry α) : g.flat.isUnknown = g.isUnknown := by
  cases g <;> rfl

theorem readable_flat (g : Geometry α) : g.flat.readable = g.readable.map flat := by
  unfold readable
  rw [isUnknown_flat]
  split <;> rfl

/-- Without heights a geometry has its components, each without its heights. -/
theorem components_flat (g : Geometry α) : g.flat.components = g.components.map flat := by
  induction g using induction_on_parts with
  | parts items ih =>
      rw [flat_collection, components_collection, components_collection, List.flatMap_map,
        List.map_flatMap]
      exact List.flatMap_congr ih
  | other g hg =>
      cases g with
      | collection parts => exact absurd rfl (hg parts)
      | unknown name => rfl
      | point p => cases p <;> rfl
      | lineString path => cases path <;> rfl
      | linearRing path => cases path <;> rfl
      | polygon p =>
          simp only [flat, components, Polygon.isEmpty_flat]
          split <;> rfl
      | multiPoint points =>
          rw [flat, components, filterMap_map_id, components, List.map_map, List.map_map]
          rfl
      | multiLineString paths => simp [flat, components, List.filter_map, Function.comp_def]
      | multiPolygon polygons => simp [flat, components, List.filter_map, Function.comp_def]

theorem flatMap_components_flat {β : Type} {f : Geometry α → List β} {flatten : β → β}
    (h : ∀ c, f c.flat = (f c).map flatten) (g : Geometry α) :
    g.flat.components.flatMap f = (g.components.flatMap f).map flatten := by
  rw [components_flat, List.flatMap_map, List.map_flatMap]
  exact List.flatMap_congr fun c _ => h c

theorem positions_flat (g : Geometry α) : g.flat.positions = g.positions.map Position.flat := by
  induction g using induction_on_parts with
  | parts items ih =>
      rw [flat_collection, positions_collection, positions_collection, List.flatMap_map,
        List.map_flatMap]
      exact List.flatMap_congr ih
  | other g hg =>
      cases g with
      | collection parts => exact absurd rfl (hg parts)
      | unknown name => rfl
      | point p => cases p <;> rfl
      | lineString path => rfl
      | linearRing path => rfl
      | polygon p => exact p.positions_flat
      | multiPoint points => rw [flat, positions, filterMap_map_id, positions]
      | multiLineString paths => simp [flat, positions, List.map_flatten]
      | multiPolygon polygons =>
          simp [flat, positions, List.flatMap_map, List.map_flatMap, Polygon.positions_flat]

theorem hasHeight_flat (g : Geometry α) : g.flat.hasHeight = false := by
  simp [hasHeight, positions_flat, Position.hasHeight, Position.flat]

/-- Heights may be made even before they are dropped. -/
theorem evenPositions_flat [Div α] [OfNat α 0] (g : Geometry α) :
    g.flat.evenPositions = g.evenPositions.map Position.flat := by
  unfold evenPositions
  rw [if_neg (by simp [hasHeight_flat]), positions_flat]
  split
  · rw [List.map_map]
    rfl
  · rfl

end Geometry

end Geospatial
