import Geospatial.Cell.Bounds
import Geospatial.Planar.Overlay

/-!
# Shapes of cells

The outline of a cell bounds its shape in the plane. Where it leaves the longitudes of the world,
the shape is moved by whole turns, cut to the world, and joined again.
-/

namespace Geospatial

open Planar

def world : Box := ⟨⟨-180.0, -90.0⟩, ⟨180.0, 90.0⟩⟩

def closedPath (vertices : List (Vertex Float)) : List Point :=
  let points := vertices.map fun v => (⟨v.lng, v.lat⟩ : Point)
  match points.head?, points.getLast? with
  | some first, some last => if first.same last then points else points ++ [first]
  | _, _ => []

def Planar.Region.shift (r : Region) (offset : Float) : Region :=
  let move (path : List Point) : List Point := path.map fun p => ⟨p.x + offset, p.y⟩
  ⟨move r.shell, r.holes.map move⟩

def foldIntoWorld (r : Region) : List Region :=
  if -180.0 <= r.box.low.x && r.box.high.x <= 180.0 then [r]
  else union ([-360.0, 0.0, 360.0].flatMap fun offset => (r.shift offset).clip world)

namespace Cell

def shape (c : Cell) : Except Failure (List Region) :=
  c.outline.map fun vertices => foldIntoWorld ⟨closedPath vertices, []⟩

end Cell

/-- The shape of a cell as a geometry. An identifier that tells no level has none. -/
def cellPolygon (id : CellId) : Except Failure (Geometry Float) := do
  match Cell.ofId? id with
  | none => .error .noCell
  | some c =>
    match ← c.shape with
    | [r] => return .polygon r.toPolygon
    | parts => return .multiPolygon (parts.map Region.toPolygon)

def cellLevel (id : CellId) : Except Failure Nat :=
  match id.level? with
  | some level => .ok level
  | none => .error .noCell

def cellBoxes (id : CellId) : Except Failure (List Box) :=
  match Cell.ofId? id with
  | some c => .ok c.boxes
  | none => .error .noCell

end Geospatial
