import Geospatial.Planar.Net

/-!
# What splitting asks of the plane

Splitting works on linework with nodes at all common points of its lines. It asks what a component
of its target and linework have in common, which areas linework and the boundary of the component
bound, and whether a position lies inside the component. The planar constructions over doubles
answer these questions; laws of splitting are stated for whatever answers them.
-/

namespace Geospatial

structure PlanarKernel (α Net : Type) where
  /-- Linework with nodes at all common points of its lines. -/
  net : List (Path α) → Except Failure Net
  /-- What a component and linework have in common: every stretch between neighbouring nodes that
  they share, and their isolated common points. -/
  common : Geometry α → Net → Except Failure (Geometry α)
  /-- The bounded areas between the boundary of a component and linework. -/
  faces : Geometry α → Net → Except Failure (List (Polygon α))
  /-- A position inside an area. -/
  innerPoint : Polygon α → Position α
  /-- Whether a position lies inside a component. -/
  holds : Geometry α → Position α → Bool

namespace Planar

/-- Whether a point lies on a path, the ends of an open path left out. -/
def lineHolds (path : List Point) (p : Point) : Bool :=
  let isEnd := match path.head?, path.getLast? with
    | some first, some last => !first.same last && (p.same first || p.same last)
    | _, _ => false
  !isEnd && (segmentsOf path).any fun s => s.holds p

/-- Whether a point lies inside a component: inside an area, on a line but not at its end, at a
point. -/
def componentHolds (g : Geometry Float) (p : Point) : Bool :=
  match g with
  | .point (some q) => p.same (Point.ofPosition q)
  | .lineString path | .linearRing path => lineHolds (pointsOf path) p
  | .polygon area => (Region.ofPolygon area).holds p
  | _ => false

def commonOf (g : Geometry Float) (net : Net) : Except Failure Common :=
  match g with
  | .lineString path | .linearRing path => commonOfPath (pointsOf path) net
  | .polygon area => commonOfRegion (Region.ofPolygon area) net
  | _ => .ok {}

/-- A line for each common edge, then a point for each common node. -/
def Common.toGeometry (common : Common) : Geometry Float :=
  .collection ((common.edges.map fun edge => .lineString (edge.map Point.toPosition)) ++
    common.nodes.map fun p => .point (some p.toPosition))

def ringsOf : Geometry Float → List (List Point)
  | .polygon area => (Region.ofPolygon area).rings
  | _ => []

def kernel : PlanarKernel Float Net where
  net paths := Net.ofPaths (paths.map pointsOf)
  common g net := (commonOf g net).map Common.toGeometry
  faces g net := (facesBetween (ringsOf g) net).map fun regions => regions.map Region.toPolygon
  innerPoint area := (Region.ofPolygon area).innerPoint.toPosition
  holds g p := componentHolds g (Point.ofPosition p)

end Planar

end Geospatial
