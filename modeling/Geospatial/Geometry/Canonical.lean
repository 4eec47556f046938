import Geospatial.Geometry.Basic
import Geospatial.Number.Figure
import Geospatial.Sorting

/-!
# Canonical order of the figures of an area

Rings of equal figures can start anywhere and run either way, and the faces of a split area come in
no particular order. The canonical answer takes the least list of positions among all starts and
both directions of a ring, sorts the holes, and sorts the polygons of a multi-polygon.
-/

namespace Geospatial

def compareLists {β : Type} (compare : β → β → Ordering) : List β → List β → Ordering
  | [], [] => .eq
  | [], _ :: _ => .lt
  | _ :: _, [] => .gt
  | a :: as, b :: bs => (compare a b).then (compareLists compare as bs)

namespace Figure

def order (a b : Figure) : Ordering := a.standing.compare b.standing

end Figure

namespace Position

def figures (p : Position Figure) : List Figure := p.x :: p.y :: p.z.toList

def order (p q : Position Figure) : Ordering := compareLists Figure.order p.figures q.figures

end Position

def lesserPath (a b : Path Figure) : Path Figure :=
  if compareLists Position.order b a == .lt then b else a

def rotations (ring : Path Figure) : List (Path Figure) :=
  (List.range ring.length).map fun i => ring.drop i ++ ring.take i

/-- A closed ring as the least list of its positions, among all starts and both directions. -/
def canonicalRing (ring : Path Figure) : Path Figure :=
  let around := ring.dropLast
  match rotations around ++ rotations around.reverse with
  | [] => ring
  | first :: rest =>
    let best := rest.foldl lesserPath first
    best ++ best.take 1

def sortByOrder {β : Type} (order : β → β → Ordering) (items : List β) : List β :=
  Sorting.sort (fun a b => order a b == .lt) items

def Polygon.canonical (p : Polygon Figure) : Polygon Figure :=
  ⟨canonicalRing p.shell,
    sortByOrder (compareLists Position.order) (p.holes.map canonicalRing)⟩

def Polygon.order (p q : Polygon Figure) : Ordering :=
  compareLists (compareLists Position.order) p.rings q.rings

mutual

/-- The canonical form of the figures of a geometry. Lines, points and the parts of collections
keep their order. -/
def Geometry.canonical : Geometry Figure → Geometry Figure
  | .polygon p => .polygon p.canonical
  | .multiPolygon polygons =>
    .multiPolygon (sortByOrder Polygon.order (polygons.map Polygon.canonical))
  | .collection parts => .collection (Geometry.canonicalParts parts)
  | .point p => .point p
  | .lineString path => .lineString path
  | .linearRing path => .linearRing path
  | .multiPoint points => .multiPoint points
  | .multiLineString paths => .multiLineString paths
  | .unknown name => .unknown name

def Geometry.canonicalParts : List (Geometry Figure) → List (Geometry Figure)
  | [] => []
  | part :: rest => part.canonical :: Geometry.canonicalParts rest

end

/-! ## Answers -/

def Geometry.figures (form : NumberForm) (g : Geometry Float) : Geometry Figure :=
  g.map form.figure

end Geospatial
