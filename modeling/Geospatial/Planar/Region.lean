import Geospatial.Planar.Location
import Geospatial.Planar.Turn

/-!
# Regions

A region is an area between closed paths of points: a shell, and holes in it. Here are the
predicates on its points: where a point lies relative to it, on which side of each piece of its
boundary it lies, and one point inside it, in the middle of its widest stretch half way up.
-/

namespace Geospatial.Planar

structure Region where
  shell : List Point
  holes : List (List Point)
  deriving Inhabited

namespace Region

def ofPolygon (p : Polygon Float) : Region := ⟨pointsOf p.shell, p.holes.map pointsOf⟩

def toPolygon (r : Region) : Polygon Float :=
  ⟨r.shell.map Point.toPosition, r.holes.map (List.map Point.toPosition)⟩

def rings (r : Region) : List (List Point) := r.shell :: r.holes

def segments (r : Region) : List Segment := r.rings.flatMap segmentsOf

def box (r : Region) : Box := Box.ofPoints r.shell

def leftOfRings (r : Region) : List Bool :=
  windsLeft r.shell :: r.holes.map fun hole => !windsLeft hole

/-- Segments along a ring in the direction in which the region is to their left. -/
def turned (left : Bool) (segments : List Segment) : List Segment :=
  if left then segments else segments.map Segment.reverse

def boundary (r : Region) : List Segment :=
  (r.rings.zip r.leftOfRings).flatMap fun (ring, left) => turned left (segmentsOf ring)

def placeOf (r : Region) (p : Point) : Place := placeIn r.segments p

/-- Whether a point lies inside a region; beyond the rectangle around its shell none does. -/
def holds (r : Region) (p : Point) : Bool := r.box.holds ⟨p, p⟩ && r.placeOf p == .inside

/-! ## A point inside -/

def mean (a b : Float) : Float := (a + b) / 2

/-- The height half way between the corners just above and just below the middle of the shell. -/
def scanHeight (r : Region) : Float :=
  let box := r.box
  let middle := mean box.low.y box.high.y
  let (below, above) := r.rings.flatten.foldl (fun (below, above) p =>
    if p.y <= middle then (if below < p.y then p.y else below, above)
    else (below, if p.y < above then p.y else above)) (box.low.y, box.high.y)
  mean above below

/-- Where a segment crosses a height. A corner at the height counts for the segment above it. -/
def crossingAt (y : Float) (s : Segment) : Option Float :=
  let p := s.a
  let q := s.b
  if (y < p.y && y < q.y) || (p.y < y && q.y < y) then none
  else if p.y == q.y then none
  else if (p.y == y && q.y < y) || (q.y == y && p.y < y) then none
  else if p.x == q.x then some p.x
  else some (p.x + (y - p.y) / ((q.y - p.y) / (q.x - p.x)))

def inPairs : List Float → List (Float × Float)
  | a :: b :: rest => (a, b) :: inPairs rest
  | _ => []

/-- The middle of the widest stretch of the region at its scan height. A region without stretches
there has its first corner for it. -/
def innerPoint (r : Region) : Point :=
  let y := r.scanHeight
  let crossings := (r.segments.filterMap (crossingAt y)).mergeSort fun a b => a <= b
  let start : Float × Point := (0, r.shell.headD default)
  ((inPairs crossings).foldl (fun best (a, b) =>
    if best.1 < b - a then (b - a, ⟨mean a b, y⟩) else best) start).2

end Region

end Geospatial.Planar
