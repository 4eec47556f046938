import Geospatial.Geometry.Basic
import Geospatial.Number.Binary

/-!
# Points of the plane and their exact predicates

The planar constructions decide on the exact values of their doubles: on which side of a line a
point lies, whether it lies on a segment, and where two segments cross. Side tests look at the
rounded determinant first and compute exactly only where rounding could change its sign.
-/

namespace Geospatial.Planar

structure Point where
  x : Float
  y : Float
  deriving Inhabited, Repr

namespace Point

def ofPosition (p : Position Float) : Point := ⟨p.x, p.y⟩

def toPosition (p : Point) : Position Float := ⟨p.x, p.y, none⟩

/-- Two points with equal coordinates; the two zeros are equal. -/
def same (p q : Point) : Bool := p.x == q.x && p.y == q.y

instance : BEq Point := ⟨same⟩

/-- Order by the first coordinate, then by the second. -/
def below (p q : Point) : Bool :=
  if p.x < q.x then true else if q.x < p.x then false else p.y < q.y

def plain (p : Point) : Point := ⟨p.x + 0.0, p.y + 0.0⟩

def isFinite (p : Point) : Bool := p.x.isFinite && p.y.isFinite

/-- Whether both coordinates are numbers, the infinities included. -/
def isDefined (p : Point) : Bool := p.same p

end Point

def exactly (x : Float) : Rat := ((Binary.ofFloat? x).map Binary.toRat).getD 0

inductive Side where
  | left
  | on
  | right
  deriving DecidableEq, Repr, Inhabited

namespace Side

def flip : Side → Side
  | left => right
  | on => on
  | right => left

def ofRat (q : Rat) : Side := if 0 < q then left else if q < 0 then right else on

end Side

def exactSide (a b c : Point) : Side :=
  let ax := exactly a.x
  let ay := exactly a.y
  Side.ofRat ((exactly b.x - ax) * (exactly c.y - ay) - (exactly b.y - ay) * (exactly c.x - ax))

/-- The side of the line from `a` to `b` on which `c` lies. A determinant beyond the bound on its
rounding error has the right sign; one that is not a number has none. -/
def side (a b c : Point) : Side :=
  let first := (a.x - c.x) * (b.y - c.y)
  let second := (a.y - c.y) * (b.x - c.x)
  let det := first - second
  let bound := 3.3306690738754706e-16 * (first + second).abs
  if bound <= det.abs then (if 0 < det then .left else if det < 0 then .right else .on)
  else if det.isNaN then .on
  else exactSide a b c

structure Segment where
  a : Point
  b : Point
  deriving Inhabited, Repr

namespace Segment

def isFinite (s : Segment) : Bool := s.a.isFinite && s.b.isFinite

def reverse (s : Segment) : Segment := ⟨s.b, s.a⟩

def low (s : Segment) : Point := ⟨min s.a.x s.b.x, min s.a.y s.b.y⟩

def high (s : Segment) : Point := ⟨max s.a.x s.b.x, max s.a.y s.b.y⟩

def boxesMeet (s t : Segment) : Bool :=
  s.low.x <= t.high.x && t.low.x <= s.high.x && s.low.y <= t.high.y && t.low.y <= s.high.y

def boxHolds (s : Segment) (p : Point) : Bool :=
  s.low.x <= p.x && p.x <= s.high.x && s.low.y <= p.y && p.y <= s.high.y

def holds (s : Segment) (p : Point) : Bool := s.boxHolds p && side s.a s.b p == .on

def oneSided (s t : Segment) : Bool :=
  let c := side s.a s.b t.a
  c != .on && c == side s.a s.b t.b

def meets (s t : Segment) : Bool := s.boxesMeet t && !s.oneSided t && !t.oneSided s

/-- Whether the segments cross in a point that is an end of neither. -/
def crosses (s t : Segment) : Bool :=
  let c := side s.a s.b t.a
  let e := side t.a t.b s.a
  c != .on && e != .on && side s.a s.b t.b == c.flip && side t.a t.b s.b == e.flip

def crossing (s t : Segment) : Point :=
  let ax := exactly s.a.x
  let ay := exactly s.a.y
  let ux := exactly s.b.x - ax
  let uy := exactly s.b.y - ay
  let cx := exactly t.a.x
  let cy := exactly t.a.y
  let vx := exactly t.b.x - cx
  let vy := exactly t.b.y - cy
  let along := ((cx - ax) * vy - (cy - ay) * vx) / (ux * vy - uy * vx)
  ⟨nearestOfRat (ax + along * ux), nearestOfRat (ay + along * uy)⟩

end Segment

/-- The segments between neighbours of a path, those without length left out. -/
def segmentsOf (path : List Point) : List Segment :=
  ((path.zip (path.drop 1)).filter fun (p, q) => !p.same q).map fun (p, q) => ⟨p, q⟩

def dropRepeats : List Point → List Point
  | [] => []
  | [p] => [p]
  | p :: q :: rest => if p.same q then dropRepeats (q :: rest) else p :: dropRepeats (q :: rest)

def pointsOf (path : Path Float) : List Point :=
  dropRepeats (path.map fun p => (Point.ofPosition p).plain)

end Geospatial.Planar
