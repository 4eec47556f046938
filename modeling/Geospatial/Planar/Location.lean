import Geospatial.Planar.Point

/-!
# Points and rings

Where a point lies relative to closed rings: a ray to the right crosses the rings an odd number of
times from the inside. Also the upright rectangles around points.
-/

namespace Geospatial.Planar

inductive Place where
  | inside
  | boundary
  | outside
  deriving DecidableEq, Repr, Inhabited

/-- What a segment of a ring does to the ray from a point to the right. -/
inductive Hit where
  | touches
  | crosses
  | misses
  deriving DecidableEq

/-- How a segment meets the ray from a point to the right. A segment counts its lower end only. -/
def hit (p : Point) (s : Segment) : Hit :=
  if s.a.x < p.x && s.b.x < p.x then .misses
  else if p.same s.b then .touches
  else if s.a.y == p.y && s.b.y == p.y then
    if s.low.x <= p.x && p.x <= s.high.x then .touches else .misses
  else if (p.y < s.a.y && s.b.y <= p.y) || (p.y < s.b.y && s.a.y <= p.y) then
    match side s.a s.b p with
    | .on => .touches
    | .left => if s.b.y < s.a.y then .misses else .crosses
    | .right => if s.b.y < s.a.y then .crosses else .misses
  else .misses

def placeIn (segments : List Segment) (p : Point) : Place :=
  count false segments
where
  count (odd : Bool) : List Segment → Place
    | [] => if odd then .inside else .outside
    | s :: rest =>
      match hit p s with
      | .touches => .boundary
      | .crosses => count (!odd) rest
      | .misses => count odd rest

/-- An upright rectangle. That around no points has no numbers for its corners. -/
structure Box where
  low : Point
  high : Point
  deriving Inhabited, Repr

namespace Box

def empty : Box := ⟨⟨0 / 0, 0 / 0⟩, ⟨0 / 0, 0 / 0⟩⟩

def isEmpty (box : Box) : Bool := box.high.x.isNaN

def join (a b : Box) : Box :=
  if a.isEmpty then b
  else if b.isEmpty then a
  else
    let least (u v : Float) : Float := if v < u then v else u
    let most (u v : Float) : Float := if u < v then v else u
    ⟨⟨least a.low.x b.low.x, least a.low.y b.low.y⟩,
      ⟨most a.high.x b.high.x, most a.high.y b.high.y⟩⟩

/-- The least rectangle around some points. A coordinate that is not a number neither widens it nor,
where it comes first, is replaced. -/
def ofPoints (points : List Point) : Box :=
  points.foldl (fun box p => if box.isEmpty then ⟨p, p⟩ else box.join ⟨p, p⟩) empty

def meets (a b : Box) : Bool :=
  a.low.x <= b.high.x && b.low.x <= a.high.x && a.low.y <= b.high.y && b.low.y <= a.high.y

def holds (a b : Box) : Bool :=
  a.low.x <= b.low.x && b.high.x <= a.high.x && a.low.y <= b.low.y && b.high.y <= a.high.y

def overlap (a b : Box) : Box :=
  ⟨⟨max a.low.x b.low.x, max a.low.y b.low.y⟩, ⟨min a.high.x b.high.x, min a.high.y b.high.y⟩⟩

/-- A rectangle with a margin of a tenth of its shorter side, or of its longer one where the shorter
has no length. -/
def widened (a : Box) : Box :=
  let width := a.high.x - a.low.x
  let height := a.high.y - a.low.y
  let shorter := min width height
  let margin := 0.1 * if shorter <= 0 then max width height else shorter
  ⟨⟨a.low.x - margin, a.low.y - margin⟩, ⟨a.high.x + margin, a.high.y + margin⟩⟩

def size (a : Box) : Float := (a.high.x - a.low.x) * (a.high.y - a.low.y)

def path (a : Box) : List Point :=
  [a.low, ⟨a.high.x, a.low.y⟩, a.high, ⟨a.low.x, a.high.y⟩, a.low]

end Box

end Geospatial.Planar
