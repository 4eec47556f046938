import Geospatial.Geometry.Basic
import Geospatial.Number.Scalar

/-!
# Locating points on segments

A point lies on a segment when it is no farther from it than a tolerance; the orthogonal projection
onto the segment, kept between its ends, decides. Its place on the segment is measured along the
axis on which the segment moves the most.
-/

namespace Geospatial.Path

variable {α : Type} [Add α] [Sub α] [Mul α] [Div α] [Neg α] [OfNat α 0] [OfNat α 1] [LT α] [LE α]
  [DecidableLT α] [DecidableLE α] [BEq α] [Root α]

def distance (p q : Position α) : α :=
  Root.sqrt ((q.x - p.x) * (q.x - p.x) + (q.y - p.y) * (q.y - p.y))

/-- How far along one axis `value` lies between `start` and `start + extent`, from `0` to `1`; an
axis without extent has all its points at the start. -/
def axisFraction (value start extent : α) : α :=
  if extent == 0 then 0 else clampUnit ((value - start) / extent)

/-- How far along a segment a point lies, from `0` to `1`, measured on the axis on which the
segment moves the most; the first axis if it moves as much on both. -/
def dominantFraction (p start stop : Position α) : α :=
  let dx := stop.x - start.x
  let dy := stop.y - start.y
  if magnitude dy ≤ magnitude dx then axisFraction p.x start.x dx
  else axisFraction p.y start.y dy

/-- The place on a segment nearest to a point. A segment without length is its start. -/
def nearest (p start stop : Position α) : Position α :=
  let dx := stop.x - start.x
  let dy := stop.y - start.y
  let square := dx * dx + dy * dy
  if 0 < square then
    let t := clampUnit (((p.x - start.x) * dx + (p.y - start.y) * dy) / square)
    ⟨start.x + t * dx, start.y + t * dy, none⟩
  else ⟨start.x, start.y, none⟩

/-- How far along a segment a point lies, none when it is farther from the segment than the
tolerance. Heights play no part. -/
def locate (p start stop : Position α) (tolerance : α) : Option α :=
  if tolerance < distance (nearest p start stop) p then none
  else some (dominantFraction p start stop)

/-! ## Lengths along a path -/

/-- The sums of the distances from the first position on, starting at a given sum. -/
def lengthsFrom (sum : α) : Path α → List α
  | [] => []
  | [_] => [sum]
  | p :: q :: rest => sum :: lengthsFrom (sum + distance p q) (q :: rest)

def lengths (path : Path α) : List α := lengthsFrom 0 path

def totalLength : Path α → α
  | p :: q :: rest => distance p q + totalLength (q :: rest)
  | _ => 0

end Geospatial.Path
