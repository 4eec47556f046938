import Geospatial.Path.Locate
import Geospatial.Sorting

/-!
# Cutting a path at points

A point on a path is located at the arc length of its place on the first segment that it lies on.
Located points are sorted by arc length; those within the tolerance of an end of the path are
dropped, and of points within the tolerance of one another the first is kept. The path is then
walked once: a cut that comes before the next position by more than the tolerance is inserted on
the way, and one within the tolerance of a position is made at that position.
-/

namespace Geospatial.Path

variable {α : Type} [Add α] [Sub α] [Mul α] [Div α] [Neg α] [OfNat α 0] [OfNat α 1] [LT α] [LE α]
  [DecidableLT α] [DecidableLE α] [BEq α] [Root α]

structure Cut (α : Type) where
  arc : α
  place : Position α

/-- The position of a cut a fraction along a segment: the place of the point itself, with a height
between those of the ends where they have heights. -/
def cutPosition (p start stop : Position α) (t : α) : Position α :=
  match start.z, stop.z with
  | some a, some b => ⟨p.x, p.y, some (a + t * (b - a))⟩
  | _, _ => p.flat

/-- The cut at a point on the first segment that it lies on; `sum` is the arc length of the start
of the path. -/
def locateOnPath (p : Position α) (tolerance : α) : α → Path α → Option (Cut α)
  | sum, start :: stop :: rest =>
    let next := sum + distance start stop
    match locate p start stop tolerance with
    | some t => some ⟨sum + t * (next - sum), cutPosition p start stop t⟩
    | none => locateOnPath p tolerance next (stop :: rest)
  | _, _ => none

def located (path : Path α) (points : List (Position α)) (tolerance : α) : List (Cut α) :=
  points.filterMap fun p => locateOnPath p tolerance 0 path

/-- Drop cuts within the tolerance of an end of the path or of the last cut that was kept. -/
def thin (tolerance total : α) : Option α → List (Cut α) → List (Cut α)
  | _, [] => []
  | last, cut :: rest =>
    if cut.arc ≤ tolerance ∨ total - tolerance ≤ cut.arc then thin tolerance total last rest
    else
      match last with
      | some arc =>
        if cut.arc - arc ≤ tolerance then thin tolerance total last rest
        else cut :: thin tolerance total (some cut.arc) rest
      | none => cut :: thin tolerance total (some cut.arc) rest

def cuts (path : Path α) (points : List (Position α)) (tolerance : α) : List (Cut α) :=
  let sorted := Sorting.sort (fun a b => decide (a.arc < b.arc)) (located path points tolerance)
  thin tolerance ((lengths path).getLast?.getD 0) none sorted

/-! ## The pieces between cuts -/

/-- Walk over the remaining positions, each with its arc length, and the remaining cuts; `current`
is the piece begun since the last cut. -/
def walk (tolerance : α) (current : Path α) : List (α × Position α) → List (Cut α) → List (Path α)
  | [], _ => [current]
  | (_, p) :: rest, [] => walk tolerance (current ++ [p]) rest []
  | (arc, p) :: rest, cut :: later =>
    if cut.arc < arc - tolerance then
      (current ++ [cut.place]) :: walk tolerance [cut.place] ((arc, p) :: rest) later
    else if magnitude (cut.arc - arc) ≤ tolerance then
      (current ++ [p]) :: walk tolerance [p] rest later
    else walk tolerance (current ++ [p]) rest (cut :: later)
termination_by rest cuts => rest.length + cuts.length

def piecesAt (path : Path α) (cuts : List (Cut α)) (tolerance : α) : List (Path α) :=
  match (lengths path).zip path with
  | [] => []
  | (_, start) :: rest => walk tolerance [start] rest cuts

/-- A piece counts when it joins at least two positions and has length. -/
def hasLength (piece : Path α) : Bool :=
  decide (2 ≤ piece.length) && decide (0 < totalLength piece)

/-- Cut a path at the points that lie on it. A path without cuts is its only piece. -/
def splitAt (path : Path α) (points : List (Position α)) (tolerance : α) : List (Path α) :=
  if points.isEmpty ∨ path.length < 2 then [path]
  else
    let found := cuts path points tolerance
    if found.isEmpty then [path]
    else (piecesAt path found tolerance).filter hasLength

end Geospatial.Path
