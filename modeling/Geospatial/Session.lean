import Geospatial.Cell.Cover
import Geospatial.Geometry.Normal
import Geospatial.Median.Solve
import Geospatial.Split.Split

/-!
# Sessions

A session works on one geometry in steps. A step answers with a geometry, which replaces the
current one, or with a fact about it. A step that fails, or a split that does not apply, leaves the
current geometry as it was.
-/

namespace Geospatial

inductive Step where
  | split (blade : Geometry Float) (tolerance : Given Float)
  | normalize
  /-- Go on with one component; a negative index counts from the end. -/
  | part (index : Int)
  /-- Go on with the distinct positions in ascending order. -/
  | vertices
  | median
  /-- Go on with a collection of the current geometry and another one. -/
  | merge (other : Geometry Float)
  | family
  | pointCount
  | kinds
  | cover (level : Json.Value)

inductive Reply where
  /-- The current geometry from now on. -/
  | geometry (g : Geometry Float)
  | nothing
  | family (f : Family)
  | count (n : Nat)
  | names (kinds : List String)
  | cells (cells : List CellId)

namespace Geometry

/-- The item of a list at an index; a negative one counts from the end. -/
def itemAt? {β : Type} (items : List β) (index : Int) : Option β :=
  if 0 ≤ index then items[index.toNat]?
  else if -index ≤ (items.length : Int) then items[(items.length + index).toNat]?
  else none

def componentAt (g : Geometry Float) (index : Int) : Except Failure (Geometry Float) :=
  match itemAt? g.components index with
  | some part => .ok part
  | none => .error .indexOutOfRange

/-- The distinct positions of a geometry in ascending order, as a multi-point. -/
def distinctPositions (g : Geometry Float) : Geometry Float :=
  let row (p : Position Float) : Row Float := ⟨p.x, p.y, if g.hasHeight then some p.z else none⟩
  let sorted := Sorting.sort (fun p q => rowsBelow [row p] [row q]) g.evenPositions
  let once := sorted.foldr (fun p kept =>
    match kept with
    | q :: _ => if (row p).compare (row q) = .equal then p :: kept.drop 1 else p :: kept
    | [] => [p]) []
  .ofPoints once

end Geometry

namespace Step

def take (g : Geometry Float) : Step → Except Failure Reply
  | split blade tolerance => do
    match ← Split.split Planar.kernel g blade tolerance with
    | some pieces => return .geometry pieces
    | none => return .nothing
  | normalize => return .geometry (← (← g.readable).normalize)
  | part index => return .geometry (← (← g.readable).componentAt index)
  | vertices => return .geometry (← g.readable).distinctPositions
  | median => return .geometry (← Median.median g .standard)
  | merge other => return .geometry (← Geometry.collect [g, other])
  | family => return .family (← g.family)
  | pointCount => return .count (← g.pointCount)
  | kinds => return .names ((← g.readable).components.map Geometry.typeName)
  | cover level => do
    let level ← Level.ofValue level
    return .cells (← Cover.cover Globe.atlas g level)

end Step

namespace Session

def current (g : Geometry Float) : Except Failure Reply → Geometry Float
  | .ok (.geometry next) => next
  | _ => g

def run (g : Geometry Float) : List (Except Failure Step) → List (Except Failure Reply)
  | [] => []
  | step :: rest =>
    let reply := step.bind (Step.take g)
    reply :: run (current g reply) rest

end Session

end Geospatial
