import Geospatial.Path.Cut
import Geospatial.Split.Blade

/-!
# Splitting geometries

Lines are cut at the points where a blade touches them; areas are cut along its linework into the
faces that lie inside them. Every component is split on its own, and the pieces make up one
multi-geometry of the family of the target. Other combinations do not apply and have no result.
-/

namespace Geospatial.Split

variable {α Net : Type}

section Lines

variable [Add α] [Sub α] [Mul α] [Div α] [Neg α] [OfNat α 0] [OfNat α 1] [LT α] [LE α]
  [DecidableLT α] [DecidableLE α] [BEq α] [Root α]

/-- A component as a path of all its positions; a point makes no line. -/
def pathOf : Geometry α → Except Failure (Path α)
  | .point _ => .error .shortLine
  | g => .ok g.evenPositions

def piecesOfPath (k : PlanarKernel α Net) (blade : Blade α Net) (tolerance : α)
    (component : Geometry α) : Except Failure (List (Path α)) := do
  let points ← blade.cutPositions k component
  return Path.splitAt (← pathOf component) points tolerance

def lines (k : PlanarKernel α Net) (target blade : Geometry α) (tolerance : α) :
    Except Failure (Geometry α) := do
  let parts ← Blade.ofGeometry k (← blade.readable)
  let pieces ← (← target.readable).components.mapM (piecesOfPath k parts tolerance)
  return .multiLineString pieces.flatten

end Lines

/-- The faces in a component: of the areas that its boundary and the linework bound, those whose
inner point it holds. -/
def facesInside (k : PlanarKernel α Net) (net : Net) (component : Geometry α) :
    Except Failure (List (Polygon α)) := do
  return (← k.faces component net).filter fun face => k.holds component (k.innerPoint face)

def piecesOfArea (k : PlanarKernel α Net) (blade : Blade α Net) (component : Geometry α) :
    Except Failure (List (Geometry α)) := do
  match blade.linework with
  | some net => return (← facesInside k net component).map .polygon
  | none => return [component]

/-- Split every polygon of a target. Only lines and areas cut areas. -/
def polygons (k : PlanarKernel α Net) (target blade : Geometry α) :
    Except Failure (Option (Geometry α)) := do
  match ← blade.family with
  | .lineal | .polygonal =>
    let parts ← Blade.ofGeometry k blade
    let pieces ← (← target.readable).components.mapM (piecesOfArea k parts)
    return some (← Geometry.assemble .polygonal pieces.flatten)
  | _ => return none

variable [Add α] [Sub α] [Mul α] [Div α] [Neg α] [OfNat α 0] [OfNat α 1] [LT α] [LE α]
  [DecidableLT α] [DecidableLE α] [BEq α] [Root α]

/-- Split a target with a blade. Within the tolerance a point counts as lying on a line, and cuts
closer than that are one. -/
def split (k : PlanarKernel α Net) (target blade : Geometry α) (tolerance : Given α) :
    Except Failure (Option (Geometry α)) := do
  if tolerance.value < 0 then .error (.negativeTolerance tolerance.numeral)
  else
    match ← target.family with
    | .lineal => return some (← lines k target blade tolerance.value)
    | .polygonal => polygons k target blade
    | _ => return none

def standardTolerance : Given Float := (Numeral.real 1e-9).given

end Geospatial.Split
