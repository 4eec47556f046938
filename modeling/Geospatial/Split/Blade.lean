import Geospatial.Geometry.Components
import Geospatial.Split.Kernel

/-!
# Blades

What a geometry cuts with: its points, and the linework of its lines and of the boundaries of its
areas.
-/

namespace Geospatial

/-- What a geometry cuts with; without lines there is no linework. -/
structure Blade (α Net : Type) where
  points : List (Position α)
  linework : Option Net

namespace Blade

variable {α Net : Type}

def pointOf : Geometry α → List (Position α)
  | .point p => p.toList
  | _ => []

def linesOf : Geometry α → List (Path α)
  | .lineString path => [path]
  | .linearRing path => [path]
  | .polygon p => p.rings
  | _ => []

def ofGeometry (k : PlanarKernel α Net) (g : Geometry α) : Except Failure (Blade α Net) := do
  let points := g.components.flatMap pointOf
  match g.components.flatMap linesOf with
  | [] => return ⟨points, none⟩
  | lines => return ⟨points, some (← k.net lines)⟩

/-- Where a part of what a line and linework have in common cuts the line: a point at its position,
a common stretch at both ends. An area is no such part. -/
def endsOf : Geometry α → Except Failure (List (Position α))
  | .point p => .ok p.toList
  | .lineString path | .linearRing path => .ok (path.head?.toList ++ path.getLast?.toList)
  | _ => .error .foreignPart

def contacts (k : PlanarKernel α Net) (component : Geometry α) (net : Net) :
    Except Failure (List (Position α)) := do
  return (← (← k.common component net).components.mapM endsOf).flatten

/-- The positions where a component may be cut: all points of the blade, and where the component
touches its linework. -/
def cutPositions (k : PlanarKernel α Net) (blade : Blade α Net) (component : Geometry α) :
    Except Failure (List (Position α)) := do
  match blade.linework with
  | some net => return blade.points ++ (← contacts k component net)
  | none => return blade.points

end Blade

end Geospatial
