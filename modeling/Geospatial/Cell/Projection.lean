import Geospatial.Cell.Curve
import Geospatial.Failure
import Geospatial.Number.Binary

/-!
# Faces and directions

The faces of the cube around the sphere are projected onto it from its centre. On a face a
quadratic transformation between grid and plane makes cells of one level nearly equal in size.
-/

namespace Geospatial

structure Direction (α : Type) where
  x : α
  y : α
  z : α
  deriving Repr, Inhabited

section Generic

variable {α : Type} [Add α] [Sub α] [Mul α] [Div α] [Neg α] [LE α] [DecidableLE α]
  [OfScientific α] [Root α] [Trigonometry α]

def toDegrees (angle : α) : α := angle * (180.0 / Trigonometry.pi)

def toRadians (angle : α) : α := angle * (Trigonometry.pi / 180.0)

namespace Direction

def dot (p q : Direction α) : α := p.x * q.x + p.y * q.y + p.z * q.z

def norm (p : Direction α) : α := Root.sqrt (p.dot p)

def scale (p : Direction α) (k : α) : Direction α := ⟨p.x * k, p.y * k, p.z * k⟩

def plus (p q : Direction α) : Direction α := ⟨p.x + q.x, p.y + q.y, p.z + q.z⟩

def unit (p : Direction α) : Direction α := p.scale (1.0 / p.norm)

def axisDistance (p : Direction α) : α := Root.sqrt (p.x * p.x + p.y * p.y)

def longitude (p : Direction α) : α := toDegrees (Trigonometry.arctan2 p.y p.x)

def latitude (p : Direction α) : α := toDegrees (Trigonometry.arctan2 p.z p.axisDistance)

def ofDegrees (longitude latitude : α) : Direction α :=
  let theta := toRadians longitude
  let phi := toRadians latitude
  ⟨Trigonometry.cos theta * Trigonometry.cos phi, Trigonometry.sin theta * Trigonometry.cos phi,
    Trigonometry.sin phi⟩

end Direction

namespace Face

/-- From the grid, `0` to `1`, to the plane of a face, `-1` to `1`. -/
def planeOfGrid (s : α) : α :=
  if 0.5 ≤ s then (1.0 / 3.0) * (4.0 * s * s - 1.0)
  else (1.0 / 3.0) * (1.0 - 4.0 * (1.0 - s) * (1.0 - s))

def gridOfPlane (u : α) : α :=
  if 0.0 ≤ u then 0.5 * Root.sqrt (1.0 + 3.0 * u)
  else 1.0 - 0.5 * Root.sqrt (1.0 - 3.0 * u)

def toDirection (face : Nat) (u v : α) : Direction α :=
  match face with
  | 0 => ⟨1.0, u, v⟩
  | 1 => ⟨-u, 1.0, v⟩
  | 2 => ⟨-u, -v, 1.0⟩
  | 3 => ⟨-1.0, -v, -u⟩
  | 4 => ⟨v, -1.0, -u⟩
  | _ => ⟨v, u, -1.0⟩

def toPlane (face : Nat) (p : Direction α) : α × α :=
  match face with
  | 0 => (p.y / p.x, p.z / p.x)
  | 1 => (-p.x / p.y, p.z / p.y)
  | 2 => (-p.x / p.z, -p.y / p.z)
  | 3 => (p.z / p.x, p.y / p.x)
  | 4 => (p.z / p.y, -p.x / p.y)
  | _ => (-p.y / p.z, -p.x / p.z)

end Face

end Generic

/-! ## The cell of a direction -/

/-- The face that a direction meets, by its greatest component, of equal ones the later. A direction
that is not a number meets none. -/
def Face.ofDirection? (p : Direction Float) : Option Nat :=
  let x := p.x.abs
  let y := p.y.abs
  let z := p.z.abs
  let axis := if y < x then (if z < x then 0 else 2) else (if z < y then 1 else 2)
  let component := if axis = 0 then p.x else if axis = 1 then p.y else p.z
  let face := if component < 0 then axis + 3 else axis
  if 0 < p.dot (Face.toDirection face 0 0) then some face else none

/-- The line of the finest grid at a place between `0` and `1`. -/
def gridLine (s : Float) : Nat :=
  let line := Rounding.floor (s * 1073741824.0)
  (max 0 (min 1073741823 line)).toNat

def CellId.ofDegrees (longitude latitude : Float) : Except Failure CellId :=
  if longitude.isInf || latitude.isInf then .error .infiniteAngle
  else
    let p := Direction.ofDegrees longitude latitude
    match Face.ofDirection? p with
    | some face =>
      let (u, v) := Face.toPlane face p
      .ok (.ofSquare face (gridLine (Face.gridOfPlane u)) (gridLine (Face.gridOfPlane v)))
    | none => .error .noCell

end Geospatial
