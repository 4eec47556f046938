import Geospatial.Cell.Outline
import Geospatial.Planar.Location

/-!
# Bounding boxes of cells

The latitudes of a cell lie between those of two opposite corners and its longitudes between those
of the other two, both widened by a rounding margin; a cell at a pole has all longitudes. A box
that crosses the antimeridian is two boxes.
-/

namespace Geospatial

/-- A range of longitudes in radians, to the east from `lo` to `hi`. -/
structure LongitudeRange where
  lo : Float
  hi : Float
  deriving Repr, Inhabited

namespace LongitudeRange

def pi : Float := Trigonometry.pi

def full : LongitudeRange := ⟨-pi, pi⟩

def isFull (r : LongitudeRange) : Bool := r.hi - r.lo == 2 * pi

def isInverted (r : LongitudeRange) : Bool := r.hi < r.lo

def eastward (a b : Float) : Float :=
  if 0 <= b - a then b - a else (b + pi) - (a - pi)

def east (a : Float) : Float := if a == -pi then pi else a

/-- The range between two longitudes along the shorter way. -/
def between (a b : Float) : LongitudeRange :=
  if eastward (east a) (east b) <= pi then ⟨east a, east b⟩ else ⟨east b, east a⟩

def length (r : LongitudeRange) : Float :=
  if 0 <= r.hi - r.lo then r.hi - r.lo else r.hi - r.lo + 2 * pi

def wrap (a : Float) : Float := if pi < a then a - 2 * pi else if a < -pi then a + 2 * pi else a

def widen (r : LongitudeRange) (margin : Float) : LongitudeRange :=
  if 2 * pi - 1e-15 <= r.length + 2 * margin then full
  else
    let lo := wrap (r.lo - margin)
    let hi := wrap (r.hi + margin)
    ⟨if lo <= -pi then pi else lo, if hi == -pi then pi else hi⟩

end LongitudeRange

structure GlobeBox where
  south : Float
  north : Float
  lng : LongitudeRange
  deriving Repr, Inhabited

namespace Cell

def cubeCorner (c : Cell) (right up : Bool) : Direction Float :=
  Face.toDirection c.face (c.uBound right) (c.vBound up)

def cornerLatitude (c : Cell) (right up : Bool) : Float :=
  let p := c.cubeCorner right up
  Float.atan2 p.z p.axisDistance

def cornerLongitude (c : Cell) (right up : Bool) : Float :=
  let p := c.cubeCorner right up
  Float.atan2 p.y p.x

/-- Whether the first axis of a face runs towards a pole. -/
def risesAlongU (face : Nat) : Bool := face == 3 || face == 4

def risesAlongV (face : Nat) : Bool := face == 0 || face == 1

def poleMinLatitude : Float := Float.asin (Float.sqrt (1.0 / 3.0))

def faceGlobeBox (face : Nat) : GlobeBox :=
  let pi := LongitudeRange.pi
  match face with
  | 0 => ⟨-(pi / 4), pi / 4, ⟨-(pi / 4), pi / 4⟩⟩
  | 1 => ⟨-(pi / 4), pi / 4, ⟨pi / 4, 3 * pi / 4⟩⟩
  | 2 => ⟨poleMinLatitude, pi / 2, .full⟩
  | 3 => ⟨-(pi / 4), pi / 4, ⟨3 * pi / 4, -(3 * pi / 4)⟩⟩
  | 4 => ⟨-(pi / 4), pi / 4, ⟨-(3 * pi / 4), -(pi / 4)⟩⟩
  | _ => ⟨-(pi / 2), -poleMinLatitude, .full⟩

def globeBox (c : Cell) : GlobeBox :=
  if c.level = 0 then faceGlobeBox c.face
  else
    let u : Float := c.uBound false + c.uBound true
    let v : Float := c.vBound false + c.vBound true
    let right : Bool := if risesAlongU c.face then 0 < u else u < 0
    let up : Bool := if risesAlongV c.face then 0 < v else v < 0
    let margin : Float := 1.0 / 2251799813685248.0
    let a := c.cornerLatitude right up
    let b := c.cornerLatitude (!right) (!up)
    let limit := LongitudeRange.pi / 2
    let south := max (min a b - margin) (-limit)
    let north := min (max a b + margin) limit
    if south == -limit || north == limit then ⟨south, north, .full⟩
    else
      let lng := LongitudeRange.between (c.cornerLongitude right (!up))
        (c.cornerLongitude (!right) up)
      ⟨south, north, lng.widen margin⟩

/-- The boxes in degrees around a cell, with a margin on every side that does not lie on the
antimeridian. -/
def boxes (c : Cell) : List Planar.Box :=
  let globe := c.globeBox
  let margin : Float := 1e-9
  let south := toDegrees globe.south - margin
  let north := toDegrees globe.north + margin
  if globe.lng.isFull then [⟨⟨-180.0, south⟩, ⟨180.0, north⟩⟩]
  else
    let west := toDegrees globe.lng.lo - margin
    let east := toDegrees globe.lng.hi + margin
    if globe.lng.isInverted then
      [⟨⟨west, south⟩, ⟨180.0, north⟩⟩, ⟨⟨-180.0, south⟩, ⟨east, north⟩⟩]
    else [⟨⟨west, south⟩, ⟨east, north⟩⟩]

end Cell

end Geospatial
