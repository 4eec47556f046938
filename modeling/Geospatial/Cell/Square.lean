import Geospatial.Cell.Projection

/-!
# Cells as squares of a face

A cell is a square of the grid of its face. Its corners are the directions to the corners of that
square.
-/

namespace Geospatial

/-- A cell as a square of the grid of a face: its lower corner on the finest grid and its level. -/
structure Cell where
  face : Nat
  level : Nat
  i : Nat
  j : Nat
  /-- Whether the centre is one line of the finest grid off the named square, and not on its
  corner. -/
  leaf : Bool
  /-- The square of the finest grid that the identifier names. -/
  named : Nat × Nat
  /-- The last bits of the identifier, which tell on which corner of that square the centre is. -/
  tail : Nat
  deriving Repr

namespace Cell

def size (c : Cell) : Nat := Nat.pow 2 (maxLevel - c.level)

/-- The square of an identifier; one that tells no level has none. -/
def ofId? (id : CellId) : Option Cell :=
  id.level?.map fun level =>
    let (i, j) := id.square
    let size := Nat.pow 2 (maxLevel - level)
    ⟨id.face, level, i / size * size, j / size * size, level == maxLevel, (i, j), id.val / 4⟩

section Generic

variable {α : Type} [Add α] [Sub α] [Mul α] [Div α] [Neg α] [LE α] [DecidableLE α]
  [OfScientific α] [NatCast α] [Root α] [Trigonometry α]

def planeLine (line : Nat) : α := Face.planeOfGrid ((1.0 / 1073741824.0) * (line : α))

def uBound (c : Cell) (upper : Bool) : α := planeLine (if upper then c.i + c.size else c.i)

def vBound (c : Cell) (upper : Bool) : α := planeLine (if upper then c.j + c.size else c.j)

/-- The direction to a corner, given by whether it is at the upper bounds. -/
def cornerAt (c : Cell) (right up : Bool) : Direction α :=
  (Face.toDirection c.face (c.uBound right) (c.vBound up)).unit

def corners (c : Cell) : List (Direction α) :=
  [c.cornerAt false false, c.cornerAt true false, c.cornerAt true true, c.cornerAt false true]

/-- The longitude of the centre, in degrees. The centre is found on a grid of half lines. -/
def centerLongitude (c : Cell) : α :=
  let delta := if c.leaf then 1 else if (c.named.1 + c.tail) % 2 = 1 then 2 else 0
  let half (line : Nat) : α :=
    Face.planeOfGrid ((0.5 / 1073741824.0) * ((2 * line + delta : Nat) : α))
  (Face.toDirection c.face (half c.named.1) (half c.named.2)).longitude

end Generic

end Cell

end Geospatial
