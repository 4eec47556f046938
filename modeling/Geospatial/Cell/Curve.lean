import Geospatial.Cell.Id

/-!
# The space-filling curve

The cells of a face are numbered along a curve that fills the square. At each level the curve
visits the four quarters in one of four orders, and the quarter tells the order of the next level.
-/

namespace Geospatial

namespace Curve

/-- For each orientation the quarters in the order in which the curve visits them. -/
def quarters : List (List Nat) := [[0, 1, 3, 2], [0, 2, 3, 1], [3, 2, 0, 1], [3, 1, 0, 2]]

/-- How the orientation changes in each quarter, by its rank in the order. -/
def turns : List Nat := [1, 0, 0, 3]

def quarterAt (orientation rank : Nat) : Nat := (quarters.getD orientation []).getD rank 0

def rankOf (orientation quarter : Nat) : Nat :=
  ((quarters.getD orientation []).findIdx? (· == quarter)).getD 0

def turn (orientation rank : Nat) : Nat := orientation ^^^ turns.getD rank 0

def levels : List Nat := (List.range maxLevel).reverse

/-- The number along the curve of a square of the finest grid, from the orientation of its face. -/
def encode (orientation i j : Nat) : Nat :=
  (levels.foldl (fun (orientation, position) k =>
    let quarter := 2 * (i / Nat.pow 2 k % 2) + j / Nat.pow 2 k % 2
    let rank := rankOf orientation quarter
    (turn orientation rank, 4 * position + rank)) (orientation, 0)).2

/-- The square of the finest grid with a number along the curve. -/
def decode (orientation position : Nat) : Nat × Nat :=
  (levels.foldl (fun (orientation, i, j) k =>
    let rank := position / Nat.pow 4 k % 4
    let quarter := quarterAt orientation rank
    (turn orientation rank, 2 * i + quarter / 2, 2 * j + quarter % 2)) (orientation, 0, 0)).2

end Curve

namespace CellId

def ofSquare (face i j : Nat) : CellId :=
  ofNat (2 * (face * Nat.pow 2 60 + Curve.encode (face % 2) i j) + 1)

def square (id : CellId) : Nat × Nat := Curve.decode (id.face % 2) (id.val / 2 % Nat.pow 2 60)

end CellId

end Geospatial
