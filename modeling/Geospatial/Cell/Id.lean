/-!
# Cell identifiers

The sphere is divided into six faces, and every cell into four children, down to level 30. A cell
is named by a number of 64 bits: three bits for the face, two for each level's place on a
space-filling curve, a one, and zeros to the end. So the lowest one tells the level, and the
numbers of the descendants of a cell lie around its own. Arithmetic on identifiers is modulo
`2 ^ 64 - 1`.
-/

namespace Geospatial

def maxLevel : Nat := 30

def idModulus : Nat := Nat.pow 2 64 - 1

theorem idModulus_pos : 0 < idModulus := by decide

structure CellId where
  val : Nat
  isLt : val < idModulus
  deriving DecidableEq

namespace CellId

def ofNat (n : Nat) : CellId := ⟨n % idModulus, Nat.mod_lt _ idModulus_pos⟩

def ofInt (n : Int) : CellId := ofNat (n % (idModulus : Int)).toNat

/-- The place of the lowest one among the bits; zero has none. -/
def lowPlace? (id : CellId) : Option Nat := (List.range 64).find? fun p => id.val.testBit p

def lowBit (id : CellId) : Nat := (id.lowPlace?.map (Nat.pow 2)).getD 0

def face (id : CellId) : Nat := id.val / Nat.pow 2 61

/-- The level that the place of the lowest one tells. Cells have it at even places; a lowest one at
an odd place counts as level 15 in the lower half and as no level in the upper half. -/
def level? (id : CellId) : Option Nat :=
  match id.lowPlace? with
  | none => none
  | some p =>
    if p % 2 = 0 then (if p ≤ 2 * maxLevel then some (maxLevel - p / 2) else none)
    else if p < 32 then some 15
    else none

/-- The identifiers of cells: one of six faces, and the lowest one at an even place. -/
def isValid (id : CellId) : Bool :=
  decide (id.face < 6) &&
    match id.lowPlace? with
    | some p => decide (p % 2 = 0 ∧ p ≤ 2 * maxLevel)
    | none => false

def placeAt (level : Nat) : Nat := 2 * (maxLevel - level)

/-- The ancestor at a level: the bits below the lowest one of that level are cleared. -/
def ancestor (level : Nat) (id : CellId) : CellId :=
  ofNat ((2 * (id.val / Nat.pow 2 (placeAt level + 1)) + 1) * Nat.pow 2 (placeAt level))

def ofFace (face : Nat) : CellId := ofNat ((2 * face + 1) * Nat.pow 2 60)

/-! ## Children -/

def childBegin (id : CellId) : CellId := ofNat (id.val - id.lowBit + id.lowBit / 4)

def childEnd (id : CellId) : CellId := ofNat (id.val + id.lowBit + id.lowBit / 4)

def next (id : CellId) : CellId := ofNat (id.val + 2 * id.lowBit)

/-- The cells from one on up to an end, at most as many as given. -/
def cellsUpTo (stop : CellId) : Nat → CellId → List CellId
  | 0, _ => []
  | more + 1, id => if id = stop then [] else id :: cellsUpTo stop more id.next

def children (id : CellId) : List CellId := cellsUpTo id.childEnd 4 id.childBegin

theorem length_cellsUpTo_le (stop : CellId) (more : Nat) (id : CellId) :
    (cellsUpTo stop more id).length ≤ more := by
  induction more generalizing id with
  | zero => simp [cellsUpTo]
  | succ more ih =>
      unfold cellsUpTo
      split
      · simp
      · simpa using ih id.next

theorem length_children_le (id : CellId) : id.children.length ≤ 4 :=
  length_cellsUpTo_le _ _ _

end CellId

end Geospatial
