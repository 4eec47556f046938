import Geospatial.Cell.Id

/-!
# Searching cells

The cells of a level that a search keeps are found by subdivision from the six faces. Above the
level a cell is divided when the search reaches it; at the level it is kept or not. The cells still
to visit are a stack, each with the number of levels below it, and the children of a cell are
visited in their order before whatever comes after it.
-/

namespace Geospatial

structure Sieve where
  /-- Whether a cell at the level is kept. -/
  keeps : CellId → Bool
  /-- Whether a cell above the level may have descendants that are kept. -/
  reaches : CellId → Bool

/-- A cell still to visit, with the number of levels below it down to the level searched. -/
structure Pending where
  depth : Nat
  cell : CellId

namespace Pending

/-- How many visits a cell can cause at most: its own and those of its descendants. -/
def visits : Nat → Nat
  | 0 => 1
  | depth + 1 => 4 * visits depth + 1

def totalVisits : List Pending → Nat
  | [] => 0
  | p :: rest => visits p.depth + totalVisits rest

theorem visits_pos (depth : Nat) : 0 < visits depth := by
  cases depth <;> simp [visits]

theorem totalVisits_cons (depth : Nat) (cell : CellId) (stack : List Pending) :
    totalVisits (⟨depth, cell⟩ :: stack) = visits depth + totalVisits stack := rfl

/-- Fewer visits are left once a cell has been visited. -/
theorem totalVisits_lt_cons (depth : Nat) (cell : CellId) (stack : List Pending) :
    totalVisits stack < totalVisits (⟨depth, cell⟩ :: stack) := by
  rw [totalVisits_cons]
  have := visits_pos depth
  omega

theorem totalVisits_append (s t : List Pending) :
    totalVisits (s ++ t) = totalVisits s + totalVisits t := by
  induction s with
  | nil => simp [totalVisits]
  | cons p s ih => simp [totalVisits, ih, Nat.add_assoc]

theorem totalVisits_same_depth (depth : Nat) (cells : List CellId) :
    totalVisits (cells.map fun c => ⟨depth, c⟩) = cells.length * visits depth := by
  induction cells with
  | nil => simp [totalVisits]
  | cons c cells ih =>
      rw [List.map_cons, totalVisits_cons, ih, List.length_cons, Nat.succ_mul, Nat.add_comm]

/-- Fewer visits are left once a cell has been divided. -/
theorem totalVisits_children_lt (depth : Nat) (cell : CellId) (stack : List Pending) :
    totalVisits (cell.children.map (fun child => ⟨depth, child⟩) ++ stack) <
      totalVisits (⟨depth + 1, cell⟩ :: stack) := by
  rw [totalVisits_append, totalVisits_same_depth, totalVisits_cons]
  have bound : cell.children.length * visits depth ≤ 4 * visits depth :=
    Nat.mul_le_mul_right _ cell.length_children_le
  have unfolded : visits (depth + 1) = 4 * visits depth + 1 := rfl
  omega

end Pending

open Pending in
/-- Visit the cells of a stack and what they are divided into; the cells that are kept, in the order
of the visits. -/
def Sieve.visit (sieve : Sieve) : List Pending → List CellId
  | [] => []
  | ⟨0, cell⟩ :: stack =>
    if sieve.keeps cell then cell :: sieve.visit stack else sieve.visit stack
  | ⟨depth + 1, cell⟩ :: stack =>
    if sieve.reaches cell then
      sieve.visit (cell.children.map (fun child => ⟨depth, child⟩) ++ stack)
    else sieve.visit stack
termination_by stack => totalVisits stack
decreasing_by
  · exact totalVisits_lt_cons _ _ _
  · exact totalVisits_lt_cons _ _ _
  · exact totalVisits_children_lt _ _ _
  · exact totalVisits_lt_cons _ _ _

def Sieve.search (sieve : Sieve) (level : Nat) : List CellId :=
  sieve.visit ((List.range 6).map fun face => ⟨level, CellId.ofFace face⟩)

end Geospatial
