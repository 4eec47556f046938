import Geospatial.Planar.Point

/-!
# Turns of closed paths

Which way a closed path turns is told at its highest place: by the edge that first reaches the
greatest height and the next edge that leaves it. For a path that does not cross itself this is the
side on which its inside lies.
-/

namespace Geospatial.Planar

inductive Turn where
  | left
  /-- To the right, or not at all. -/
  | other
  /-- The path leaves its highest place for a point that is not finite. -/
  | undefined
  deriving DecidableEq, Repr

/-- The turn between the edge from `rise` to `peak` and the edge from `peak` to `fall`. A spike does
not turn. -/
def turnAt (rise peak fall : Point) : Turn :=
  if rise.same peak || fall.same peak || rise.same fall then .other
  else if !fall.isFinite then .undefined
  else if side rise peak fall == .left then .left
  else .other

/-- Which way a closed path turns around its highest place. Where the path is level there, the
direction of the level part tells; a path that never rises does not turn. -/
def turnOf (ring : List Point) : Turn :=
  let points := ring.toArray
  let n := points.size - 1
  let point (i : Nat) : Point := points.getD i default
  if n < 3 then .other
  else
    let rises := fun (best : Nat) (i : Nat) =>
      if (point (i - 1)).y < (point i).y && (point best).y <= (point i).y then i else best
    let top := ((List.range (n + 1)).drop 1).foldl rises 0
    if top = 0 then .other
    else
      let round := (List.range n).map fun k => (top + 1 + k) % n
      let down := (round.find? fun i => i = top || (point i).y != (point top).y).getD top
      let leave := point (if 0 < down then down - 1 else n - 1)
      if (point top).same leave then turnAt (point (top - 1)) (point top) (point down)
      else if leave.x < (point top).x then .left
      else .other

def windsLeft (ring : List Point) : Bool := turnOf ring == .left

end Geospatial.Planar
