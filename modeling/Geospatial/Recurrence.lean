import Geospatial.Failure
import Geospatial.Iteration
import Geospatial.Number.Scalar

/-!
# Simple recurrences

Recurrences on single numbers, as steps of an iteration. A step that cannot be taken ends the
iteration: its displacement compares with nothing.
-/

namespace Geospatial

inductive Recurrence where
  | scale (factor : Float)
  | shift (amount : Float)
  /-- The mean of the estimate and the quotient of a number by it, which tends to its root. -/
  | squareRoot (number : Float)
  /-- Count up, with a constant displacement. -/
  | constant (displacement : Float)

namespace Recurrence

def next (r : Recurrence) (x : Float) : Except Failure (Float × Float) :=
  match r with
  | scale factor => .ok (x * factor, (x * factor - x).abs)
  | shift amount => .ok (x + amount, amount.abs)
  | squareRoot number =>
    if x == 0 then .error .divisionByZero
    else
      let y := (x + number / x) / 2
      .ok (y, (y - x).abs)
  | constant displacement => .ok (x + 1, displacement)

/-- The recurrence as a step: a failure stays and has no displacement. -/
def step (r : Recurrence) (estimate : Except Failure Float) : Except Failure Float × Float :=
  match estimate with
  | .error e => (.error e, 0 / 0)
  | .ok x =>
    match r.next x with
    | .error e => (.error e, 0 / 0)
    | .ok (y, displacement) => (.ok y, displacement)

def iterate (r : Recurrence) (start tolerance : Float) (cap : Rat) :
    Except Failure (Outcome Float Float) := do
  let outcome := Iteration.run r.step (.ok start) (1 / 0) tolerance cap
  let value ← outcome.value
  return { outcome with value }

end Recurrence

end Geospatial
