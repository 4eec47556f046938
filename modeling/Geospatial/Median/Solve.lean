import Geospatial.Geometry.Basic
import Geospatial.Iteration
import Geospatial.Median.Step

/-!
# The geometric median of a set of points

The median minimizes the sum of the distances to the points. The iteration starts from their mean
and stops once successive estimates are within the tolerance. Points have heights if one of them
does.
-/

namespace Geospatial.Median

/-- Numbers with one above the given one, where there is one. -/
class Unbounded (α : Type) where
  above : α → α

instance : Unbounded Float := ⟨fun _ => 1 / 0⟩

structure Settings (α : Type) where
  /-- The displacement at which the search stops. -/
  tolerance : Given α
  /-- The number of steps at which the search gives up, a number with an exact value. -/
  cap : Given Rat
  /-- Whether giving up is a failure. -/
  strict : Bool

def Settings.standard : Settings Float :=
  ⟨(Numeral.real 1e-6).given, .whole 1000, false⟩

structure Estimate (α : Type) where
  /-- Where the median is; the median of no points is nowhere. -/
  position : Option (Position α)
  steps : Nat
  converged : Bool
  displacement : α

section Search

variable {α : Type} [Add α] [Sub α] [Mul α] [Div α] [OfNat α 0] [OfNat α 1] [NatCast α]
  [LT α] [LE α] [DecidableLT α] [DecidableLE α] [BEq α] [Root α] [Coincidence α] [Unbounded α]

def search {d : Nat} (points : List (Vec α d)) (tolerance : α) (cap : Rat) :
    Outcome (Vec α d) α :=
  Iteration.run (step points) (Vec.mean points) (Unbounded.above tolerance) tolerance cap

def flatVector (p : Position α) : Vec α 2 := #v[p.x, p.y]

def tallVector (p : Position α) : Vec α 3 := #v[p.x, p.y, p.z.getD (0 / 0)]

def ofFlatVector (v : Vec α 2) : Position α := ⟨v[0], v[1], none⟩

def ofTallVector (v : Vec α 3) : Position α := ⟨v[0], v[1], some v[2]⟩

/-- Settings are refused when the tolerance is negative or no step is allowed. -/
def Settings.check (settings : Settings α) : Except Failure Unit :=
  if settings.tolerance.value < 0 then .error (.negativeTolerance settings.tolerance.numeral)
  else if settings.cap.value < 1 then .error (.tooFewIterations settings.cap.numeral)
  else .ok ()

def Settings.accept {σ : Type} (settings : Settings α) (outcome : Outcome σ α)
    (position : σ → Position α) : Except Failure (Estimate α) :=
  if !outcome.converged && settings.strict then
    .error (.notConverged settings.tolerance.numeral settings.cap.numeral)
  else
    .ok ⟨some (position outcome.value), outcome.steps, outcome.converged, outcome.displacement⟩

def solvePositions (points : List (Position α)) (settings : Settings α) :
    Except Failure (Estimate α) :=
  if points.isEmpty then .ok ⟨none, 0, true, 0⟩
  else if points.any Position.hasHeight then
    settings.accept (search (points.map tallVector) settings.tolerance.value settings.cap.value)
      ofTallVector
  else
    settings.accept (search (points.map flatVector) settings.tolerance.value settings.cap.value)
      ofFlatVector

def rows (points : List (Option (Position α))) : List (Position α) :=
  (Geometry.multiPoint points).evenPositions

/-- The median of a multi-point. Settings are checked before the geometry. -/
def solve (g : Geometry α) (settings : Settings α) :
    Except Failure (Estimate α) := do
  settings.check
  match g with
  | .multiPoint points => solvePositions (rows points) settings
  | _ => .error (.unsupportedGeometry g.typeName none)

/-- The median of a multi-point as a point, empty for no points. -/
def median (g : Geometry α) (settings : Settings α) :
    Except Failure (Geometry α) := do
  let estimate ← solve g settings
  return .point estimate.position

end Search

end Geospatial.Median
