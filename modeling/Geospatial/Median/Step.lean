import Geospatial.Median.Vector

/-!
# One step towards the geometric median

The step moves an estimate to the mean of the points weighted by their inverse distances. Points on
which the estimate sits have no weight; they hold the estimate back instead, by their number
relative to the pull of the others. With enough of them the estimate stays.
-/

namespace Geospatial.Median

variable {α : Type} {d : Nat} [Add α] [Sub α] [Mul α] [Div α] [OfNat α 0] [OfNat α 1] [NatCast α]
  [LT α] [LE α] [DecidableLT α] [DecidableLE α] [BEq α] [Root α]

/-- Numbers with the distance below which two points count as one. -/
class Coincidence (α : Type) where
  epsilon : α

/-- The distance from one to the next double. -/
instance : Coincidence Float := ⟨2.220446049250313e-16⟩

variable [Coincidence α]

def reach (estimate point : Vec α d) : α := (point.minus estimate).norm

def away (points : List (Vec α d)) (estimate : Vec α d) : List (Vec α d) :=
  points.filter fun p => !decide (reach estimate p ≤ Coincidence.epsilon)

def weight (estimate point : Vec α d) : α := 1 / reach estimate point

def weightedMean (points : List (Vec α d)) (estimate : Vec α d) : Vec α d :=
  (Vec.sum (points.map fun p => p.times (weight estimate p))).dividedBy
    ((points.map (weight estimate)).foldl (· + ·) 0)

def pull (points : List (Vec α d)) (estimate : Vec α d) : α :=
  (Vec.sum (points.map fun p => (p.minus estimate).times (weight estimate p))).norm

/-- How far the points under an estimate hold it back, from `0` to `1`. -/
def holdBack (hits : Nat) (pull : α) : α :=
  if pull == 0 then 1
  else
    let share := (hits : α) / pull
    if share < 1 then share else 1

def step (points : List (Vec α d)) (estimate : Vec α d) : Vec α d × α :=
  let others := away points estimate
  if others.isEmpty then (estimate, 0)
  else
    let target := weightedMean others estimate
    let hits := points.length - others.length
    let next :=
      if hits = 0 then target
      else
        let share := holdBack hits (pull others estimate)
        (target.times (1 - share)).plus (estimate.times share)
    (next, (next.minus estimate).norm)

end Geospatial.Median
