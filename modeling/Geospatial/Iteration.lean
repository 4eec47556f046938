/-!
# Iterating a step until it comes to rest

A step maps an estimate to the next one and tells how far it moved. It is applied while the last
displacement exceeds the tolerance and the cap on the number of steps is not reached. Whether the
iteration goes on and whether it has come to rest are two comparisons; a displacement that
compares with nothing fails both.
-/

namespace Geospatial

structure Outcome (σ δ : Type) where
  value : σ
  /-- The number of steps taken. -/
  steps : Nat
  /-- Whether the last displacement is within the tolerance. -/
  converged : Bool
  /-- The last displacement; the one to start with when no step was taken. -/
  displacement : δ

namespace Iteration

variable {σ δ : Type} [LT δ] [LE δ] [DecidableLT δ] [DecidableLE δ]

/-- At most `budget` further steps after `taken` steps that led to `value` by `displacement`. -/
def runFrom (step : σ → σ × δ) (tolerance : δ) : Nat → Nat → σ → δ → Outcome σ δ
  | 0, taken, value, displacement =>
    ⟨value, taken, decide (displacement ≤ tolerance), displacement⟩
  | budget + 1, taken, value, displacement =>
    if tolerance < displacement then
      let (next, moved) := step value
      runFrom step tolerance budget (taken + 1) next moved
    else ⟨value, taken, decide (displacement ≤ tolerance), displacement⟩

/-- The number of steps below a cap, which need not be whole. -/
def budget (cap : Rat) : Nat := cap.ceil.toNat

/-- Iterate a step from a start. `before` stands for the displacement that led to the start. -/
def run (step : σ → σ × δ) (start : σ) (before tolerance : δ) (cap : Rat) : Outcome σ δ :=
  runFrom step tolerance (budget cap) 0 start before

end Iteration

end Geospatial
