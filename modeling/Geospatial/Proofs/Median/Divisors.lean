import Geospatial.Proofs.Geometry.Components
import Geospatial.Proofs.Median.Descent

/-!
# What a step divides by

The step is written once more over a division with an effect. With plain quotients it is the step of
the search. Over the exact numbers it divides by the distances of points that its estimate does not
sit on, by the sum of their weights, and by a pull that is not zero, so that a division which fails
on zero, or gives anything there, makes no difference.
-/

namespace Geospatial.Median

section Effect

variable {α : Type} {m : Type → Type} [Monad m] {d : Nat} [Add α] [Sub α] [Mul α] [OfNat α 0]
  [OfNat α 1] [NatCast α] [LT α] [LE α] [DecidableLT α] [DecidableLE α] [BEq α] [Root α]
  [Coincidence α] (divide : α → α → m α)

def weightsM (points : List (Vec α d)) (estimate : Vec α d) : m (List α) :=
  points.mapM fun p => divide 1 (reach estimate p)

def weightedMeanM (points : List (Vec α d)) (estimate : Vec α d) : m (Vec α d) := do
  let weights ← weightsM divide points estimate
  (Vec.sum (List.zipWith Vec.times points weights)).mapM (divide · (weights.foldl (· + ·) 0))

def pullM (points : List (Vec α d)) (estimate : Vec α d) : m α := do
  let weights ← weightsM divide points estimate
  return (Vec.sum (List.zipWith (fun p w => (p.minus estimate).times w) points weights)).norm

def holdBackM (hits : Nat) (pull : α) : m α :=
  if pull == 0 then return 1
  else do
    let share ← divide hits pull
    return if share < 1 then share else 1

/-- The step, its divisions having an effect. -/
def stepM (points : List (Vec α d)) (estimate : Vec α d) : m (Vec α d × α) :=
  let others := away points estimate
  if others.isEmpty then return (estimate, 0)
  else do
    let target ← weightedMeanM divide others estimate
    let hits := points.length - others.length
    let next ←
      if hits = 0 then pure target
      else do
        let force ← pullM divide others estimate
        let share ← holdBackM divide hits force
        pure ((target.times (1 - share)).plus (estimate.times share))
    return (next, (next.minus estimate).norm)

end Effect

section Quotients

variable {α : Type} {m : Type → Type} [Monad m] [LawfulMonad m] {d : Nat} [Add α] [Sub α] [Mul α]
  [Div α] [OfNat α 0] [OfNat α 1] [NatCast α] [LT α] [LE α] [DecidableLT α] [DecidableLE α] [BEq α]
  [Root α] [Coincidence α] {divide : α → α → m α} {points : List (Vec α d)} {estimate : Vec α d}

omit [NatCast α] [LT α] [LE α] [DecidableLT α] [DecidableLE α] [BEq α] [Coincidence α] in
theorem weightedMeanM_eq
    (hweight : ∀ p ∈ points, divide 1 (reach estimate p) = pure (weight estimate p))
    (htotal : ∀ a, divide a ((points.map (weight estimate)).foldl (· + ·) 0) =
      pure (a / (points.map (weight estimate)).foldl (· + ·) 0)) :
    weightedMeanM divide points estimate = pure (weightedMean points estimate) := by
  rw [weightedMeanM, weightsM, mapM_eq_pure hweight, pure_bind, funext htotal, Vector.mapM_pure,
    List.zipWith_map_right, List.zipWith_self]
  rfl

omit [NatCast α] [LT α] [LE α] [DecidableLT α] [DecidableLE α] [BEq α] [Coincidence α] in
theorem pullM_eq
    (hweight : ∀ p ∈ points, divide 1 (reach estimate p) = pure (weight estimate p)) :
    pullM divide points estimate = pure (pull points estimate) := by
  rw [pullM, weightsM, mapM_eq_pure hweight, pure_bind, List.zipWith_map_right, List.zipWith_self]
  rfl

omit [Add α] [Sub α] [Mul α] [LE α] [DecidableLE α] [Root α] [Coincidence α] in
theorem holdBackM_eq {hits : Nat} {force : α}
    (h : ¬(force == 0) = true → divide hits force = pure (hits / force)) :
    holdBackM divide hits force = pure (holdBack hits force) := by
  unfold holdBackM holdBack
  split
  · rfl
  · rw [h ‹_›, pure_bind]

/-- It is the step of the search where the division gives the quotients that are asked of it. -/
theorem stepM_eq
    (hweight : ∀ p ∈ away points estimate,
      divide 1 (reach estimate p) = pure (weight estimate p))
    (htotal : ¬(away points estimate).isEmpty = true → ∀ a,
      divide a (((away points estimate).map (weight estimate)).foldl (· + ·) 0) =
        pure (a / ((away points estimate).map (weight estimate)).foldl (· + ·) 0))
    (hpull : ¬(pull (away points estimate) estimate == 0) = true → ∀ hits : Nat,
      divide hits (pull (away points estimate) estimate) =
        pure (hits / pull (away points estimate) estimate)) :
    stepM divide points estimate = pure (step points estimate) := by
  by_cases hnone : (away points estimate).isEmpty = true
  · rw [stepM, step, if_pos hnone, if_pos hnone]
  · simp only [stepM, step, if_neg hnone, weightedMeanM_eq hweight (htotal hnone),
      pullM_eq hweight, holdBackM_eq fun h => hpull h _, pure_bind]
    split <;> rfl

/-- With quotients it is the step of the search. -/
theorem stepM_pure (points : List (Vec α d)) (estimate : Vec α d) :
    stepM (fun a b => (pure (a / b) : m α)) points estimate = pure (step points estimate) :=
  stepM_eq (fun _ _ => rfl) (fun _ _ => rfl) fun _ _ => rfl

end Quotients

/-! ## Divisions of exact numbers -/

/-- Over the exact numbers a division need only give quotients by what is not zero. -/
theorem stepM_exact {m : Type → Type} [Monad m] [LawfulMonad m] {d : Nat} {divide : ℝ → ℝ → m ℝ}
    (h : ∀ a b, b ≠ 0 → divide a b = pure (a / b)) (points : List (Vec ℝ d))
    (estimate : Vec ℝ d) : stepM divide points estimate = pure (step points estimate) := by
  refine stepM_eq (fun p hp => h _ _ (reach_pos_of_mem_away hp).ne') (fun hnone a => h _ _ ?_)
    fun hpull hits => h _ _ (by simpa using hpull)
  rw [← List.sum_eq_foldl]
  exact (totalWeight_pos (by simpa using hnone)).ne'

open Classical in
noncomputable def quotient? (a b : ℝ) : Option ℝ := if b = 0 then none else some (a / b)

/-- A division that gives quotients, by zero anything. -/
def Divides (division : ℝ → ℝ → ℝ) : Prop := ∀ a b, b ≠ 0 → division a b = a / b

end Geospatial.Median
