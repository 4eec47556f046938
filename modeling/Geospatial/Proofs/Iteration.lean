import Geospatial.Iteration
import Mathlib.Data.Real.Basic
import Mathlib.Logic.Function.Iterate
import Mathlib.Tactic

/-!
# What an iteration returns

An iteration ends as soon as its cap is reached or its last displacement does not exceed the
tolerance, and returns what its step made of the start until then. So what every step preserves
holds of where it ends, a map that carries every step along carries the iteration, and a wider
tolerance takes no more steps. A measure that every step beyond the tolerance lowers by more than a
fixed loss pays for no more steps than it holds losses, so that an iteration with as many steps comes
to rest.
-/

namespace Geospatial.Iteration

variable {σ δ : Type}

def after (step : σ → σ × δ) (start : σ) (steps : Nat) : σ :=
  (fun value => (step value).1)^[steps] start

@[simp] theorem after_zero (step : σ → σ × δ) (start : σ) : after step start 0 = start := rfl

theorem after_succ (step : σ → σ × δ) (start : σ) (steps : Nat) :
    after step start (steps + 1) = (step (after step start steps)).1 :=
  Function.iterate_succ_apply' _ _ _

/-- A measure that no step raises is no greater where some steps lead than where they start. -/
theorem measure_after_le {β : Type} [Preorder β] {step : σ → σ × δ} {measure : σ → β}
    (h : ∀ value, measure (step value).1 ≤ measure value) (start : σ) (steps : Nat) :
    measure (after step start steps) ≤ measure start := by
  induction steps with
  | zero => exact le_rfl
  | succ steps ih =>
      rw [after_succ]
      exact (h _).trans ih

/-- The displacement of the last of some steps; without steps, the one that led to the start. -/
def lastMove (step : σ → σ × δ) (start : σ) (before : δ) : Nat → δ
  | 0 => before
  | steps + 1 => (step (after step start steps)).2

variable [LT δ] [LE δ] [DecidableLT δ] [DecidableLE δ]

def outcomeAfter (step : σ → σ × δ) (start : σ) (before tolerance : δ) (steps : Nat) :
    Outcome σ δ :=
  ⟨after step start steps, steps, decide (lastMove step start before steps ≤ tolerance),
    lastMove step start before steps⟩

/-- An iteration may end after some steps: the cap is reached, or the last displacement does not
exceed the tolerance. -/
def MayEnd (step : σ → σ × δ) (start : σ) (before tolerance : δ) (cap : Rat) (steps : Nat) : Prop :=
  cap ≤ steps ∨ ¬tolerance < lastMove step start before steps

theorem runFrom_eq (step : σ → σ × δ) (start : σ) (before tolerance : δ) (budget taken : Nat) :
    ∃ more ≤ budget,
      runFrom step tolerance budget taken (after step start taken) (lastMove step start before taken) =
        outcomeAfter step start before tolerance (taken + more) ∧
      (more = budget ∨ ¬tolerance < lastMove step start before (taken + more)) ∧
      ∀ k < more, tolerance < lastMove step start before (taken + k) := by
  induction budget generalizing taken with
  | zero => exact ⟨0, Nat.le_refl 0, rfl, Or.inl rfl, fun k hk => absurd hk (Nat.not_lt_zero k)⟩
  | succ budget ih =>
      by_cases h : tolerance < lastMove step start before taken
      · obtain ⟨more, hmore, hrun, hends, hgoes⟩ := ih (taken + 1)
        have hcount : taken + 1 + more = taken + (more + 1) := by omega
        rw [hcount] at hrun hends
        refine ⟨more + 1, Nat.succ_le_succ hmore, ?_, ?_, fun k hk => ?_⟩
        · rw [runFrom, if_pos h, ← hrun, after_succ]
          rfl
        · exact hends.imp_left (congrArg Nat.succ)
        · cases k with
          | zero => exact h
          | succ k =>
              have hgo := hgoes k (Nat.lt_of_succ_lt_succ hk)
              rwa [Nat.add_right_comm] at hgo
      · refine ⟨0, Nat.zero_le _, ?_, Or.inr h, fun k hk => absurd hk (Nat.not_lt_zero k)⟩
        rw [runFrom, if_neg h]
        rfl

theorem budget_le_iff (cap : Rat) (steps : Nat) : budget cap ≤ steps ↔ cap ≤ steps := by
  rw [budget, Int.toNat_le, Rat.ceil_le_iff, Int.cast_natCast]

theorem le_budget (cap : Rat) : cap ≤ budget cap :=
  (budget_le_iff cap _).mp le_rfl

section Run

variable (step : σ → σ × δ) (start : σ) (before tolerance : δ) (cap : Rat)

/-- An iteration ends as soon as it may. -/
theorem run_isLeast :
    IsLeast {steps | MayEnd step start before tolerance cap steps}
      (run step start before tolerance cap).steps ∧
    run step start before tolerance cap =
      outcomeAfter step start before tolerance (run step start before tolerance cap).steps := by
  obtain ⟨steps, hsteps, hrun, hends, hgoes⟩ :=
    runFrom_eq step start before tolerance (budget cap) 0
  rw [Nat.zero_add] at hrun hends
  have houtcome : run step start before tolerance cap =
      outcomeAfter step start before tolerance steps := hrun
  rw [houtcome]
  refine ⟨⟨hends.imp_left fun hcap => ?_, fun k hk => ?_⟩, rfl⟩
  · exact (budget_le_iff cap steps).mp hcap.ge
  · by_contra hlt
    have hbelow : k < steps := not_le.mp hlt
    rcases hk with hk | hk
    · have hbudget := (budget_le_iff cap k).mpr hk
      omega
    · have hgo := hgoes k hbelow
      rw [Nat.zero_add] at hgo
      exact hk hgo

/-- An iteration ends where its steps lead. -/
theorem run_value : (run step start before tolerance cap).value =
    after step start (run step start before tolerance cap).steps :=
  congrArg Outcome.value (run_isLeast step start before tolerance cap).2

theorem run_displacement : (run step start before tolerance cap).displacement =
    lastMove step start before (run step start before tolerance cap).steps :=
  congrArg Outcome.displacement (run_isLeast step start before tolerance cap).2

theorem run_converged_iff : (run step start before tolerance cap).converged = true ↔
    (run step start before tolerance cap).displacement ≤ tolerance := by
  rw [(run_isLeast step start before tolerance cap).2]
  exact decide_eq_true_iff

theorem run_steps_le : (run step start before tolerance cap).steps ≤ budget cap :=
  (run_isLeast step start before tolerance cap).1.2 (Or.inl (le_budget cap))

end Run

section Comparison

variable {step : σ → σ × δ} {start : σ} {before tolerance : δ} {cap : Rat}

/-- An iteration that has come to rest does so under every higher cap. -/
theorem run_of_converged {further : Rat} (hcap : cap ≤ further)
    (hrest : ∀ moved : δ, moved ≤ tolerance → ¬tolerance < moved)
    (h : (run step start before tolerance cap).converged = true) :
    run step start before tolerance further = run step start before tolerance cap := by
  obtain ⟨hleast, houtcome⟩ := run_isLeast step start before tolerance cap
  obtain ⟨hleast', houtcome'⟩ := run_isLeast step start before tolerance further
  have hmoved := (run_converged_iff step start before tolerance cap).mp h
  rw [run_displacement] at hmoved
  have hmay : MayEnd step start before tolerance further
      (run step start before tolerance cap).steps := Or.inr (hrest _ hmoved)
  have hearlier : ∀ steps, MayEnd step start before tolerance further steps →
      MayEnd step start before tolerance cap steps :=
    fun steps hsteps => hsteps.imp_left hcap.trans
  have hsteps : (run step start before tolerance further).steps =
      (run step start before tolerance cap).steps :=
    le_antisymm (hleast'.2 hmay) (hleast.2 (hearlier _ hleast'.1))
  rw [houtcome', hsteps, ← houtcome]

/-- An iteration with a wider tolerance takes no more steps. -/
theorem run_steps_le_of_wider {wider : δ} (h : ∀ moved, wider < moved → tolerance < moved) :
    (run step start before wider cap).steps ≤ (run step start before tolerance cap).steps := by
  obtain ⟨hleast, -⟩ := run_isLeast step start before tolerance cap
  obtain ⟨hleast', -⟩ := run_isLeast step start before wider cap
  exact hleast.mono hleast' fun steps hsteps => hsteps.imp_right (mt (h _))

end Comparison

/-! ## Carrying an iteration along a map -/

def mapValue {τ : Type} (f : σ → τ) (outcome : Outcome σ δ) : Outcome τ δ :=
  { outcome with value := f outcome.value }

/-- Steps that a map carries along make the same decisions. -/
theorem runFrom_map {τ : Type} {f : σ → τ} {step : σ → σ × δ} {other : τ → τ × δ}
    (h : ∀ value, other (f value) = (f (step value).1, (step value).2)) (tolerance : δ)
    (budget taken : Nat) (value : σ) (displacement : δ) :
    runFrom other tolerance budget taken (f value) displacement =
      mapValue f (runFrom step tolerance budget taken value displacement) := by
  induction budget generalizing taken value displacement with
  | zero => rfl
  | succ budget ih =>
      by_cases hmoved : tolerance < displacement
      · rw [runFrom, runFrom, if_pos hmoved, if_pos hmoved, h]
        exact ih _ _ _
      · rw [runFrom, runFrom, if_neg hmoved, if_neg hmoved]
        rfl

theorem run_map {τ : Type} {f : σ → τ} {step : σ → σ × δ} {other : τ → τ × δ}
    (h : ∀ value, other (f value) = (f (step value).1, (step value).2)) (start : σ)
    (before tolerance : δ) (cap : Rat) :
    run other (f start) before tolerance cap = mapValue f (run step start before tolerance cap) :=
  runFrom_map h tolerance (budget cap) 0 start before

/-! ## Coming to rest -/

theorem budget_ne_zero {cap : Rat} (h : 1 ≤ cap) : budget cap ≠ 0 := by
  intro hzero
  have hle := h.trans (le_budget cap)
  rw [hzero] at hle
  norm_num at hle

section Measure

variable {step : σ → σ × ℝ} {tolerance : ℝ}

theorem runFrom_of_le (budget taken : Nat) (value : σ) {displacement : ℝ}
    (h : displacement ≤ tolerance) :
    (runFrom step tolerance budget taken value displacement).converged = true := by
  cases budget with
  | zero => simp [runFrom, h]
  | succ budget => simp [runFrom, not_lt.mpr h, h]

/-- An iteration whose first step rests ends there. -/
theorem run_of_rest {start : σ} {before moved : ℝ} {cap : Rat} (hcap : 1 ≤ cap)
    (hbefore : tolerance < before) (hstep : step start = (start, moved)) (hmoved : moved ≤ tolerance) :
    run step start before tolerance cap = ⟨start, 1, true, moved⟩ := by
  obtain ⟨rest, hrest⟩ := Nat.exists_eq_succ_of_ne_zero (budget_ne_zero hcap)
  rw [run, hrest, runFrom, if_pos hbefore, hstep]
  cases rest with
  | zero => simp [runFrom, hmoved]
  | succ rest => simp [runFrom, not_lt.mpr hmoved, hmoved]

/-- The measure pays for every step beyond the tolerance, so such steps cannot fill the budget. -/
theorem runFrom_converged (holds : σ → Prop) (measure : σ → ℝ) {loss : ℝ}
    (hkeeps : ∀ value, holds value → holds (step value).1) (hnonneg : ∀ value, 0 ≤ measure value)
    (hfalls : ∀ value, holds value → tolerance < (step value).2 →
      measure (step value).1 + loss < measure value)
    {budget : Nat} (taken : Nat) {value : σ} (displacement : ℝ) (hbudget : budget ≠ 0)
    (hvalue : holds value) (hmeasure : measure value ≤ budget * loss) :
    (runFrom step tolerance budget taken value displacement).converged = true := by
  induction budget generalizing taken value displacement with
  | zero => exact absurd rfl hbudget
  | succ budget ih =>
      by_cases h : tolerance < displacement
      · rw [runFrom, if_pos h]
        by_cases hmoved : tolerance < (step value).2
        · have hfall := hfalls value hvalue hmoved
          push_cast at hmeasure
          have hrest : measure (step value).1 < budget * loss := by linarith
          refine ih _ _ (fun hzero => ?_) (hkeeps value hvalue) hrest.le
          -- with no step left the measure would be negative
          have hnext := hnonneg (step value).1
          rw [hzero, Nat.cast_zero, zero_mul] at hrest
          linarith
        · exact runFrom_of_le _ _ _ (not_lt.mp hmoved)
      · exact runFrom_of_le _ _ _ (not_lt.mp h)

end Measure

end Geospatial.Iteration
