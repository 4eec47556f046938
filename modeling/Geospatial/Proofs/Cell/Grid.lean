import Geospatial.Proofs.Cell.Degrees
import Geospatial.Proofs.Cell.Level

/-!
# Sides of cells

The square of a cell lies on the grid of its level. Only the squares of the coarsest level reach
over the middle of their face; of every other one the sides lie in one half of it. There the ends of
a side differ little in their distances from the axis, so that its edge is a mild chord in the plane
of the equator, unless it runs straight to the axis.
-/

namespace Geospatial

/-! ## Squares on the grid -/

namespace Curve

theorem quarterAt_lt (orientation rank : Nat) : quarterAt orientation rank < 4 := by
  have hall : ∀ order ∈ quarters, ∀ quarter ∈ order, quarter < 4 := by decide
  rw [quarterAt, List.getD_eq_getElem?_getD, List.getD_eq_getElem?_getD]
  cases horder : quarters[orientation]? with
  | none => simp
  | some order =>
      rw [Option.getD_some]
      cases hquarter : order[rank]? with
      | none => simp
      | some quarter =>
          exact hall order (List.mem_of_getElem? horder) quarter (List.mem_of_getElem? hquarter)

/-- A square that grows by one digit of two on each axis at each place. -/
theorem foldl_square_lt (step : Nat × Nat × Nat → Nat → Nat × Nat × Nat)
    (hstep : ∀ state k, (step state k).2.1 < 2 * (state.2.1 + 1) ∧
      (step state k).2.2 < 2 * (state.2.2 + 1)) (places : List Nat) (state : Nat × Nat × Nat) :
    (places.foldl step state).2.1 < (state.2.1 + 1) * 2 ^ places.length ∧
      (places.foldl step state).2.2 < (state.2.2 + 1) * 2 ^ places.length := by
  induction places generalizing state with
  | nil => simp
  | cons k rest ih =>
      obtain ⟨hi, hj⟩ := hstep state k
      obtain ⟨hi', hj'⟩ := ih (step state k)
      rw [List.foldl_cons, List.length_cons, pow_succ']
      constructor
      · calc _ < ((step state k).2.1 + 1) * 2 ^ rest.length := hi'
          _ ≤ 2 * (state.2.1 + 1) * 2 ^ rest.length := Nat.mul_le_mul_right _ hi
          _ = _ := by ring
      · calc _ < ((step state k).2.2 + 1) * 2 ^ rest.length := hj'
          _ ≤ 2 * (state.2.2 + 1) * 2 ^ rest.length := Nat.mul_le_mul_right _ hj
          _ = _ := by ring

theorem decode_lt (orientation position : Nat) :
    (decode orientation position).1 < 2 ^ maxLevel ∧
      (decode orientation position).2 < 2 ^ maxLevel := by
  have hlevels : levels.length = maxLevel := by simp [levels]
  have hcount : 2 ^ maxLevel = (0 + 1) * 2 ^ levels.length := by rw [hlevels, zero_add, one_mul]
  rw [hcount]
  refine foldl_square_lt _ (fun state k => ?_) levels (orientation, 0, 0)
  have hquarter := quarterAt_lt state.1 (position / Nat.pow 4 k % 4)
  change 2 * state.2.1 + quarterAt _ _ / 2 < _ ∧ 2 * state.2.2 + quarterAt _ _ % 2 < _
  omega

end Curve

namespace Cell

structure OnGrid (c : Cell) : Prop where
  level_le : c.level ≤ maxLevel
  i_dvd : c.size ∣ c.i
  j_dvd : c.size ∣ c.j
  i_le : c.i + c.size ≤ 2 ^ maxLevel
  j_le : c.j + c.size ≤ 2 ^ maxLevel

theorem level_le_of_level? {id : CellId} {level : Nat} (h : id.level? = some level) :
    level ≤ maxLevel := by
  unfold CellId.level? at h
  split at h
  · cases h
  · split_ifs at h
    · cases h
      exact Nat.sub_le _ _
    · cases h
      decide

/-- A line of the finest grid rounded down to the grid of a level. -/
theorem div_mul_add_le {line level : Nat} (hline : line < 2 ^ maxLevel) (hlevel : level ≤ maxLevel) :
    line / 2 ^ (maxLevel - level) * 2 ^ (maxLevel - level) + 2 ^ (maxLevel - level) ≤
      2 ^ maxLevel := by
  have hsplit : 2 ^ maxLevel = 2 ^ level * 2 ^ (maxLevel - level) := by
    rw [← pow_add, Nat.add_sub_cancel' hlevel]
  rw [← Nat.succ_mul, hsplit]
  refine Nat.mul_le_mul_right _ (Nat.succ_le_of_lt ?_)
  rw [Nat.div_lt_iff_lt_mul (Nat.two_pow_pos _), ← hsplit]
  exact hline

theorem onGrid_of_id {id : CellId} {c : Cell} (h : ofId? id = some c) : c.OnGrid := by
  obtain ⟨level, hlevel, rfl⟩ := Option.map_eq_some_iff.mp h
  have hle := level_le_of_level? hlevel
  obtain ⟨hi, hj⟩ := Curve.decode_lt (id.face % 2) (id.val / 2 % Nat.pow 2 60)
  exact ⟨hle, Nat.dvd_mul_left _ _, Nat.dvd_mul_left _ _, div_mul_add_le hi hle,
    div_mul_add_le hj hle⟩

/-- Every identifier of a cell tells its square. -/
theorem exists_of_isValid {id : CellId} (h : id.isValid = true) : ∃ c, ofId? id = some c := by
  obtain ⟨level, -, hlevel⟩ := CellId.exists_level?_of_isValid h
  exact ⟨_, Option.map_eq_some_iff.mpr ⟨level, hlevel, rfl⟩⟩

end Cell

/-! ## Lines in the plane of a face -/

/-- The plane coordinate of a line by its place on the grid, `-1` to `1`. -/
noncomputable def spread (y : ℝ) : ℝ := y * (2.0 + |y|) / 3.0

theorem spread_eq (y : ℝ) : spread y = y * (2 + |y|) / 3 := by
  norm_num [spread]

theorem planeLine_eq (line : ℕ) :
    (Cell.planeLine line : ℝ) = spread (((line : ℤ) - 2 ^ 29 : ℤ) / 2 ^ 29) := by
  have hfine : (1.0 / 1073741824.0 : ℝ) * (line : ℝ) = (line : ℝ) / 2 ^ 30 := by norm_num; ring
  rw [Cell.planeLine, hfine, Face.planeOfGrid, spread_eq]
  push_cast
  split
  · rename_i h
    rw [abs_of_nonneg]
    · norm_num
      ring
    · norm_num at h ⊢
      linarith
  · rename_i h
    rw [abs_of_neg]
    · norm_num
      ring
    · norm_num at h ⊢
      linarith

theorem planeLine_first : (Cell.planeLine 0 : ℝ) = -1 := by
  rw [planeLine_eq]
  norm_num [spread]

theorem planeLine_last : (Cell.planeLine (2 ^ maxLevel) : ℝ) = 1 := by
  have hmax : maxLevel = 30 := rfl
  rw [planeLine_eq, hmax]
  norm_num [spread]

theorem spread_neg (y : ℝ) : spread (-y) = -spread y := by
  rw [spread_eq, spread_eq, abs_neg]
  ring

theorem abs_spread (y : ℝ) : |spread y| = spread |y| := by
  rw [spread_eq, spread_eq, abs_div, abs_mul, abs_abs, abs_of_nonneg (by positivity : 0 ≤ 2 + |y|),
    abs_of_pos (by norm_num : (0 : ℝ) < 3)]

theorem spread_le_spread {y z : ℝ} (hy : 0 ≤ y) (hyz : y ≤ z) : spread y ≤ spread z := by
  have hz := hy.trans hyz
  rw [spread_eq, spread_eq, abs_of_nonneg hy, abs_of_nonneg hz]
  gcongr

theorem spread_nonneg {y : ℝ} (hy : 0 ≤ y) : 0 ≤ spread y := by
  unfold spread
  positivity

theorem abs_spread_le_one {y : ℝ} (hy : |y| ≤ 1) : |spread y| ≤ 1 := by
  rw [abs_spread]
  refine (spread_le_spread (abs_nonneg y) hy).trans ?_
  norm_num [spread]

/-- The ends of a side of a square on one axis of the plane of its face, and its place on the other
axis. The side of a whole face joins two corners; any other lies in one half of the face. -/
structure IsSide (w w' c : ℝ) : Prop where
  abs_le : |w| ≤ 1 ∧ |w'| ≤ 1 ∧ |c| ≤ 1
  lies : (w * w' = -1 ∧ w ^ 2 = 1 ∧ w' ^ 2 = 1 ∧ c ^ 2 = 1) ∨
    0 ≤ w * w' ∧ (c = 0 ∨ |w| ≤ 1.4 * |w'| + |c| ∧ |w'| ≤ 1.4 * |w| + |c|)

namespace IsSide

variable {w w' c : ℝ}

theorem symm (h : IsSide w w' c) : IsSide w' w c := by
  obtain ⟨⟨hw, hw', hc⟩, hwide | ⟨hsign, hnarrow⟩⟩ := h
  · exact ⟨⟨hw', hw, hc⟩, Or.inl ⟨mul_comm w w' ▸ hwide.1, hwide.2.2.1, hwide.2.1, hwide.2.2.2⟩⟩
  · exact ⟨⟨hw', hw, hc⟩, Or.inr ⟨mul_comm w w' ▸ hsign, hnarrow.imp_right And.symm⟩⟩

theorem neg (h : IsSide w w' c) : IsSide (-w) (-w') c := by
  obtain ⟨⟨hw, hw', hc⟩, hlies⟩ := h
  refine ⟨⟨by rwa [abs_neg], by rwa [abs_neg], hc⟩, ?_⟩
  rwa [neg_mul_neg, neg_sq, neg_sq, abs_neg, abs_neg]

/-- A side of one step of a grid, on the upper half of its axis. -/
theorem of_step {y step z : ℝ} (hstep : 0 < step) (hy : 0 ≤ y) (hsum : y + step ≤ 1)
    (hgrid : y = 0 ∨ step ≤ y) (hz : |z| ≤ 1) (hzgrid : z = 0 ∨ step ≤ |z|) :
    IsSide (spread y) (spread (y + step)) (spread z) := by
  have hbelow := spread_nonneg hy
  have hup := spread_le_spread hy (le_add_of_nonneg_right hstep.le)
  have habove := hbelow.trans hup
  refine ⟨⟨abs_spread_le_one (by rw [abs_of_nonneg hy]; linarith),
    abs_spread_le_one (by rw [abs_of_nonneg (by linarith)]; exact hsum), abs_spread_le_one hz⟩,
    Or.inr ⟨mul_nonneg hbelow habove, ?_⟩⟩
  rcases hzgrid with rfl | hzgrid
  · exact Or.inl (by simp [spread])
  · have hplace : spread step ≤ |spread z| := by
      rw [abs_spread]
      exact spread_le_spread hstep.le hzgrid
    rw [abs_of_nonneg hbelow, abs_of_nonneg habove]
    refine Or.inr ⟨by linarith [abs_nonneg (spread z)], ?_⟩
    have hexpand : spread (y + step) = spread y + spread step + 2 / 3 * (y * step) := by
      rw [spread_eq, spread_eq, spread_eq, abs_of_nonneg hy, abs_of_pos hstep,
        abs_of_nonneg (by linarith)]
      ring
    have hproduct : 2 / 3 * (y * step) ≤ 0.4 * spread y := by
      rw [spread_eq, abs_of_nonneg hy]
      rcases hgrid with rfl | hgrid
      · simp
      · have hsmall : 2 * step ≤ 0.4 * (2 + y) := by norm_num; linarith
        nlinarith
    rw [hexpand]
    linarith

theorem grid_cases {size : ℕ} {m : ℤ} (hsize : (size : ℤ) ∣ m) (hm : 0 ≤ m) :
    (m : ℝ) / 2 ^ 29 = 0 ∨ (size : ℝ) / 2 ^ 29 ≤ (m : ℝ) / 2 ^ 29 := by
  rcases hm.eq_or_lt with rfl | hpos
  · exact Or.inl (by norm_num)
  · have hle : (size : ℝ) ≤ (m : ℝ) := by exact_mod_cast Int.le_of_dvd hpos hsize
    exact Or.inr (by gcongr)

/-- A side between neighbouring lines of a grid that has a line through the middle of the face. -/
theorem of_halves {size : ℕ} {m k : ℤ} (hsize : 0 < size) (hm : (size : ℤ) ∣ m)
    (hk : (size : ℤ) ∣ k) (hlow : -2 ^ 29 ≤ m) (hhigh : m + size ≤ 2 ^ 29) (hrange : |k| ≤ 2 ^ 29) :
    IsSide (spread (m / 2 ^ 29)) (spread ((m + size : ℤ) / 2 ^ 29)) (spread (k / 2 ^ 29)) := by
  have hstep : (0 : ℝ) < size / 2 ^ 29 := by positivity
  have habs : |(k : ℝ) / 2 ^ 29| = ((|k| : ℤ) : ℝ) / 2 ^ 29 := by
    rw [abs_div, Int.cast_abs, abs_of_pos (by positivity : (0 : ℝ) < 2 ^ 29)]
  have hz : |(k : ℝ) / 2 ^ 29| ≤ 1 := by
    rw [habs, div_le_one (by positivity)]
    exact_mod_cast hrange
  have hzgrid : (k : ℝ) / 2 ^ 29 = 0 ∨ (size : ℝ) / 2 ^ 29 ≤ |(k : ℝ) / 2 ^ 29| := by
    have hcases := grid_cases ((dvd_abs _ _).mpr hk) (abs_nonneg k)
    rw [← habs] at hcases
    exact hcases.imp_left abs_eq_zero.mp
  have hside : ∀ n : ℤ, (size : ℤ) ∣ n → 0 ≤ n → n + size ≤ 2 ^ 29 →
      IsSide (spread (n / 2 ^ 29)) (spread ((n + size : ℤ) / 2 ^ 29)) (spread (k / 2 ^ 29)) := by
    intro n hn hnonneg hle
    have hsum : (n : ℝ) / 2 ^ 29 + size / 2 ^ 29 ≤ 1 := by
      rw [← add_div, div_le_one (by positivity)]
      exact_mod_cast hle
    have hreal : (0 : ℝ) ≤ n / 2 ^ 29 := div_nonneg (by exact_mod_cast hnonneg) (by positivity)
    have := of_step hstep hreal hsum (grid_cases hn hnonneg) hz hzgrid
    rwa [← add_div, ← Int.cast_natCast (R := ℝ) size, ← Int.cast_add] at this
  rcases le_or_gt 0 m with hnonneg | hneg
  · exact hside m hm hnonneg hhigh
  · -- a side on the lower half is the mirror image of one on the upper half
    have hle : m + size ≤ 0 := by
      have := Int.le_of_dvd (neg_pos.mpr hneg) ((dvd_neg).mpr hm)
      linarith
    have hmirror := (hside (-(m + size)) ((dvd_neg).mpr (dvd_add hm (dvd_refl _))) (by linarith)
      (by linarith)).symm.neg
    have hback : -(m + size) + size = -m := by ring
    rwa [hback, Int.cast_neg, Int.cast_neg, neg_div, neg_div, spread_neg, spread_neg, neg_neg,
      neg_neg] at hmirror

/-- A side of a whole face. -/
theorem of_face (c : ℝ) (hc : c = -1 ∨ c = 1) : IsSide (-1) 1 c := by
  have hc2 : c ^ 2 = 1 := by rcases hc with rfl | rfl <;> norm_num
  refine ⟨⟨by norm_num, by norm_num, ?_⟩, Or.inl ⟨by norm_num, by norm_num, by norm_num, hc2⟩⟩
  rcases hc with rfl | rfl <;> norm_num

end IsSide

/-- The lines of the grid of a level bound sides. -/
theorem isSide_of_lines {level line other : ℕ} (hlevel : level ≤ maxLevel)
    (hline : 2 ^ (maxLevel - level) ∣ line) (hle : line + 2 ^ (maxLevel - level) ≤ 2 ^ maxLevel)
    (hother : 2 ^ (maxLevel - level) ∣ other) (hother' : other ≤ 2 ^ maxLevel) :
    IsSide (Cell.planeLine line) (Cell.planeLine (line + 2 ^ (maxLevel - level)))
      (Cell.planeLine other) := by
  have hmax : maxLevel = 30 := rfl
  rcases Nat.eq_zero_or_pos level with rfl | hpos
  · rw [Nat.sub_zero] at hline hle hother ⊢
    obtain rfl : line = 0 := by omega
    rw [zero_add, planeLine_first, planeLine_last]
    refine IsSide.of_face _ ?_
    obtain ⟨n, rfl⟩ := hother
    have hn : n ≤ 1 := by
      rw [hmax] at hother'
      omega
    interval_cases n
    · exact Or.inl planeLine_first
    · exact Or.inr (by rw [mul_one]; exact planeLine_last)
  · have hdvd : ((2 ^ (maxLevel - level) : ℕ) : ℤ) ∣ 2 ^ 29 := by
      have : 2 ^ (maxLevel - level) ∣ 2 ^ 29 := pow_dvd_pow 2 (by omega)
      exact_mod_cast this
    have hpower : (2 : ℕ) ^ maxLevel = 2 ^ 29 + 2 ^ 29 := by rw [hmax]; norm_num
    rw [planeLine_eq, planeLine_eq, planeLine_eq]
    have hsum : ((line + 2 ^ (maxLevel - level) : ℕ) : ℤ) - 2 ^ 29 =
        (line : ℤ) - 2 ^ 29 + ((2 ^ (maxLevel - level) : ℕ) : ℤ) := by
      push_cast
      ring
    rw [hsum]
    refine IsSide.of_halves (Nat.two_pow_pos _)
      (dvd_sub (Int.natCast_dvd_natCast.mpr hline) hdvd)
      (dvd_sub (Int.natCast_dvd_natCast.mpr hother) hdvd) (by omega) (by omega) ?_
    rw [abs_le]
    omega

end Geospatial
