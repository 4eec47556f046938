import Geospatial.Cell.Id
import Mathlib.Data.List.Range
import Mathlib.Tactic

/-!
# Cells in order

The cells of a level stand in a row along the curve. Cell number `m` of a level has the identifier
`(2 * m + 1) * 2 ^ p`, where `p` is the place that tells the level. Its children are the cells from
`4 * m` on of the level below, and its ancestors have its number divided by powers of four.
-/

namespace Geospatial.CellId

def nth (level m : Nat) : CellId := ofNat ((2 * m + 1) * 2 ^ placeAt level)

def population (level : Nat) : Nat := 6 * 4 ^ level

/-! ## The numbers of cells -/

theorem placeAt_eq (level : Nat) : placeAt level = 2 * (30 - level) := rfl

theorem placeAt_succ {level : Nat} (h : level < maxLevel) :
    placeAt level = placeAt (level + 1) + 2 := by
  have : level < 30 := h
  rw [placeAt_eq, placeAt_eq]
  omega

/-- One level further down a cell is a quarter as wide. -/
theorem two_pow_placeAt {level : Nat} (h : level < maxLevel) :
    2 ^ placeAt level = 4 * 2 ^ placeAt (level + 1) := by
  rw [placeAt_succ h]
  ring

theorem placeAt_even (level : Nat) : placeAt level % 2 = 0 := by
  rw [placeAt_eq]
  omega

theorem placeAt_le (level : Nat) : placeAt level ≤ 2 * maxLevel := by
  rw [placeAt_eq, maxLevel]
  omega

theorem pow_placeAt {level : Nat} (h : level ≤ maxLevel) :
    4 ^ level * 2 ^ placeAt level = 2 ^ 60 := by
  have h30 : level ≤ 30 := h
  have hplace : 2 * level + placeAt level = 60 := by
    rw [placeAt_eq]
    omega
  rw [show 4 = 2 ^ 2 from rfl, ← Nat.pow_mul, ← Nat.pow_add, hplace]

theorem population_mul {level : Nat} (h : level ≤ maxLevel) :
    population level * 2 ^ (placeAt level + 1) = 6 * 2 ^ 61 := by
  calc population level * 2 ^ (placeAt level + 1)
      = 12 * (4 ^ level * 2 ^ placeAt level) := by
        rw [population]
        ring
    _ = 6 * 2 ^ 61 := by
      rw [pow_placeAt h]
      norm_num

theorem ext_val {a b : CellId} (h : a.val = b.val) : a = b := by
  cases a
  cases b
  congr

theorem face_lt_iff (id : CellId) : id.face < 6 ↔ id.val < 6 * 2 ^ 61 := by
  rw [face, Nat.pow_eq, Nat.div_lt_iff_lt_mul (by decide)]

theorem idModulus_eq : idModulus = 2 ^ 64 - 1 := rfl

theorem val_ofNat {n : Nat} (h : n < idModulus) : (ofNat n).val = n := Nat.mod_eq_of_lt h

/-- Identifiers do not wrap around, not even that of what follows the last cell. -/
theorem val_nth {level m : Nat} (hlevel : level ≤ maxLevel) (hm : m ≤ population level) :
    (nth level m).val = (2 * m + 1) * 2 ^ placeAt level := by
  refine val_ofNat ?_
  have hone : 2 ^ placeAt level ≤ 2 ^ 60 := by
    rw [← pow_placeAt hlevel]
    exact Nat.le_mul_of_pos_left _ (Nat.pow_pos (by decide))
  calc (2 * m + 1) * 2 ^ placeAt level
      ≤ (2 * population level + 1) * 2 ^ placeAt level := Nat.mul_le_mul_right _ (by omega)
    _ = population level * 2 ^ (placeAt level + 1) + 2 ^ placeAt level := by ring
    _ ≤ 6 * 2 ^ 61 + 2 ^ 60 := by
      rw [population_mul hlevel]
      exact Nat.add_le_add_left hone _
    _ < idModulus := by
      rw [idModulus_eq]
      decide

theorem nth_lt_nth {level m n : Nat} (hlevel : level ≤ maxLevel) (hm : m ≤ population level)
    (hn : n ≤ population level) : (nth level m).val < (nth level n).val ↔ m < n := by
  have hpos : 0 < 2 ^ placeAt level := Nat.two_pow_pos _
  rw [val_nth hlevel hm, val_nth hlevel hn, Nat.mul_lt_mul_right hpos]
  omega

theorem nth_injective {level m n : Nat} (hlevel : level ≤ maxLevel) (hm : m ≤ population level)
    (hn : n ≤ population level) (h : nth level m = nth level n) : m = n := by
  rcases Nat.lt_trichotomy m n with hlt | heq | hlt
  · have := (nth_lt_nth hlevel hm hn).mpr hlt
    rw [h] at this
    omega
  · exact heq
  · have := (nth_lt_nth hlevel hn hm).mpr hlt
    rw [h] at this
    omega

/-! ## The place of the lowest one -/

theorem testBit_odd_mul (m p i : Nat) (h : i ≤ p) :
    ((2 * m + 1) * 2 ^ p).testBit i = decide (i = p) := by
  rw [Nat.testBit_mul_two_pow]
  rcases Nat.lt_or_eq_of_le h with hlt | rfl
  · have hne : i ≠ p := by omega
    simp [hlt, hne]
  · simp

theorem lowPlace?_of_val {id : CellId} {m p : Nat} (hp : p < 64)
    (h : id.val = (2 * m + 1) * 2 ^ p) : id.lowPlace? = some p := by
  rw [lowPlace?, List.find?_range_eq_some]
  refine ⟨?_, List.mem_range.mpr hp, fun j hj => ?_⟩
  · rw [h, testBit_odd_mul m p p le_rfl]
    simp
  · have hne : j ≠ p := by omega
    rw [h, testBit_odd_mul m p j hj.le]
    simp [hne]

/-- A number whose lowest one is at a place is an odd multiple of a power of two. -/
theorem val_of_lowPlace? {id : CellId} {p : Nat} (h : id.lowPlace? = some p) :
    id.val = (2 * (id.val / 2 ^ (p + 1)) + 1) * 2 ^ p := by
  rw [lowPlace?, List.find?_range_eq_some] at h
  obtain ⟨hone, -, hzeros⟩ := h
  have hlow : id.val % 2 ^ p = 0 := by
    refine Nat.eq_of_testBit_eq fun i => ?_
    rw [Nat.testBit_mod_two_pow, Nat.zero_testBit]
    by_cases hi : i < p
    · simpa [hi] using hzeros i hi
    · simp [hi]
  have hodd : id.val / 2 ^ p % 2 = 1 := by
    simpa [Nat.testBit_eq_decide_div_mod_eq] using hone
  have hhalf : id.val / 2 ^ (p + 1) = id.val / 2 ^ p / 2 := by
    rw [Nat.pow_succ, Nat.div_div_eq_div_mul]
  have hquotient : 2 * (id.val / 2 ^ (p + 1)) + 1 = id.val / 2 ^ p := by
    rw [hhalf]
    omega
  rw [hquotient]
  exact (Nat.div_mul_cancel (Nat.dvd_of_mod_eq_zero hlow)).symm

theorem placeAt_lt (level : Nat) : placeAt level < 64 := by
  rw [placeAt_eq]
  omega

section Nth

variable {level m : Nat}

theorem lowPlace?_nth (hlevel : level ≤ maxLevel) (hm : m ≤ population level) :
    (nth level m).lowPlace? = some (placeAt level) :=
  lowPlace?_of_val (placeAt_lt level) (val_nth hlevel hm)

theorem lowBit_nth (hlevel : level ≤ maxLevel) (hm : m ≤ population level) :
    (nth level m).lowBit = 2 ^ placeAt level := by
  rw [lowBit, lowPlace?_nth hlevel hm]
  rfl

theorem level?_nth (hlevel : level ≤ maxLevel) (hm : m ≤ population level) :
    (nth level m).level? = some level := by
  have hback : maxLevel - placeAt level / 2 = level := by
    have h30 : level ≤ 30 := hlevel
    rw [placeAt_eq, maxLevel]
    omega
  simp only [CellId.level?, lowPlace?_nth hlevel hm, if_pos (placeAt_even level),
    if_pos (placeAt_le level), hback]

theorem isValid_nth (hlevel : level ≤ maxLevel) (hm : m < population level) :
    (nth level m).isValid = true := by
  have hface : (nth level m).face < 6 := by
    rw [face_lt_iff, val_nth hlevel hm.le, ← population_mul hlevel]
    calc (2 * m + 1) * 2 ^ placeAt level < (2 * population level) * 2 ^ placeAt level :=
          Nat.mul_lt_mul_of_pos_right (by omega) (Nat.two_pow_pos _)
      _ = population level * 2 ^ (placeAt level + 1) := by ring
  simp [isValid, lowPlace?_nth hlevel hm.le, hface, placeAt_even, placeAt_le]

end Nth

/-- The cells of a level are those that have a number. -/
theorem isValid_level?_iff {id : CellId} {level : Nat} :
    (id.isValid = true ∧ id.level? = some level) ↔
      level ≤ maxLevel ∧ ∃ m < population level, id = nth level m := by
  constructor
  · rintro ⟨hvalid, hlevel⟩
    cases hlow : id.lowPlace? with
    | none => simp [isValid, hlow] at hvalid
    | some p =>
        simp only [isValid, hlow, Bool.and_eq_true, decide_eq_true_eq] at hvalid
        obtain ⟨hface, heven, hle⟩ := hvalid
        simp only [CellId.level?, hlow, if_pos heven, if_pos hle, Option.some.injEq] at hlevel
        have hle60 : p ≤ 2 * 30 := hle
        have hlevel30 : 30 - p / 2 = level := hlevel
        have hplace : p = placeAt level := by
          rw [placeAt_eq]
          omega
        have hmax : level ≤ maxLevel := by
          rw [maxLevel]
          omega
        have hval := val_of_lowPlace? hlow
        rw [hplace] at hval
        have hm : id.val / 2 ^ (placeAt level + 1) < population level := by
          rw [Nat.div_lt_iff_lt_mul (Nat.two_pow_pos _), population_mul hmax]
          exact (face_lt_iff id).mp hface
        refine ⟨hmax, _, hm, ext_val ?_⟩
        rw [val_nth hmax hm.le]
        exact hval
  · rintro ⟨hmax, m, hm, rfl⟩
    exact ⟨isValid_nth hmax hm, level?_nth hmax hm.le⟩

/-- Every cell is of some level. -/
theorem exists_level?_of_isValid {id : CellId} (h : id.isValid = true) :
    ∃ level ≤ maxLevel, id.level? = some level := by
  cases hlow : id.lowPlace? with
  | none => simp [isValid, hlow] at h
  | some p =>
      simp only [isValid, hlow, Bool.and_eq_true, decide_eq_true_eq] at h
      refine ⟨maxLevel - p / 2, Nat.sub_le _ _, ?_⟩
      simp only [CellId.level?, hlow, if_pos h.2.1, if_pos h.2.2]

theorem nodup_of_ascending {cells : List CellId} (h : cells.Pairwise fun a b => a.val < b.val) :
    cells.Nodup :=
  h.imp fun hlt heq => (heq ▸ hlt).false

def row (level : Nat) : List CellId := (List.range (population level)).map (nth level)

theorem mem_row_iff {id : CellId} {level : Nat} (hlevel : level ≤ maxLevel) :
    id ∈ row level ↔ id.isValid = true ∧ id.level? = some level := by
  simp only [row, List.mem_map, List.mem_range, isValid_level?_iff, hlevel, true_and]
  constructor
  · rintro ⟨m, hm, rfl⟩
    exact ⟨m, hm, rfl⟩
  · rintro ⟨m, hm, rfl⟩
    exact ⟨m, hm, rfl⟩

theorem row_ascends {level : Nat} (hlevel : level ≤ maxLevel) :
    (row level).Pairwise fun a b => a.val < b.val := by
  refine List.pairwise_map.mpr (List.pairwise_lt_range.imp_of_mem ?_)
  intro m n hm hn hlt
  exact (nth_lt_nth hlevel (List.mem_range.mp hm).le (List.mem_range.mp hn).le).mpr hlt

/-! ## Faces, children and ancestors -/

theorem next_nth {level m : Nat} (hlevel : level ≤ maxLevel) (hm : m < population level) :
    (nth level m).next = nth level (m + 1) := by
  rw [next, val_nth hlevel hm.le, lowBit_nth hlevel hm.le, nth]
  congr 1
  ring

/-- A loop over cells ends before the end that it is given, if it is not cut off before. -/
theorem cellsUpTo_nth {level : Nat} (hlevel : level ≤ maxLevel) (count more : Nat) {m : Nat}
    (hm : m + count ≤ population level) :
    cellsUpTo (nth level (m + count)) (count + more) (nth level m) =
      (List.range' m count).map (nth level) := by
  induction count generalizing m with
  | zero =>
      cases more with
      | zero => rfl
      | succ more => simp [cellsUpTo]
  | succ count ih =>
      have hne : nth level m ≠ nth level (m + (count + 1)) := by
        intro h
        have := nth_injective hlevel (by omega) hm h
        omega
      have hcap : count + 1 + more = count + more + 1 := by omega
      have hend : m + (count + 1) = m + 1 + count := by omega
      rw [hcap, cellsUpTo, if_neg hne, next_nth hlevel (by omega), hend, ih (by omega),
        List.range'_succ, List.map_cons]

section Family

variable {level m : Nat}

theorem population_add (above depth : Nat) :
    population (above + depth) = population above * 4 ^ depth := by
  rw [population, population, Nat.pow_add, Nat.mul_assoc]

theorem population_succ (level : Nat) : population (level + 1) = 4 * population level := by
  rw [population, population, Nat.pow_succ]
  omega

/-- The children of a cell are all among the cells of the level below. -/
theorem children_le_population (hm : m < population level) :
    4 * m + 4 ≤ population (level + 1) := by
  rw [population_succ]
  omega

theorem childBegin_nth (hlevel : level < maxLevel) (hm : m < population level) :
    (nth level m).childBegin = nth (level + 1) (4 * m) := by
  rw [childBegin, val_nth hlevel.le hm.le, lowBit_nth hlevel.le hm.le, nth,
    two_pow_placeAt hlevel]
  congr 1
  rw [Nat.mul_div_cancel_left _ (by decide)]
  have hexpand : (2 * m + 1) * (4 * 2 ^ placeAt (level + 1)) =
      8 * m * 2 ^ placeAt (level + 1) + 4 * 2 ^ placeAt (level + 1) := by ring
  rw [hexpand, Nat.add_sub_cancel]
  ring

theorem childEnd_nth (hlevel : level < maxLevel) (hm : m < population level) :
    (nth level m).childEnd = nth (level + 1) (4 * m + 4) := by
  rw [childEnd, val_nth hlevel.le hm.le, lowBit_nth hlevel.le hm.le, nth,
    two_pow_placeAt hlevel]
  congr 1
  rw [Nat.mul_div_cancel_left _ (by decide)]
  ring

/-- The loop over the children comes to its end after four of them, wherever it is cut off. -/
theorem cellsUpTo_children (hlevel : level < maxLevel) (hm : m < population level) (more : Nat) :
    cellsUpTo (nth level m).childEnd (4 + more) (nth level m).childBegin =
      (List.range' (4 * m) 4).map (nth (level + 1)) := by
  rw [childEnd_nth hlevel hm, childBegin_nth hlevel hm,
    cellsUpTo_nth (Nat.succ_le_of_lt hlevel) 4 more (children_le_population hm)]

theorem children_nth (hlevel : level < maxLevel) (hm : m < population level) :
    (nth level m).children = (List.range' (4 * m) 4).map (nth (level + 1)) :=
  cellsUpTo_children hlevel hm 0

theorem val_nth_div (hlevel : level ≤ maxLevel) (hm : m < population level) (levels : Nat) :
    (nth level m).val / 2 ^ (placeAt level + (1 + 2 * levels)) = m / 4 ^ levels := by
  have hhalf : (2 * m + 1) / 2 = m := by omega
  rw [val_nth hlevel hm.le, Nat.pow_add, Nat.pow_add, Nat.pow_mul, Nat.mul_comm (2 ^ placeAt level),
    Nat.mul_div_mul_right _ _ (Nat.two_pow_pos _), Nat.pow_one, ← Nat.div_div_eq_div_mul, hhalf]

theorem ancestor_nth {above : Nat} (habove : above ≤ level) (hlevel : level ≤ maxLevel)
    (hm : m < population level) :
    (nth level m).ancestor above = nth above (m / 4 ^ (level - above)) := by
  have h30 : level ≤ 30 := hlevel
  have hplace : placeAt above + 1 = placeAt level + (1 + 2 * (level - above)) := by
    rw [placeAt_eq, placeAt_eq]
    omega
  rw [ancestor, Nat.pow_eq, Nat.pow_eq, hplace, val_nth_div hlevel hm, nth]

theorem face_nth (hlevel : level ≤ maxLevel) (hm : m < population level) :
    (nth level m).face = m / 4 ^ level := by
  have h30 : level ≤ 30 := hlevel
  have hplace : 61 = placeAt level + (1 + 2 * level) := by
    rw [placeAt_eq]
    omega
  rw [face, Nat.pow_eq, hplace, val_nth_div hlevel hm]

theorem div_lt_population {above : Nat} (habove : above ≤ level) (hm : m < population level) :
    m / 4 ^ (level - above) < population above := by
  have hpopulation := population_add above (level - above)
  rw [Nat.add_sub_cancel' habove] at hpopulation
  rwa [Nat.div_lt_iff_lt_mul (Nat.pow_pos (by decide)), ← hpopulation]

/-- A cell lies on the face of its ancestors. -/
theorem face_ancestor {above : Nat} (habove : above ≤ level) {id : CellId}
    (hvalid : id.isValid = true) (hlevel : id.level? = some level) :
    (id.ancestor above).face = id.face := by
  obtain ⟨hmax, m, hm, rfl⟩ := isValid_level?_iff.mp ⟨hvalid, hlevel⟩
  have hup := div_lt_population habove hm
  rw [ancestor_nth habove hmax hm, face_nth (habove.trans hmax) hup, face_nth hmax hm,
    Nat.div_div_eq_div_mul, ← Nat.pow_add, Nat.sub_add_cancel habove]

/-- The ancestor at a level is a cell of that level. -/
theorem ancestor_at_level {above : Nat} (habove : above ≤ level) {id : CellId}
    (hvalid : id.isValid = true) (hlevel : id.level? = some level) :
    (id.ancestor above).isValid = true ∧ (id.ancestor above).level? = some above := by
  obtain ⟨hmax, m, hm, rfl⟩ := isValid_level?_iff.mp ⟨hvalid, hlevel⟩
  rw [ancestor_nth habove hmax hm]
  exact isValid_level?_iff.mpr ⟨habove.trans hmax, _, div_lt_population habove hm, rfl⟩

/-- An ancestor of an ancestor is the ancestor at its level. -/
theorem ancestor_ancestor {above middle : Nat} (habove : above ≤ middle) (hmiddle : middle ≤ level)
    {id : CellId} (hvalid : id.isValid = true) (hlevel : id.level? = some level) :
    (id.ancestor middle).ancestor above = id.ancestor above := by
  obtain ⟨hmax, m, hm, rfl⟩ := isValid_level?_iff.mp ⟨hvalid, hlevel⟩
  have hlevels : level - middle + (middle - above) = level - above := by omega
  rw [ancestor_nth hmiddle hmax hm,
    ancestor_nth habove (hmiddle.trans hmax) (div_lt_population hmiddle hm),
    ancestor_nth (habove.trans hmiddle) hmax hm, Nat.div_div_eq_div_mul, ← Nat.pow_add, hlevels]

end Family

end Geospatial.CellId
