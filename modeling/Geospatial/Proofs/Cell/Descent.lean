import Geospatial.Proofs.Cell.Numbering
import Mathlib.Logic.Function.Iterate

/-!
# Descending through cells

The loop over the children of a cell counts up from the first child and is at the end that it is
given after four of them; no identifier on the way wraps around. The leaves below a cell are a run
of identifiers, and the children divide that run into four, one after the other. So dividing the
cells of the six faces level by level gives the cells of every level, each once.
-/

namespace Geospatial.CellId

/-! ## Leaves below a cell -/

def firstLeaf (id : CellId) : Nat := id.val - (id.lowBit - 1)

def lastLeaf (id : CellId) : Nat := id.val + (id.lowBit - 1)

def Spans (id leaf : CellId) : Prop := id.firstLeaf ≤ leaf.val ∧ leaf.val ≤ id.lastLeaf

section Leaves

variable {level m n : Nat}

theorem firstLeaf_nth (hlevel : level ≤ maxLevel) (hm : m ≤ population level) :
    (nth level m).firstLeaf = m * (2 * 2 ^ placeAt level) + 1 := by
  have hpos : 0 < 2 ^ placeAt level := Nat.two_pow_pos _
  have hval : (2 * m + 1) * 2 ^ placeAt level =
      m * (2 * 2 ^ placeAt level) + 2 ^ placeAt level := by ring
  rw [firstLeaf, val_nth hlevel hm, lowBit_nth hlevel hm, hval]
  omega

theorem lastLeaf_nth (hlevel : level ≤ maxLevel) (hm : m ≤ population level) :
    (nth level m).lastLeaf + 1 = (m + 1) * (2 * 2 ^ placeAt level) := by
  have hpos : 0 < 2 ^ placeAt level := Nat.two_pow_pos _
  have hval : (2 * m + 1) * 2 ^ placeAt level + 2 ^ placeAt level =
      (m + 1) * (2 * 2 ^ placeAt level) := by ring
  rw [lastLeaf, val_nth hlevel hm, lowBit_nth hlevel hm]
  omega

/-- The leaves below a cell come right after those below the cell before it. -/
theorem firstLeaf_succ (hlevel : level ≤ maxLevel) (hm : m + 1 ≤ population level) :
    (nth level (m + 1)).firstLeaf = (nth level m).lastLeaf + 2 := by
  rw [firstLeaf_nth hlevel hm, ← lastLeaf_nth hlevel (Nat.le_of_succ_le hm)]

theorem lastLeaf_lt_firstLeaf (hlevel : level ≤ maxLevel) (hmn : m < n)
    (hn : n ≤ population level) : (nth level m).lastLeaf < (nth level n).firstLeaf := by
  have hlast := lastLeaf_nth hlevel (hmn.le.trans hn)
  have hstep : (m + 1) * (2 * 2 ^ placeAt level) ≤ n * (2 * 2 ^ placeAt level) :=
    Nat.mul_le_mul_right _ hmn
  rw [firstLeaf_nth hlevel hn]
  omega

/-- A leaf lies among those below a cell when its number leads to that of the cell. -/
theorem spans_nth_iff (hlevel : level ≤ maxLevel) (hm : m < population level)
    (hn : n < population maxLevel) :
    (nth level m).Spans (nth maxLevel n) ↔ n / 4 ^ (maxLevel - level) = m := by
  have hleaf : (nth maxLevel n).val = 2 * n + 1 := by
    rw [val_nth le_rfl hn.le]
    exact Nat.mul_one _
  have hpos : 0 < 4 ^ (maxLevel - level) := Nat.pow_pos (by decide)
  have hwidth : 2 ^ placeAt level = 4 ^ (maxLevel - level) := by rw [placeAt, Nat.pow_mul]
  have hfirst : (nth level m).firstLeaf = 2 * (m * 4 ^ (maxLevel - level)) + 1 := by
    rw [firstLeaf_nth hlevel hm.le, hwidth]
    ring
  have hlast : (nth level m).lastLeaf + 1 =
      2 * (m * 4 ^ (maxLevel - level) + 4 ^ (maxLevel - level)) := by
    rw [lastLeaf_nth hlevel hm.le, hwidth]
    ring
  rw [Nat.div_eq_iff hpos, Spans, hleaf, hfirst]
  omega

end Leaves

/-! ## The loop over the children -/

/-- How the loop over the children of a cell divides it. -/
structure Divides (level : Nat) (id : CellId) : Prop where
  /-- The loop is at its end after four turns and not before. -/
  stops : next^[4] id.childBegin = id.childEnd ∧
    ∀ turns < 4, next^[turns] id.childBegin ≠ id.childEnd
  /-- It ends by itself, wherever it would be cut off, with what it went through. -/
  loop : ∀ cap, 4 ≤ cap → cellsUpTo id.childEnd cap id.childBegin = id.children
  children_eq : id.children = (List.range 4).map fun turns => next^[turns] id.childBegin
  below : ∀ child ∈ id.children, child.isValid = true ∧ child.level? = some (level + 1)
  ascending : id.children.Pairwise fun a b => a.val < b.val
  /-- No sum wraps around. -/
  begin_exact : id.lowBit ≤ id.val ∧ id.childBegin.val = id.val - id.lowBit + id.lowBit / 4
  end_exact : id.childEnd.val = id.val + id.lowBit + id.lowBit / 4
  next_exact : ∀ child ∈ id.children, child.next.val = child.val + 2 * child.lowBit
  /-- The runs of leaves below the children follow one another, from the first leaf below the cell
  to the last one. -/
  first : id.children.head?.map firstLeaf = some id.firstLeaf
  last : id.children.getLast?.map lastLeaf = some id.lastLeaf
  adjacent : id.children.IsChain fun a b => b.firstLeaf = a.lastLeaf + 2
  apart : id.children.Pairwise fun a b => a.lastLeaf < b.firstLeaf
  leaves : ∀ leaf : CellId, leaf.isValid = true → leaf.level? = some maxLevel →
    (id.Spans leaf ↔ ∃ child ∈ id.children, child.Spans leaf)

section Children

variable {level m : Nat}

theorem iterate_next_nth (hlevel : level ≤ maxLevel) {steps : Nat}
    (hm : m + steps ≤ population level) : next^[steps] (nth level m) = nth level (m + steps) := by
  induction steps with
  | zero => rfl
  | succ steps ih =>
      rw [Function.iterate_succ_apply', ih (by omega), next_nth hlevel (by omega), Nat.add_assoc]

/-- Each turn of the loop is at the next child, the last one at the end. -/
theorem turns_nth (hlevel : level < maxLevel) (hm : m < population level) {turns : Nat}
    (hturns : turns ≤ 4) :
    next^[turns] (nth level m).childBegin = nth (level + 1) (4 * m + turns) := by
  have hbound := children_le_population hm
  rw [childBegin_nth hlevel hm, iterate_next_nth hlevel]
  exact le_trans (Nat.add_le_add_left hturns _) hbound

theorem children_eq_turns (hlevel : level < maxLevel) (hm : m < population level) :
    (nth level m).children =
      (List.range 4).map fun turns => next^[turns] (nth level m).childBegin := by
  rw [children_nth hlevel hm, List.range'_eq_map_range, List.map_map]
  refine List.map_congr_left fun turns hturns => ?_
  exact (turns_nth hlevel hm (List.mem_range.mp hturns).le).symm

theorem exists_child (hlevel : level < maxLevel) (hm : m < population level) {child : CellId}
    (h : child ∈ (nth level m).children) :
    ∃ n < population (level + 1), n / 4 = m ∧ child = nth (level + 1) n := by
  rw [children_nth hlevel hm] at h
  obtain ⟨n, hn, rfl⟩ := List.mem_map.mp h
  obtain ⟨hlo, hhi⟩ := List.mem_range'_1.mp hn
  have hbound := children_le_population hm
  exact ⟨n, by omega, by omega, rfl⟩

/-! ### Sums -/

theorem begin_nth_exact (hlevel : level < maxLevel) (hm : m < population level) :
    (nth level m).lowBit ≤ (nth level m).val ∧ (nth level m).childBegin.val =
      (nth level m).val - (nth level m).lowBit + (nth level m).lowBit / 4 := by
  have hbelow : level + 1 ≤ maxLevel := hlevel
  have hbound := children_le_population hm
  have hchild : (2 * (4 * m) + 1) * 2 ^ placeAt (level + 1) =
      8 * (m * 2 ^ placeAt (level + 1)) + 2 ^ placeAt (level + 1) := by ring
  have hcell : (2 * m + 1) * (4 * 2 ^ placeAt (level + 1)) =
      8 * (m * 2 ^ placeAt (level + 1)) + 4 * 2 ^ placeAt (level + 1) := by ring
  rw [childBegin_nth hlevel hm, val_nth hbelow (by omega),
    val_nth hlevel.le hm.le, lowBit_nth hlevel.le hm.le, two_pow_placeAt hlevel,
    Nat.mul_div_cancel_left _ (by decide), hchild, hcell]
  omega

theorem end_nth_exact (hlevel : level < maxLevel) (hm : m < population level) :
    (nth level m).childEnd.val =
      (nth level m).val + (nth level m).lowBit + (nth level m).lowBit / 4 := by
  rw [childEnd_nth hlevel hm, val_nth hlevel (children_le_population hm),
    val_nth hlevel.le hm.le, lowBit_nth hlevel.le hm.le, two_pow_placeAt hlevel,
    Nat.mul_div_cancel_left _ (by decide)]
  ring

theorem next_nth_exact (hlevel : level ≤ maxLevel) (hm : m < population level) :
    (nth level m).next.val = (nth level m).val + 2 * (nth level m).lowBit := by
  have hnext : m + 1 ≤ population level := hm
  rw [next_nth hlevel hm, val_nth hlevel hnext, val_nth hlevel hm.le, lowBit_nth hlevel hm.le]
  ring

/-! ### Children and leaves in order -/

theorem children_ascend (hlevel : level < maxLevel) (hm : m < population level) :
    (nth level m).children.Pairwise fun a b => a.val < b.val := by
  have hbelow : level + 1 ≤ maxLevel := hlevel
  have hbound := children_le_population hm
  rw [children_nth hlevel hm, List.pairwise_map]
  refine (List.pairwise_lt_range' 1).imp_of_mem fun ha hb hlt => ?_
  obtain ⟨-, ha⟩ := List.mem_range'_1.mp ha
  obtain ⟨-, hb⟩ := List.mem_range'_1.mp hb
  exact (nth_lt_nth hbelow (by omega) (by omega)).mpr hlt

theorem leaves_apart (hlevel : level < maxLevel) (hm : m < population level) :
    (nth level m).children.Pairwise fun a b => a.lastLeaf < b.firstLeaf := by
  have hbound := children_le_population hm
  rw [children_nth hlevel hm, List.pairwise_map]
  refine (List.pairwise_lt_range' 1).imp_of_mem fun _ hb hlt => ?_
  obtain ⟨-, hb⟩ := List.mem_range'_1.mp hb
  exact lastLeaf_lt_firstLeaf hlevel hlt (by omega)

theorem leaves_adjacent (hlevel : level < maxLevel) (hm : m < population level) :
    (nth level m).children.IsChain fun a b => b.firstLeaf = a.lastLeaf + 2 := by
  have hbound := children_le_population hm
  rw [children_nth hlevel hm, List.isChain_map]
  refine (List.isChain_range' (4 * m) 4 1).imp_of_mem_imp fun a b _ hb hstep => ?_
  obtain ⟨-, hb⟩ := List.mem_range'_1.mp hb
  rw [hstep]
  exact firstLeaf_succ hlevel (by omega)

theorem firstLeaf_children (hlevel : level < maxLevel) (hm : m < population level) :
    (nth level m).children.head?.map firstLeaf = some (nth level m).firstLeaf := by
  have hbelow : level + 1 ≤ maxLevel := hlevel
  have hbound := children_le_population hm
  have hfirst : (nth (level + 1) (4 * m)).firstLeaf = (nth level m).firstLeaf := by
    rw [firstLeaf_nth hbelow (by omega), firstLeaf_nth hlevel.le hm.le,
      two_pow_placeAt hlevel]
    ring
  rw [children_nth hlevel hm, ← hfirst]
  rfl

theorem lastLeaf_children (hlevel : level < maxLevel) (hm : m < population level) :
    (nth level m).children.getLast?.map lastLeaf = some (nth level m).lastLeaf := by
  have hbelow : level + 1 ≤ maxLevel := hlevel
  have hbound := children_le_population hm
  have hchild := lastLeaf_nth (m := 4 * m + 3) hbelow (by omega)
  have hcell := lastLeaf_nth hlevel.le hm.le
  have hwidth : (4 * m + 3 + 1) * (2 * 2 ^ placeAt (level + 1)) =
      (m + 1) * (2 * 2 ^ placeAt level) := by
    rw [two_pow_placeAt hlevel]
    ring
  have hlast : (nth (level + 1) (4 * m + 3)).lastLeaf = (nth level m).lastLeaf :=
    Nat.succ.inj (hchild.trans (hwidth.trans hcell.symm))
  rw [children_nth hlevel hm, ← hlast]
  rfl

/-- A leaf below a cell is below one of its children. -/
theorem spans_iff_child (hlevel : level < maxLevel) (hm : m < population level) {leaf : CellId}
    (hvalid : leaf.isValid = true) (hleaf : leaf.level? = some maxLevel) :
    (nth level m).Spans leaf ↔ ∃ child ∈ (nth level m).children, child.Spans leaf := by
  obtain ⟨-, n, hn, rfl⟩ := isValid_level?_iff.mp ⟨hvalid, hleaf⟩
  have hdepth : maxLevel - level = maxLevel - (level + 1) + 1 := by omega
  rw [spans_nth_iff hlevel.le hm hn, hdepth, Nat.pow_succ, ← Nat.div_div_eq_div_mul]
  constructor
  · intro hup
    have hbelow : level + 1 ≤ maxLevel := hlevel
    have hbound := children_le_population hm
    refine ⟨nth (level + 1) (n / 4 ^ (maxLevel - (level + 1))), ?_,
      (spans_nth_iff hbelow (by omega) hn).mpr rfl⟩
    rw [children_nth hlevel hm]
    exact List.mem_map_of_mem (List.mem_range'_1.mpr (by omega))
  · rintro ⟨child, hchild, hspans⟩
    obtain ⟨i, hi, hup, rfl⟩ := exists_child hlevel hm hchild
    rw [(spans_nth_iff hlevel hi hn).mp hspans, hup]

/-- The loop over the children of a cell above the finest level divides it. -/
theorem divides_nth (hlevel : level < maxLevel) (hm : m < population level) :
    Divides level (nth level m) where
  stops := by
    refine ⟨by rw [turns_nth hlevel hm le_rfl, childEnd_nth hlevel hm], fun turns hlt heq => ?_⟩
    have hbelow : level + 1 ≤ maxLevel := hlevel
    have hbound := children_le_population hm
    rw [turns_nth hlevel hm hlt.le, childEnd_nth hlevel hm] at heq
    have := nth_injective hbelow (by omega) hbound heq
    omega
  loop := by
    intro cap hcap
    obtain ⟨more, rfl⟩ := Nat.exists_eq_add_of_le hcap
    rw [cellsUpTo_children hlevel hm, children_nth hlevel hm]
  children_eq := children_eq_turns hlevel hm
  below := by
    intro child hchild
    obtain ⟨n, hn, -, rfl⟩ := exists_child hlevel hm hchild
    exact isValid_level?_iff.mpr ⟨hlevel, n, hn, rfl⟩
  ascending := children_ascend hlevel hm
  begin_exact := begin_nth_exact hlevel hm
  end_exact := end_nth_exact hlevel hm
  next_exact := by
    intro child hchild
    obtain ⟨n, hn, -, rfl⟩ := exists_child hlevel hm hchild
    exact next_nth_exact hlevel hn
  first := firstLeaf_children hlevel hm
  last := lastLeaf_children hlevel hm
  adjacent := leaves_adjacent hlevel hm
  apart := leaves_apart hlevel hm
  leaves _ := spans_iff_child hlevel hm

end Children

/-! ## Level by level from the faces -/

/-- The cells of the faces, divided as often as a level says. -/
def generation : Nat → List CellId
  | 0 => (List.range 6).map ofFace
  | level + 1 => (generation level).flatMap children

theorem flatMap_range_four (n : Nat) :
    ((List.range n).flatMap fun m => List.range' (4 * m) 4) = List.range (4 * n) := by
  induction n with
  | zero => rfl
  | succ n ih =>
      rw [List.range_succ, List.flatMap_append, ih, List.flatMap_singleton, List.range_eq_range',
        List.range_eq_range', Nat.mul_succ, ← List.range'_append_1, Nat.zero_add]

theorem flatMap_children_row {level : Nat} (hlevel : level < maxLevel) :
    (row level).flatMap children = row (level + 1) := by
  rw [row, row, population_succ, ← flatMap_range_four, List.flatMap_map, List.map_flatMap]
  exact List.flatMap_congr fun m hm => children_nth hlevel (List.mem_range.mp hm)

theorem generation_eq_row {level : Nat} (hlevel : level ≤ maxLevel) :
    generation level = row level := by
  induction level with
  | zero => rfl
  | succ level ih =>
      rw [generation, ih (Nat.le_of_succ_le hlevel), flatMap_children_row hlevel]

/-- Descending from the faces leads to the cells of a level, each once, and to nothing else. -/
theorem count_generation {level : Nat} (hlevel : level ≤ maxLevel) (id : CellId) :
    (generation level).count id =
      if id.isValid = true ∧ id.level? = some level then 1 else 0 := by
  rw [generation_eq_row hlevel]
  split
  · rename_i hcell
    have hnodup := nodup_of_ascending (row_ascends hlevel)
    exact List.count_eq_one_of_mem hnodup ((mem_row_iff hlevel).mpr hcell)
  · rename_i hcell
    exact List.count_eq_zero_of_not_mem fun hmem => hcell ((mem_row_iff hlevel).mp hmem)

/-- Every cell above the finest level is divided into four cells of the level below by a loop that
ends; so descending from the six faces leads to every cell of every level exactly once. -/
theorem descent_divides (id : CellId) :
    (∀ level < maxLevel, id.isValid = true → id.level? = some level → Divides level id) ∧
      (id.isValid = true → ∃ level ≤ maxLevel, id.level? = some level) ∧
      ∀ level ≤ maxLevel, (generation level).count id =
        if id.isValid = true ∧ id.level? = some level then 1 else 0 := by
  refine ⟨fun level hlevel hvalid hat => ?_, exists_level?_of_isValid, fun level hlevel =>
    count_generation hlevel id⟩
  obtain ⟨-, m, hm, rfl⟩ := isValid_level?_iff.mp ⟨hvalid, hat⟩
  exact divides_nth hlevel hm

/-- The last cell above the finest level, with the greatest identifiers that the loop comes to. -/
theorem descent_divides_last :
    (nth 29 (population 29 - 1)).isValid = true ∧
      (nth 29 (population 29 - 1)).level? = some 29 ∧
      Divides 29 (nth 29 (population 29 - 1)) ∧
      (generation 29).count (nth 29 (population 29 - 1)) = 1 := by
  have hcell : (nth 29 (population 29 - 1)).isValid = true ∧
      (nth 29 (population 29 - 1)).level? = some 29 :=
    isValid_level?_iff.mpr ⟨by decide, population 29 - 1, by decide, rfl⟩
  obtain ⟨hdivides, -, hcount⟩ := descent_divides (nth 29 (population 29 - 1))
  refine ⟨hcell.1, hcell.2, hdivides 29 (by decide) hcell.1 hcell.2, ?_⟩
  rw [hcount 29 (by decide), if_pos hcell]

end Geospatial.CellId
