import Geospatial.Cell.Search
import Geospatial.Proofs.Cell.Numbering

/-!
# What a search finds

The descendants of a cell stand in a row. A search that comes to a cell keeps those of its
descendants at the level that pass the sieve, if all cells between do, in the order of the row. The
descendants of the cells on the stack follow one another, so that a search finds the cells of the
level in order, each once.
-/

namespace Geospatial

open CellId

namespace Sieve

variable (sieve : Sieve)

/-- Whether a cell at the level is kept and its ancestors from a level on are reached. -/
def passes (above level : Nat) (cell : CellId) : Bool :=
  sieve.keeps cell &&
    (List.range' above (level - above)).all fun j => sieve.reaches (cell.ancestor j)

theorem passes_self (level : Nat) (cell : CellId) :
    sieve.passes level level cell = sieve.keeps cell := by
  simp [passes]

theorem passes_succ {above level : Nat} (h : above < level) (cell : CellId) :
    sieve.passes above level cell =
      (sieve.reaches (cell.ancestor above) && sieve.passes (above + 1) level cell) := by
  have hcount : level - above = level - (above + 1) + 1 := by omega
  rw [passes, passes, hcount, List.range'_succ, List.all_cons, Bool.and_left_comm]

theorem passes_iff {level : Nat} {cell : CellId} :
    sieve.passes 0 level cell = true ↔
      sieve.keeps cell = true ∧ ∀ j < level, sieve.reaches (cell.ancestor j) = true := by
  simp [passes]

def descendants (depth level first count : Nat) : List CellId :=
  (List.range' (first * 4 ^ depth) (count * 4 ^ depth)).map (nth level)

theorem descendants_succ (depth level first count : Nat) :
    descendants depth level first (count + 1) =
      descendants depth level first 1 ++ descendants depth level (first + 1) count := by
  have hstart : (first + 1) * 4 ^ depth = first * 4 ^ depth + 1 * 4 ^ depth := by ring
  have hlength : (count + 1) * 4 ^ depth = 1 * 4 ^ depth + count * 4 ^ depth := by ring
  rw [descendants, descendants, descendants, hstart, hlength, ← List.map_append,
    List.range'_append_1]

theorem descendants_children (depth level m : Nat) :
    descendants depth level (4 * m) 4 = descendants (depth + 1) level m 1 := by
  have hstart : 4 * m * 4 ^ depth = m * 4 ^ (depth + 1) := by ring
  have hlength : 4 * 4 ^ depth = 1 * 4 ^ (depth + 1) := by ring
  rw [descendants, descendants, hstart, hlength]

theorem ancestor_descendant {above depth m : Nat} {cell : CellId}
    (hlevel : above + depth ≤ maxLevel) (hm : m < population above)
    (h : cell ∈ descendants depth (above + depth) m 1) : cell.ancestor above = nth above m := by
  obtain ⟨i, hi, rfl⟩ := List.mem_map.mp h
  obtain ⟨hlo, hhi⟩ := List.mem_range'_1.mp hi
  rw [Nat.one_mul, ← Nat.succ_mul] at hhi
  have hpopulation : i < population (above + depth) := by
    rw [population_add]
    exact hhi.trans_le (Nat.mul_le_mul_right _ hm)
  have hdiv : i / 4 ^ (above + depth - above) = m := by
    rw [Nat.add_sub_cancel_left]
    exact Nat.div_eq_of_lt_le hlo hhi
  rw [ancestor_nth (Nat.le_add_right _ _) hlevel hpopulation, hdiv]

/-- If a visit of each single cell finds what passes of its descendants, so does a visit of some in
a row. -/
theorem visit_row {above depth : Nat} (hone : ∀ m < population above, ∀ stack,
      sieve.visit (⟨depth, nth above m⟩ :: stack) =
        (descendants depth (above + depth) m 1).filter (sieve.passes above (above + depth)) ++
          sieve.visit stack)
    {first count : Nat} (hbound : first + count ≤ population above) (stack : List Pending) :
    sieve.visit ((List.range' first count).map (fun m => ⟨depth, nth above m⟩) ++ stack) =
      (descendants depth (above + depth) first count).filter
          (sieve.passes above (above + depth)) ++ sieve.visit stack := by
  induction count generalizing first with
  | zero => simp [descendants]
  | succ count ih =>
      rw [List.range'_succ, List.map_cons, List.cons_append, hone first (by omega), ih (by omega),
        descendants_succ depth (above + depth) first count, List.filter_append, List.append_assoc]

theorem visit_nth {above depth m : Nat} (hlevel : above + depth ≤ maxLevel)
    (hm : m < population above) (stack : List Pending) :
    sieve.visit (⟨depth, nth above m⟩ :: stack) =
      (descendants depth (above + depth) m 1).filter (sieve.passes above (above + depth)) ++
        sieve.visit stack := by
  induction depth generalizing above m stack with
  | zero =>
      have hself : descendants 0 (above + 0) m 1 = [nth above m] := by simp [descendants]
      rw [visit, hself]
      by_cases hkeeps : sieve.keeps (nth above m) = true
      · rw [if_pos hkeeps, List.filter_cons_of_pos (by rw [Nat.add_zero, passes_self, hkeeps])]
        rfl
      · rw [if_neg hkeeps, List.filter_cons_of_neg (by rwa [Nat.add_zero, passes_self])]
        rfl
  | succ depth ih =>
      have habove : above < above + (depth + 1) := by omega
      have hshift : above + (depth + 1) = above + 1 + depth := by omega
      have hpasses : ∀ cell ∈ descendants (depth + 1) (above + (depth + 1)) m 1,
          sieve.passes above (above + (depth + 1)) cell =
            (sieve.reaches (nth above m) &&
              sieve.passes (above + 1) (above + (depth + 1)) cell) := by
        intro cell hcell
        rw [passes_succ sieve habove, ancestor_descendant hlevel hm hcell]
      rw [visit, List.filter_congr hpasses]
      by_cases hreaches : sieve.reaches (nth above m) = true
      · have hrow := visit_row sieve (fun n hn rest => ih (by omega) hn rest)
          (children_le_population hm) stack
        rw [if_pos hreaches, children_nth (by omega) hm, List.map_map]
        simp only [hreaches, Bool.true_and, Function.comp_def]
        rw [hrow, hshift, descendants_children]
      · rw [if_neg hreaches]
        simp [hreaches]

/-- A search finds the cells of the level that pass, in order. -/
theorem search_eq {level : Nat} (hlevel : level ≤ maxLevel) :
    sieve.search level = (row level).filter (sieve.passes 0 level) := by
  have hlevel' : 0 + level ≤ maxLevel := by omega
  have hfaces : 0 + 6 ≤ population 0 := by decide
  have hrow := visit_row sieve (fun m hm stack => visit_nth sieve hlevel' hm stack) hfaces []
  have hall : descendants level (0 + level) 0 6 = row level := by
    rw [descendants, row, population, Nat.zero_mul, Nat.zero_add, List.range_eq_range']
  rw [hall, visit, List.append_nil, List.append_nil, Nat.zero_add] at hrow
  rw [search, List.range_eq_range']
  exact hrow

theorem search_ascends {level : Nat} (hlevel : level ≤ maxLevel) :
    (sieve.search level).Pairwise fun a b => a.val < b.val := by
  rw [search_eq sieve hlevel]
  exact (row_ascends hlevel).filter _

theorem mem_search_iff {level : Nat} (hlevel : level ≤ maxLevel) {cell : CellId} :
    cell ∈ sieve.search level ↔
      (cell.isValid = true ∧ cell.level? = some level) ∧ sieve.keeps cell = true ∧
        ∀ j < level, sieve.reaches (cell.ancestor j) = true := by
  rw [search_eq sieve hlevel, List.mem_filter, mem_row_iff hlevel, passes_iff]

end Sieve

end Geospatial
