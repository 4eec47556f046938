import Geospatial.Proofs.Cell.Search
import Mathlib.Logic.Function.Iterate

/-!
# A search turn by turn

A search can be told as a loop over a stack of cells. Every turn takes the first cell off the stack;
the cell itself tells whether it is at the level. If it is and is kept, it is put out; if it is
above the level and reached, its children take its place. The loop ends with an empty stack, and has
then put out what the search finds.
-/

namespace Geospatial

open CellId

/-- A search under way: the cells still to visit, the next one first, and those put out so far. -/
structure Searching where
  stack : List CellId
  found : List CellId

namespace Sieve

variable (sieve : Sieve)

/-- One turn of the loop. The loop over the children of a cell is cut off after `cap` turns. -/
def turn (level cap : Nat) : Searching → Searching
  | ⟨[], found⟩ => ⟨[], found⟩
  | ⟨cell :: stack, found⟩ =>
    if cell.level? = some level then
      if sieve.keeps cell then ⟨stack, found ++ [cell]⟩ else ⟨stack, found⟩
    else if sieve.reaches cell then
      ⟨cellsUpTo cell.childEnd cap cell.childBegin ++ stack, found⟩
    else ⟨stack, found⟩

def Stands (level : Nat) (p : Pending) : Prop :=
  ∃ above m, p.cell = nth above m ∧ above + p.depth = level ∧ m < population above

section Turn

variable {level cap : Nat} {cell : CellId} {stack found : List CellId}

theorem turn_of_kept (hlevel : cell.level? = some level) (hkeeps : sieve.keeps cell = true) :
    sieve.turn level cap ⟨cell :: stack, found⟩ = ⟨stack, found ++ [cell]⟩ := by
  rw [turn, if_pos hlevel, if_pos hkeeps]

theorem turn_of_left (hlevel : cell.level? = some level) (hkeeps : ¬sieve.keeps cell = true) :
    sieve.turn level cap ⟨cell :: stack, found⟩ = ⟨stack, found⟩ := by
  rw [turn, if_pos hlevel, if_neg hkeeps]

theorem turn_of_divided (hlevel : cell.level? ≠ some level)
    (hreaches : sieve.reaches cell = true) :
    sieve.turn level cap ⟨cell :: stack, found⟩ =
      ⟨cellsUpTo cell.childEnd cap cell.childBegin ++ stack, found⟩ := by
  rw [turn, if_neg hlevel, if_pos hreaches]

theorem turn_of_pruned (hlevel : cell.level? ≠ some level)
    (hreaches : ¬sieve.reaches cell = true) :
    sieve.turn level cap ⟨cell :: stack, found⟩ = ⟨stack, found⟩ := by
  rw [turn, if_neg hlevel, if_neg hreaches]

end Turn

section Standing

variable {level depth : Nat} {cell : CellId}

theorem Stands.level?_zero (hmax : level ≤ maxLevel) (h : Stands level ⟨0, cell⟩) :
    cell.level? = some level := by
  obtain ⟨above, m, hcell, hdepth, hm⟩ := h
  obtain rfl : cell = nth above m := hcell
  obtain rfl : above = level := hdepth
  exact level?_nth hmax hm.le

theorem Stands.level?_succ (hmax : level ≤ maxLevel) (h : Stands level ⟨depth + 1, cell⟩) :
    cell.level? ≠ some level := by
  obtain ⟨above, m, hcell, hdepth, hm⟩ := h
  obtain rfl : cell = nth above m := hcell
  have habove : above + (depth + 1) = level := hdepth
  rw [level?_nth (by omega) hm.le]
  intro heq
  have := Option.some.inj heq
  omega

/-- The loop over the children ends by itself, and their children stand one level below. -/
theorem Stands.children (hmax : level ≤ maxLevel) (h : Stands level ⟨depth + 1, cell⟩) {cap : Nat}
    (hcap : 4 ≤ cap) :
    cellsUpTo cell.childEnd cap cell.childBegin = cell.children ∧
      ∀ child ∈ cell.children, Stands level ⟨depth, child⟩ := by
  obtain ⟨above, m, hcell, hdepth, hm⟩ := h
  obtain rfl : cell = nth above m := hcell
  have habove : above + (depth + 1) = level := hdepth
  have hbelow : above < maxLevel := by omega
  obtain ⟨more, rfl⟩ := Nat.exists_eq_add_of_le hcap
  rw [children_nth hbelow hm]
  refine ⟨cellsUpTo_children hbelow hm more, fun child hchild => ?_⟩
  obtain ⟨n, hn, rfl⟩ := List.mem_map.mp hchild
  obtain ⟨-, hhi⟩ := List.mem_range'_1.mp hn
  refine ⟨above + 1, n, rfl, ?_, ?_⟩
  · change above + 1 + depth = level
    omega
  · rw [population_succ]
    omega

theorem stands_ofFace {face : Nat} (h : face < 6) : Stands level ⟨level, ofFace face⟩ :=
  ⟨0, face, rfl, Nat.zero_add level, h⟩

end Standing

open Pending in
/-- From a stack of cells that stand, the loop comes to an end within as many turns as the stack can
cause visits, and puts out what a visit finds. -/
theorem turns_visit {level cap : Nat} (hmax : level ≤ maxLevel) (hcap : 4 ≤ cap)
    (stack : List Pending) (hstack : ∀ p ∈ stack, Stands level p) (found : List CellId) :
    ∃ turns ≤ totalVisits stack,
      (sieve.turn level cap)^[turns] ⟨stack.map Pending.cell, found⟩ =
        ⟨[], found ++ sieve.visit stack⟩ := by
  fun_induction Sieve.visit sieve stack generalizing found with
  | case1 => exact ⟨0, Nat.zero_le _, by simp⟩
  | case2 cell stack hkeeps ih =>
      obtain ⟨hcell, hrest⟩ := List.forall_mem_cons.mp hstack
      obtain ⟨turns, hturns, hend⟩ := ih hrest (found ++ [cell])
      refine ⟨turns + 1, hturns.trans_lt (totalVisits_lt_cons 0 cell stack), ?_⟩
      rw [Function.iterate_succ_apply, List.map_cons,
        turn_of_kept sieve (hcell.level?_zero hmax) hkeeps, hend, List.append_assoc]
      rfl
  | case3 cell stack hkeeps ih =>
      obtain ⟨hcell, hrest⟩ := List.forall_mem_cons.mp hstack
      obtain ⟨turns, hturns, hend⟩ := ih hrest found
      refine ⟨turns + 1, hturns.trans_lt (totalVisits_lt_cons 0 cell stack), ?_⟩
      rw [Function.iterate_succ_apply, List.map_cons,
        turn_of_left sieve (hcell.level?_zero hmax) hkeeps, hend]
  | case4 depth cell stack hreaches ih =>
      obtain ⟨hcell, hrest⟩ := List.forall_mem_cons.mp hstack
      obtain ⟨hloop, hchildren⟩ := hcell.children hmax hcap
      have hall : ∀ p ∈ cell.children.map (fun child => ⟨depth, child⟩) ++ stack,
          Stands level p := by
        intro p hp
        rcases List.mem_append.mp hp with hp | hp
        · obtain ⟨child, hchild, rfl⟩ := List.mem_map.mp hp
          exact hchildren child hchild
        · exact hrest p hp
      obtain ⟨turns, hturns, hend⟩ := ih hall found
      refine ⟨turns + 1, hturns.trans_lt (totalVisits_children_lt depth cell stack), ?_⟩
      rw [Function.iterate_succ_apply, List.map_cons,
        turn_of_divided sieve (hcell.level?_succ hmax) hreaches, hloop, ← hend,
        List.map_append, List.map_map]
      simp [Function.comp_def]
  | case5 depth cell stack hreaches ih =>
      obtain ⟨hcell, hrest⟩ := List.forall_mem_cons.mp hstack
      obtain ⟨turns, hturns, hend⟩ := ih hrest found
      refine ⟨turns + 1, hturns.trans_lt (totalVisits_lt_cons (depth + 1) cell stack), ?_⟩
      rw [Function.iterate_succ_apply, List.map_cons,
        turn_of_pruned sieve (hcell.level?_succ hmax) hreaches, hend]

/-- The loop from the six faces ends, with what the search finds. -/
theorem turns_search {level cap : Nat} (hmax : level ≤ maxLevel) (hcap : 4 ≤ cap) :
    ∃ turns ≤ 6 * Pending.visits level,
      (sieve.turn level cap)^[turns] ⟨(List.range 6).map ofFace, []⟩ =
        ⟨[], sieve.search level⟩ := by
  have hfaces : ∀ p ∈ ((List.range 6).map ofFace).map (Pending.mk level), Stands level p := by
    intro p hp
    obtain ⟨cell, hcell, rfl⟩ := List.mem_map.mp hp
    obtain ⟨face, hface, rfl⟩ := List.mem_map.mp hcell
    exact stands_ofFace (List.mem_range.mp hface)
  obtain ⟨turns, hturns, hend⟩ := turns_visit sieve hmax hcap _ hfaces []
  have hcells : (((List.range 6).map ofFace).map (Pending.mk level)).map Pending.cell =
      (List.range 6).map ofFace := rfl
  have hsearch : sieve.visit (((List.range 6).map ofFace).map (Pending.mk level)) =
      sieve.search level := rfl
  rw [hcells, hsearch, List.nil_append] at hend
  rw [Pending.totalVisits_same_depth level, List.length_map, List.length_range] at hturns
  exact ⟨turns, hturns, hend⟩

end Sieve

end Geospatial
