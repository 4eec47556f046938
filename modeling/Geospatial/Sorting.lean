/-!
# Stable sorting

Parts and cuts are put in order by comparisons that need not be total: a key may hold a value that
compares with nothing. The order of the result is then the one this procedure gives. The longest
run at the front that already ascends is kept, or turned round if it descends strictly, and every
later item is inserted behind all items that bisection finds not to exceed it. From 64 items on the
sort that this follows merges runs: the result is the same where the comparison ranks the items, and
may be another one where a key compares with nothing. Short lists are also sorted by plain
insertion, where an item is compared with the first item and then from the last on.
-/

namespace Geospatial.Sorting

variable {α : Type}

/-- The items that continue a run whose last item is `last`, and the items after them. -/
def continueRun (continues : α → α → Bool) (last : α) : List α → List α × List α
  | [] => ([], [])
  | x :: rest =>
    if continues last x then
      let (run, after) := continueRun continues x rest
      (x :: run, after)
    else ([], x :: rest)

/-- The run at the front of a list in ascending order, and the items after it. -/
def leadingRun (lt : α → α → Bool) : List α → List α × List α
  | [] => ([], [])
  | [x] => ([x], [])
  | x :: y :: rest =>
    if lt y x then
      let (run, after) := continueRun (fun last next => lt next last) y rest
      ((x :: y :: run).reverse, after)
    else
      let (run, after) := continueRun (fun last next => !lt next last) y rest
      (x :: y :: run, after)

/-- The place for `item` between `low` and `high`, found by bisection. -/
def bisect (lt : α → α → Bool) (item : α) (sorted : Array α) (low high : Nat) : Nat :=
  if low < high then
    let middle := (low + high) / 2
    match sorted[middle]? with
    | some x =>
      if lt item x then bisect lt item sorted low middle
      else bisect lt item sorted (middle + 1) high
    | none => low
  else low
termination_by high - low

def insert (lt : α → α → Bool) (sorted : Array α) (item : α) : Array α :=
  let place := bisect lt item sorted 0 sorted.size
  sorted.extract 0 place ++ #[item] ++ sorted.extract place sorted.size

/-- A list in ascending order; items of which neither is below the other keep their order. -/
def sort (lt : α → α → Bool) (items : List α) : List α :=
  let (run, rest) := leadingRun lt items
  (rest.foldl (insert lt) run.toArray).toList

/-! ## Plain insertion -/

/-- Insert an item before the first item if it is below that, else behind the last item that it is
not below. -/
def insertPlain (lt : α → α → Bool) (sorted : List α) (item : α) : List α :=
  match sorted with
  | [] => [item]
  | first :: _ =>
    if lt item first then item :: sorted
    else
      let later := sorted.reverse.takeWhile (lt item)
      let earlier := sorted.reverse.dropWhile (lt item)
      earlier.reverse ++ item :: later.reverse

/-- A list put in ascending order by inserting its items one by one. -/
def sortPlain (lt : α → α → Bool) (items : List α) : List α := items.foldl (insertPlain lt) []

end Geospatial.Sorting
