import Geospatial.Proofs.Path.Locate
import Geospatial.Proofs.Path.Positions

/-!
# Cutting a path without its heights

Arc lengths, the places of points on segments and the comparisons of the walk read two coordinates
of every position, whatever the numbers. So a path without its heights is cut where the path is cut,
into the same pieces without their heights, and the heights of the points play no part.
-/

namespace Geospatial.Path

variable {α : Type}

/-- The walk compares arc lengths only. -/
theorem walk_map [Sub α] [Neg α] [OfNat α 0] [LT α] [LE α] [DecidableLT α] [DecidableLE α]
    (f : Position α → Position α) {g : Cut α → Cut α} (harc : ∀ cut, (g cut).arc = cut.arc)
    (hplace : ∀ cut, (g cut).place = f cut.place) (tolerance : α) (current : Path α)
    (rest : List (α × Position α)) (found : List (Cut α)) :
    walk tolerance (current.map f) (rest.map fun v => (v.1, f v.2)) (found.map g) =
      (walk tolerance current rest found).map (List.map f) := by
  fun_induction walk tolerance current rest found with
  | case1 current found => simp [walk]
  | case2 current arc p rest ih => simpa [walk] using ih
  | case3 current arc p rest cut later hbefore ih => simp [walk, harc, hplace, hbefore, ← ih]
  | case4 current arc p rest cut later hbefore hat ih => simp [walk, harc, hbefore, hat, ← ih]
  | case5 current arc p rest cut later hbefore hat ih => simp [walk, harc, hbefore, hat, ← ih]

/-! ## Places and lengths -/

theorem cutPosition_flat [Add α] [Sub α] [Mul α] (p a b : Position α) (t : α) :
    cutPosition p a.flat b.flat t = (cutPosition p a b t).flat := by
  -- ends without heights have none between them
  change p.flat = _
  unfold cutPosition
  split <;> rfl

section Lengths

variable [Add α] [Sub α] [Mul α] [Root α]

theorem distance_flat (p q : Position α) : distance p.flat q.flat = distance p q := rfl

theorem lengthsFrom_flat (sum : α) (path : Path α) :
    lengthsFrom sum (path.map Position.flat) = lengthsFrom sum path := by
  fun_induction lengthsFrom sum path with
  | case1 => rfl
  | case2 => rfl
  | case3 sum p q rest ih => simpa [lengthsFrom, distance_flat] using ih

theorem totalLength_flat [OfNat α 0] (path : Path α) :
    totalLength (path.map Position.flat) = totalLength path := by
  induction path with
  | nil => rfl
  | cons p rest ih =>
      cases rest with
      | nil => rfl
      | cons q rest => exact congrArg (distance p q + ·) ih

theorem hasLength_flat [OfNat α 0] [LT α] [DecidableLT α] (piece : Path α) :
    hasLength (piece.map Position.flat) = hasLength piece := by
  unfold hasLength
  rw [List.length_map, totalLength_flat]

theorem vertices_flat [OfNat α 0] (path : Path α) :
    vertices (path.map Position.flat) = (vertices path).map fun v => (v.1, v.2.flat) := by
  unfold vertices lengths
  rw [lengthsFrom_flat, List.zip_map_right]
  rfl

end Lengths

/-! ## Cuts -/

def Cut.flat (cut : Cut α) : Cut α := { cut with place := cut.place.flat }

theorem piecesAt_flat [Add α] [Sub α] [Mul α] [Neg α] [OfNat α 0] [LT α] [LE α] [DecidableLT α]
    [DecidableLE α] [Root α] (path : Path α) (found : List (Cut α)) (tolerance : α) :
    piecesAt (path.map Position.flat) (found.map Cut.flat) tolerance =
      (piecesAt path found tolerance).map (List.map Position.flat) := by
  unfold piecesAt
  rw [← vertices, ← vertices, vertices_flat]
  cases vertices path with
  | nil => rfl
  | cons v rest =>
      exact walk_map Position.flat (g := Cut.flat) (fun _ => rfl) (fun _ => rfl) tolerance [v.2]
        rest found

variable [Add α] [Sub α] [Mul α] [Div α] [Neg α] [OfNat α 0] [OfNat α 1] [LT α] [LE α]
  [DecidableLT α] [DecidableLE α] [BEq α] [Root α]

theorem locate_flat (p a b : Position α) (tolerance : α) :
    locate p a.flat b.flat tolerance = locate p a b tolerance := rfl

theorem locateOnPath_flat (p : Position α) (tolerance sum : α) (path : Path α) :
    locateOnPath p tolerance sum (path.map Position.flat) =
      (locateOnPath p tolerance sum path).map Cut.flat := by
  induction path generalizing sum with
  | nil => rfl
  | cons a rest ih =>
      cases rest with
      | nil => rfl
      | cons b rest =>
          simp only [List.map_cons, locateOnPath, locate_flat, distance_flat] at ih ⊢
          cases locate p a b tolerance with
          | none => exact ih _
          | some t => simp [Cut.flat, cutPosition_flat]

section Points

variable (path : Path α) (points : List (Position α)) (tolerance : α)

theorem located_flat :
    located (path.map Position.flat) points tolerance =
      (located path points tolerance).map Cut.flat := by
  simp only [located, locateOnPath_flat, List.map_filterMap]

theorem cuts_flat :
    cuts (path.map Position.flat) points tolerance =
      (cuts path points tolerance).map Cut.flat := by
  simp only [cuts, located_flat, Sorting.sort_map, lengths, lengthsFrom_flat]
  exact thin_map (fun cut => (rfl : cut.flat.arc = cut.arc)) _

/-- A path without its heights has its pieces, each without its heights. -/
theorem splitAt_flat :
    splitAt (path.map Position.flat) points tolerance =
      (splitAt path points tolerance).map (List.map Position.flat) := by
  by_cases hcuts : cuts path points tolerance = []
  · have hflat : cuts (path.map Position.flat) points tolerance = [] := by
      rw [cuts_flat, hcuts, List.map_nil]
    rw [splitAt_of_no_cuts _ _ _ hcuts, splitAt_of_no_cuts _ _ _ hflat, List.map_singleton]
  · have hflat : cuts (path.map Position.flat) points tolerance ≠ [] := by
      rw [cuts_flat]
      exact mt List.map_eq_nil_iff.mp hcuts
    rw [splitAt_of_cuts _ _ _ hcuts, splitAt_of_cuts _ _ _ hflat, cuts_flat, piecesAt_flat,
      List.filter_map]
    simp only [Function.comp_def, hasLength_flat]

theorem cuts_flat_points :
    cuts path (points.map Position.flat) tolerance = cuts path points tolerance := by
  have hlocated : located path (points.map Position.flat) tolerance =
      located path points tolerance := by
    unfold located
    rw [List.filterMap_map]
    exact List.filterMap_congr fun p _ => locateOnPath_congr tolerance 0 path ⟨rfl, rfl⟩
  simp only [cuts, hlocated]

/-- The heights of the points at which a path is cut play no part. -/
theorem splitAt_flat_points :
    splitAt path (points.map Position.flat) tolerance = splitAt path points tolerance :=
  splitAt_congr_cuts path _ tolerance (cuts_flat_points path points tolerance)

end Points

end Geospatial.Path
