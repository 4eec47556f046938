import Geospatial.Proofs.Cell.Level

/-!
# Coarser coverings of points

The covering of points has the ancestors of the cells at their positions, and nothing else: no cell
is searched for. An ancestor of an ancestor is an ancestor, so that the covering at a coarser level
has the ancestors of the cells of the finer one, in order and each once. It has no more cells than
that one, and no covering has more cells than there are points.
-/

namespace Geospatial

/-! ## Points -/

namespace Geometry

variable {α : Type} {g : Geometry α}

inductive Puntal : Geometry α → Prop
  | point (p : Option (Position α)) : Puntal (.point p)
  | multiPoint (points : List (Option (Position α))) : Puntal (.multiPoint points)
  | collection {parts : List (Geometry α)} :
      (∀ part ∈ parts, Puntal part) → Puntal (.collection parts)

/-- A geometry of the family of points consists of points. -/
theorem puntal_of_family (h : g.family = .ok .puntal) : g.Puntal := by
  induction g using induction_on_parts with
  | other g hg =>
      cases g with
      | collection parts => exact absurd rfl (hg parts)
      | point p => exact .point p
      | multiPoint points => exact .multiPoint points
      | _ => cases h
  | parts parts ih =>
      obtain ⟨fs, hfs, hshared⟩ := families_of_collection h
      refine .collection fun part hpart => ih part hpart ?_
      obtain ⟨f, hf, hfamily⟩ := exists_result_of_mem hfs hpart
      rw [hfamily, Family.eq_shared hf (by rw [hshared]; decide), hshared]

theorem Puntal.isUnknown_eq (h : g.Puntal) : g.isUnknown = false := by cases h <;> rfl

theorem Puntal.components_eq (h : g.Puntal) :
    g.components = g.positions.map fun p => .point (some p) := by
  induction h with
  | point p => cases p <;> rfl
  | multiPoint points => rfl
  | collection _ ih =>
      rw [components_collection, positions_collection, List.map_flatMap]
      exact List.flatMap_congr ih

end Geometry

namespace Cover

/-! ## Cells in order -/

section Order

variable {cells others : List CellId}

theorem sortDistinct_congr (h : ∀ cell, cell ∈ cells ↔ cell ∈ others) :
    sortDistinct cells = sortDistinct others :=
  eq_of_ascending (sortDistinct_ascends _) (sortDistinct_ascends _) (by simpa using h)

/-- Cells that get the same image count once, whether or not they were put in order before. -/
theorem sortDistinct_map (f : CellId → CellId) (cells : List CellId) :
    sortDistinct ((sortDistinct cells).map f) = sortDistinct (cells.map f) :=
  sortDistinct_congr (by simp)

theorem length_sortDistinct_le (h : cells ⊆ others) :
    (sortDistinct cells).length ≤ others.length := by
  have hnodup : (sortDistinct cells).Nodup := CellId.nodup_of_ascending (sortDistinct_ascends cells)
  have hsubset : sortDistinct cells ⊆ others := fun cell hcell => h (mem_sortDistinct.mp hcell)
  exact (hnodup.subperm hsubset).length_le

end Order

/-! ## Coverings of points -/

variable {α Area : Type} {atlas : Atlas α Area} {g : Geometry α} {coarse fine level : Level}

theorem componentCells_point (atlas : Atlas α Area) (level : Level) (p : Position α) :
    componentCells atlas level (.point (some p)) =
      (atlas.leaf p).map fun leaf => [leaf.ancestor level] := by
  unfold componentCells vertexCells
  rw [Geometry.positions, Option.toList_some, List.mapM_cons]
  cases atlas.leaf p <;> rfl

/-- Only the cells at the positions of points cover them. -/
theorem cover_of_puntal (hg : g.Puntal) (level : Level) :
    cover atlas g level = (g.positions.mapM atlas.leaf).map fun leaves =>
      sortDistinct (leaves.map (CellId.ancestor level)) := by
  have hcells : g.components.mapM (componentCells atlas level) =
      (g.positions.mapM atlas.leaf).map
        (List.map fun leaf => [leaf.ancestor level]) := by
    rw [hg.components_eq, List.mapM_map, ← mapM_map_result]
    exact mapM_congr fun p _ => componentCells_point atlas level p
  unfold cover
  rw [Geometry.readable_eq hg.isUnknown_eq]
  simp only [bind, Except.bind, hcells]
  cases g.positions.mapM atlas.leaf with
  | error e => rfl
  | ok leaves =>
      refine congrArg (fun cells => Except.ok (sortDistinct cells)) ?_
      rw [← List.flatMap_def, List.map_eq_flatMap]

/-- Taking ancestors coarsens a covering of points to that of the coarser level. -/
theorem cover_coarse (hsound : atlas.Sound) (hg : g.Puntal) (hle : coarse ≤ fine) :
    cover atlas g coarse = (cover atlas g fine).map fun cells =>
      sortDistinct (cells.map (CellId.ancestor coarse)) := by
  rw [cover_of_puntal hg, cover_of_puntal hg]
  cases hleaves : g.positions.mapM atlas.leaf with
  | error e => rfl
  | ok leaves =>
      have hup : ∀ leaf ∈ leaves,
          (leaf.ancestor fine).ancestor coarse = leaf.ancestor coarse := by
        intro leaf hleaf
        obtain ⟨p, -, hp⟩ := exists_item_of_mem hleaves hleaf
        obtain ⟨hvalid, hlevel⟩ := hsound.finest p leaf hp
        exact CellId.ancestor_ancestor hle (level_le fine) hvalid hlevel
      simp only [Except.map, sortDistinct_map, List.map_map]
      exact congrArg (fun cells => Except.ok (sortDistinct cells))
        (List.map_congr_left fun leaf hleaf => (hup leaf hleaf).symm)

/-- A covering of points has at most one cell for each point, repeated points not counted. -/
theorem length_cover_le (hg : g.Puntal) {cells : List CellId}
    (hcover : cover atlas g level = .ok cells) {points : List (Position α)}
    (hpoints : g.positions ⊆ points) : cells.length ≤ points.length := by
  rw [cover_of_puntal hg] at hcover
  cases hleaves : g.positions.mapM atlas.leaf with
  | error e =>
      rw [hleaves] at hcover
      cases hcover
  | ok leaves =>
      rw [hleaves] at hcover
      obtain rfl := Except.ok.inj hcover
      let cellAt (p : Position α) : Option CellId :=
        (atlas.leaf p).toOption.map (CellId.ancestor level)
      have hsubset : leaves.map (CellId.ancestor level) ⊆ points.filterMap cellAt := by
        intro cell hcell
        obtain ⟨leaf, hleaf, rfl⟩ := List.mem_map.mp hcell
        obtain ⟨p, hp, hat⟩ := exists_item_of_mem hleaves hleaf
        refine List.mem_filterMap.mpr ⟨p, hpoints hp, ?_⟩
        simp only [cellAt, hat]
        rfl
      exact (length_sortDistinct_le hsubset).trans (List.length_filterMap_le _ _)

structure CoarsenedTo (coarse : Level) (finer cells : List CellId) : Prop where
  ascending : cells.Pairwise fun a b => a.val < b.val
  members : ∀ cell, cell ∈ cells ↔ ∃ c ∈ finer, c.ancestor coarse = cell
  length_le : cells.length ≤ finer.length

theorem coarsenedTo_sortDistinct (coarse : Level) (finer : List CellId) :
    CoarsenedTo coarse finer (sortDistinct (finer.map (CellId.ancestor coarse))) where
  ascending := sortDistinct_ascends _
  members cell := by rw [mem_sortDistinct, List.mem_map]
  length_le := (length_sortDistinct_le (List.Subset.refl _)).trans_eq (List.length_map _)

/-- How the coverings of a geometry at two levels go together. -/
structure Coarsens (atlas : Atlas α Area) (g : Geometry α) (coarse fine : Level) : Prop where
  exists_cover : atlas.Charts g → ∃ finer, cover atlas g fine = .ok finer
  coarsened : ∀ finer, cover atlas g fine = .ok finer →
    ∃ cells, cover atlas g coarse = .ok cells ∧ CoarsenedTo coarse finer cells
  /-- What cannot be covered at one level cannot be covered at the other. -/
  failed : ∀ e, cover atlas g fine = .error e → cover atlas g coarse = .error e
  /-- There are no more cells than points, repeated ones not counted. -/
  length_le : ∀ cells, cover atlas g coarse = .ok cells →
    ∀ points, g.positions ⊆ points → cells.length ≤ points.length

/-- A covering of points at a level is coarsened to the coverings of all levels above. -/
theorem cover_coarsens (atlas : Atlas α Area) (hsound : atlas.Sound) (g : Geometry α)
    (hg : g.Puntal) {coarse fine : Level} (hle : coarse ≤ fine) :
    Coarsens atlas g coarse fine where
  exists_cover h := by
    obtain ⟨finer, hfiner, -⟩ := exists_cover hg.isUnknown_eq h fine
    exact ⟨finer, hfiner⟩
  coarsened finer hfiner := by
    refine ⟨_, ?_, coarsenedTo_sortDistinct coarse finer⟩
    rw [cover_coarse hsound hg hle, hfiner]
    rfl
  failed e he := by
    rw [cover_coarse hsound hg hle, he]
    rfl
  length_le _ hcells _ hpoints := length_cover_le hg hcells hpoints

/-! ## Points on both sides of the prime meridian -/

noncomputable def stations : Geometry ℝ :=
  .collection [.multiPoint [some ⟨-1, 0, none⟩, some ⟨1, 0, none⟩],
    .collection [.point none, .point (some ⟨-1, 0, none⟩), .collection [.multiPoint []]]]

/-- Two cells or fewer are coarsened from the first level to the faces. -/
theorem cover_coarsens_stations :
    quarterAtlas.Sound ∧ stations.Puntal ∧ (0 : Level) ≤ 1 ∧
      ∃ finer cells, cover quarterAtlas stations 1 = .ok finer ∧
        cover quarterAtlas stations 0 = .ok cells ∧ CoarsenedTo 0 finer cells ∧
        cells.length ≤ 2 := by
  have hpuntal : stations.Puntal := by
    refine .collection fun part hpart => ?_
    rcases List.mem_pair.mp hpart with rfl | rfl
    · exact .multiPoint _
    · exact Geometry.puntal_of_family rfl
  have hle : (0 : Level) ≤ 1 := by decide
  have hcoarsens := cover_coarsens quarterAtlas quarterAtlas_sound stations hpuntal hle
  obtain ⟨finer, hfiner⟩ := hcoarsens.exists_cover (quarterAtlas_charts _)
  obtain ⟨cells, hcells, hcoarsened⟩ := hcoarsens.coarsened finer hfiner
  refine ⟨quarterAtlas_sound, hpuntal, hle, finer, cells, hfiner, hcells, hcoarsened, ?_⟩
  refine hcoarsens.length_le cells hcells [⟨-1, 0, none⟩, ⟨1, 0, none⟩] fun p hp => ?_
  have hplace : p = ⟨-1, 0, none⟩ ∨ p = ⟨1, 0, none⟩ ∨ p = ⟨-1, 0, none⟩ := by
    simpa [stations, Geometry.positions, Geometry.positionsOfParts] using hp
  rcases hplace with rfl | rfl | rfl <;> simp

end Cover

end Geospatial
