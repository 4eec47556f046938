import Geospatial.Cell.Cover
import Geospatial.Proofs.Cell.Turns
import Mathlib.Analysis.Convex.Segment
import Mathlib.Data.Real.Basic

/-!
# Pruning loses no cell

Components and areas are sets of points, and meet when they share one. If the boxes of every
ancestor of a cell hold the shape of the cell, a search for the cells of a component finds what
testing all cells of the level would find. Else it finds those of them whose ancestors all have a box
that meets the component.
-/

namespace Geospatial

open CellId Cover

variable {α Area P : Type}

namespace Atlas

/-- A component and an area meet when they share a point. -/
structure Exact (atlas : Atlas α Area) (body : Geometry α → Set P) (region : Area → Set P) :
    Prop where
  meets_iff : ∀ component area,
    atlas.meets component area = true ↔ (body component ∩ region area).Nonempty

/-- The shapes of the cells of a level lie in the boxes of each of their ancestors. -/
def Encloses (atlas : Atlas α Area) (region : Area → Set P) (level : Nat) : Prop :=
  ∀ cell : CellId, cell.isValid = true → cell.level? = some level → ∀ j < level,
    region (atlas.shape cell) ⊆ ⋃ area ∈ atlas.bounds (cell.ancestor j), region area

end Atlas

namespace Cover

/-- What the search for the cells of a component comes to. -/
structure Finds (atlas : Atlas α Area) (body : Geometry α → Set P) (region : Area → Set P)
    (component : Geometry α) (level : Level) : Prop where
  /-- The loop over a stack ends, with what the search finds. -/
  ends : ∀ cap, 4 ≤ cap → ∃ turns ≤ 6 * Pending.visits level,
    ((sieve atlas component).turn level cap)^[turns] ⟨(List.range 6).map ofFace, []⟩ =
      ⟨[], (sieve atlas component).search level⟩
  ascending : ((sieve atlas component).search level).Pairwise fun a b => a.val < b.val
  members : ∀ cell : CellId, cell ∈ (sieve atlas component).search level ↔
    (cell.isValid = true ∧ cell.level? = some level.val) ∧
      (body component ∩ region (atlas.shape cell)).Nonempty ∧
      ∀ j < level.val, ∃ area ∈ atlas.bounds (cell.ancestor j),
        (body component ∩ region area).Nonempty
  whole : atlas.Encloses region level → ∀ cell : CellId,
    cell ∈ (sieve atlas component).search level ↔
      (cell.isValid = true ∧ cell.level? = some level.val) ∧
        (body component ∩ region (atlas.shape cell)).Nonempty
  /-- Nothing is gained by testing all cells of the level. -/
  unpruned : atlas.Encloses region level →
    (sieve atlas component).search level =
      (row level).filter fun cell => atlas.meets component (atlas.shape cell)

section Sieve

variable {atlas : Atlas α Area} {body : Geometry α → Set P} {region : Area → Set P}

theorem keeps_iff (hexact : atlas.Exact body region) {component : Geometry α} {cell : CellId} :
    (sieve atlas component).keeps cell = true ↔
      (body component ∩ region (atlas.shape cell)).Nonempty :=
  hexact.meets_iff component (atlas.shape cell)

theorem reaches_iff (hexact : atlas.Exact body region) {component : Geometry α} {cell : CellId} :
    (sieve atlas component).reaches cell = true ↔
      ∃ area ∈ atlas.bounds cell, (body component ∩ region area).Nonempty := by
  simp only [sieve, List.any_eq_true, hexact.meets_iff]

/-- A component that meets the shape of a cell meets a box of each of its ancestors. -/
theorem reaches_of_keeps (hexact : atlas.Exact body region) {level : Nat}
    (hencloses : atlas.Encloses region level) {component : Geometry α} {cell : CellId}
    (hcell : cell.isValid = true ∧ cell.level? = some level)
    (hkeeps : (sieve atlas component).keeps cell = true) :
    ∀ j < level, (sieve atlas component).reaches (cell.ancestor j) = true := by
  intro j hj
  obtain ⟨p, hbody, hshape⟩ := (keeps_iff hexact).mp hkeeps
  have hmem := hencloses cell hcell.1 hcell.2 j hj hshape
  obtain ⟨area, harea, hp⟩ := Set.mem_iUnion₂.mp hmem
  exact (reaches_iff hexact).mpr ⟨area, harea, p, hbody, hp⟩

end Sieve

theorem level_le (level : Level) : level.val ≤ maxLevel := Nat.le_of_lt_succ level.isLt

/-- The search for the cells of a component ends with them, in ascending order. -/
theorem search_finds {atlas : Atlas α Area} {body : Geometry α → Set P} {region : Area → Set P}
    (hexact : atlas.Exact body region) (component : Geometry α) (level : Level) :
    Finds atlas body region component level := by
  have hmax := level_le level
  refine ⟨?ends, ?ascending, ?members, ?whole, ?unpruned⟩
  case ends =>
    intro cap hcap
    exact Sieve.turns_search (sieve atlas component) hmax hcap
  case ascending => exact Sieve.search_ascends _ hmax
  case members =>
    intro cell
    rw [Sieve.mem_search_iff _ hmax, keeps_iff hexact]
    simp only [reaches_iff hexact]
  case whole =>
    intro hencloses cell
    rw [Sieve.mem_search_iff _ hmax, ← keeps_iff hexact]
    constructor
    · rintro ⟨hcell, hkeeps, -⟩
      exact ⟨hcell, hkeeps⟩
    · rintro ⟨hcell, hkeeps⟩
      exact ⟨hcell, hkeeps, reaches_of_keeps hexact hencloses hcell hkeeps⟩
  case unpruned =>
    intro hencloses
    rw [Sieve.search_eq _ hmax]
    refine List.filter_congr fun cell hcell => ?_
    rw [Bool.eq_iff_iff, Sieve.passes_iff]
    constructor
    · exact And.left
    · intro hkeeps
      exact ⟨hkeeps, reaches_of_keeps hexact hencloses ((mem_row_iff hmax).mp hcell) hkeeps⟩

/-! ## Boxes around faces -/

def lngLatBox (west east south north : ℝ) : Set (ℝ × ℝ) := Set.Icc west east ×ˢ Set.Icc south north

/-- Boxes around the cell of a face; one face lies across the antimeridian. -/
def faceBoxes : Nat → List (Set (ℝ × ℝ))
  | 0 => [lngLatBox (-45) 45 (-45) 45]
  | 1 => [lngLatBox 45 135 (-45) 45]
  | 2 => [lngLatBox (-180) 180 35 90]
  | 3 => [lngLatBox 135 180 (-45) 45, lngLatBox (-180) (-135) (-45) 45]
  | 4 => [lngLatBox (-135) (-45) (-45) 45]
  | _ => [lngLatBox (-180) 180 (-90) (-35)]

def pointsOf : Geometry ℝ → Set (ℝ × ℝ)
  | .lineString path =>
    {p | ∃ a b : Position ℝ, [a, b] <:+: path ∧ p ∈ segment ℝ (a.x, a.y) (b.x, b.y)}
  | g => {p | ∃ a ∈ g.positions, p = (a.x, a.y)}

open Classical in
/-- An atlas that takes every cell for the boxes around its face. -/
noncomputable def faceAtlas : Atlas ℝ (Set (ℝ × ℝ)) where
  leaf _ := .error .noCell
  shape cell := ⋃ area ∈ faceBoxes cell.face, area
  bounds cell := faceBoxes cell.face
  meets component area := decide (pointsOf component ∩ area).Nonempty

theorem faceAtlas_exact : faceAtlas.Exact pointsOf id :=
  ⟨fun component area => by simp [faceAtlas]⟩

theorem faceAtlas_encloses (level : Nat) : faceAtlas.Encloses id level := by
  intro cell hvalid hlevel j hj p hp
  simpa only [faceAtlas, face_ancestor hj.le hvalid hlevel, id_eq] using hp

/-- A line along the equator, and the cells of the first level. -/
theorem search_finds_equator :
    faceAtlas.Exact pointsOf id ∧ faceAtlas.Encloses id 1 ∧
    Finds faceAtlas pointsOf id (.lineString [⟨-10, 0, none⟩, ⟨10, 0, none⟩]) 1 ∧
    nth 1 2 ∈ (sieve faceAtlas (.lineString [⟨-10, 0, none⟩, ⟨10, 0, none⟩])).search 1 := by
  have hfinds := search_finds faceAtlas_exact (.lineString [⟨-10, 0, none⟩, ⟨10, 0, none⟩]) 1
  refine ⟨faceAtlas_exact, faceAtlas_encloses 1, hfinds, ?_⟩
  refine (hfinds.whole (faceAtlas_encloses 1) (nth 1 2)).mpr ⟨by decide, (10, 0), ?_, ?_⟩
  · exact ⟨⟨-10, 0, none⟩, ⟨10, 0, none⟩, List.infix_rfl, right_mem_segment ℝ _ _⟩
  · have hface : (nth 1 2).face = 0 := by decide
    simp only [faceAtlas, hface, faceBoxes, lngLatBox]
    norm_num

end Cover

end Geospatial
