import Geospatial.Proofs.Cell.Cover
import Geospatial.Proofs.Geometry.Components
import Mathlib.Data.List.Sort

/-!
# Coverings are unions

The cells that are put in order are the only ascending list of them. So the covering of a geometry
is the union of the coverings of its components, and depends on nothing else of it.
-/

namespace Geospatial

open CellId

namespace Cover

variable {α Area : Type}

/-! ## Cells in order, each once -/

theorem mem_insertCell {cell c : CellId} {cells : List CellId} :
    c ∈ insertCell cell cells ↔ c = cell ∨ c ∈ cells := by
  induction cells with
  | nil => simp [insertCell]
  | cons first rest ih =>
      rw [insertCell]
      split
      · rw [List.mem_cons]
      · split
        · rename_i heq
          rw [ext_val heq, List.mem_cons, or_self_left]
        · rw [List.mem_cons, ih, List.mem_cons, or_left_comm]

theorem insertCell_ascends {cell : CellId} {cells : List CellId}
    (h : cells.Pairwise fun a b => a.val < b.val) :
    (insertCell cell cells).Pairwise fun a b => a.val < b.val := by
  induction cells with
  | nil => exact List.pairwise_singleton _ _
  | cons first rest ih =>
      obtain ⟨hfirst, hrest⟩ := List.pairwise_cons.mp h
      rw [insertCell]
      split
      · rename_i hlt
        refine List.pairwise_cons.mpr ⟨fun c hc => ?_, h⟩
        rcases List.mem_cons.mp hc with rfl | hc
        · exact hlt
        · exact hlt.trans (hfirst c hc)
      · rename_i hnot
        split
        · exact h
        · rename_i hne
          refine List.pairwise_cons.mpr ⟨fun c hc => ?_, ih hrest⟩
          rcases mem_insertCell.mp hc with rfl | hc
          · omega
          · exact hfirst c hc

@[simp] theorem mem_sortDistinct {cell : CellId} {cells : List CellId} :
    cell ∈ sortDistinct cells ↔ cell ∈ cells := by
  induction cells with
  | nil => rfl
  | cons first rest ih =>
      have hcons : sortDistinct (first :: rest) = insertCell first (sortDistinct rest) := rfl
      rw [hcons, mem_insertCell, ih, List.mem_cons]

theorem sortDistinct_ascends (cells : List CellId) :
    (sortDistinct cells).Pairwise fun a b => a.val < b.val := by
  induction cells with
  | nil => exact List.Pairwise.nil
  | cons first rest ih => exact insertCell_ascends ih

/-- An ascending list is determined by the cells in it. -/
theorem eq_of_ascending {cells others : List CellId}
    (hcells : cells.Pairwise fun a b => a.val < b.val)
    (hothers : others.Pairwise fun a b => a.val < b.val)
    (h : ∀ cell, cell ∈ cells ↔ cell ∈ others) : cells = others := by
  have hirrefl : Std.Irrefl fun a b : CellId => a.val < b.val := ⟨fun a => lt_irrefl a.val⟩
  have hantisymm : Std.Antisymm fun a b : CellId => a.val < b.val :=
    ⟨fun a b hab hba => absurd hba hab.asymm⟩
  exact hcells.eq_of_mem_iff hothers h

end Cover

/-! ## The cells of a component -/

/-- Every position of a geometry lies in a cell of the finest level. -/
def Atlas.Charts {α Area : Type} (atlas : Atlas α Area) (g : Geometry α) : Prop :=
  ∀ p ∈ g.positions, ∃ leaf, atlas.leaf p = .ok leaf

theorem Atlas.Charts.component {α Area : Type} {atlas : Atlas α Area} {g c : Geometry α}
    (h : atlas.Charts g) (hc : c ∈ g.components) : atlas.Charts c :=
  fun p hp => h p (Geometry.positions_subset hc hp)

namespace Cover

variable {α Area : Type} {atlas : Atlas α Area} {g : Geometry α}

/-- A cell is one of a component: it holds a position of it, or the search finds it. -/
def CellOf (atlas : Atlas α Area) (level : Level) (component : Geometry α) (cell : CellId) : Prop :=
  (∃ p ∈ component.positions, ∃ leaf, atlas.leaf p = .ok leaf ∧ leaf.ancestor level = cell) ∨
    (isPoint component = false ∧ cell ∈ (sieve atlas component).search level)

theorem exists_vertexCells (h : atlas.Charts g) (level : Level) :
    ∃ cells, vertexCells atlas level g = .ok cells ∧ ∀ cell, cell ∈ cells ↔
      ∃ p ∈ g.positions, ∃ leaf, atlas.leaf p = .ok leaf ∧ leaf.ancestor level = cell := by
  have hcell : Nonempty CellId := ⟨ofFace 0⟩
  choose! leafOf hleaf using h
  refine ⟨g.positions.map fun p => (leafOf p).ancestor level, mapM_ok fun p hp => ?_,
    fun cell => ?_⟩
  · rw [hleaf p hp]
    rfl
  · rw [List.mem_map]
    refine exists_congr fun p => and_congr_right fun hp => ?_
    rw [hleaf p hp]
    simp

theorem exists_componentCells (h : atlas.Charts g) (level : Level) :
    ∃ cells, componentCells atlas level g = .ok cells ∧
      ∀ cell, cell ∈ cells ↔ CellOf atlas level g cell := by
  obtain ⟨vertices, hvertices, hmem⟩ := exists_vertexCells h level
  unfold componentCells
  rw [hvertices]
  cases hpoint : isPoint g with
  | true =>
      refine ⟨vertices, rfl, fun cell => ?_⟩
      simp [CellOf, hpoint, hmem]
  | false =>
      refine ⟨vertices ++ (sieve atlas g).search level, rfl, fun cell => ?_⟩
      simp [CellOf, hpoint, hmem]

/-! ## The covering of a geometry -/

theorem cover_of_components {level : Level} {cellsOf : Geometry α → List CellId}
    (hknown : g.isUnknown = false)
    (h : ∀ c ∈ g.components, componentCells atlas level c = .ok (cellsOf c)) :
    cover atlas g level = .ok (sortDistinct (g.components.flatMap cellsOf)) := by
  unfold cover
  rw [Geometry.readable_eq hknown]
  simp only [bind, Except.bind, mapM_ok h]
  rfl

/-- The covering of a geometry holds the cells of its components, in order. -/
theorem exists_cover (hknown : g.isUnknown = false) (h : atlas.Charts g) (level : Level) :
    ∃ cells, cover atlas g level = .ok cells ∧ (cells.Pairwise fun a b => a.val < b.val) ∧
      ∀ cell, cell ∈ cells ↔ ∃ c ∈ g.components, CellOf atlas level c cell := by
  have hcells : ∀ c ∈ g.components, ∃ cells, componentCells atlas level c = .ok cells ∧
      ∀ cell, cell ∈ cells ↔ CellOf atlas level c cell :=
    fun c hc => exists_componentCells (h.component hc) level
  choose! cellsOf hcells hmem using hcells
  refine ⟨_, cover_of_components hknown hcells, sortDistinct_ascends _, fun cell => ?_⟩
  rw [mem_sortDistinct, List.mem_flatMap]
  exact exists_congr fun c => and_congr_right fun hc => hmem c hc cell

theorem exists_cover_component {c : Geometry α} (hc : c ∈ g.components) (h : atlas.Charts g)
    (level : Level) :
    ∃ cells, cover atlas c level = .ok cells ∧
      ∀ cell, cell ∈ cells ↔ CellOf atlas level c cell := by
  have hsingle := Geometry.isComponent_of_mem hc
  obtain ⟨cells, hcover, -, hmem⟩ := exists_cover hsingle.isUnknown_eq (h.component hc) level
  refine ⟨cells, hcover, fun cell => ?_⟩
  rw [hmem, hsingle.components_eq]
  simp

structure Merged (cells : List CellId) (parts : List (List CellId)) : Prop where
  ascending : cells.Pairwise fun a b => a.val < b.val
  members : ∀ cell, cell ∈ cells ↔ ∃ part ∈ parts, cell ∈ part

/-- How the covering of a geometry comes from coverings of parts of it. -/
structure Unites (atlas : Atlas α Area) (g : Geometry α) (level : Level) : Prop where
  /-- It is merged from the coverings of the components. -/
  merged : ∃ cells parts, cover atlas g level = .ok cells ∧
    (g.components.mapM fun c => cover atlas c level) = .ok parts ∧ Merged cells parts
  /-- The covering of a component has the cells at its positions and, unless the component is a
  point, those that its search finds. -/
  single : ∀ c ∈ g.components, ∃ cells, cover atlas c level = .ok cells ∧
    ∀ cell, cell ∈ cells ↔ CellOf atlas level c cell
  /-- Geometries with the same components have the same covering. -/
  regrouped : ∀ h : Geometry α, h.isUnknown = false → (∀ c, c ∈ h.components ↔ c ∈ g.components) →
    cover atlas h level = cover atlas g level
  /-- The covering of a collection of two geometries is merged from theirs. -/
  joined : ∀ h : Geometry α, h.isUnknown = false → atlas.Charts h →
    ∃ cells others both, cover atlas g level = .ok cells ∧ cover atlas h level = .ok others ∧
      cover atlas (.collection [g, h]) level = .ok both ∧ Merged both [cells, others]

theorem cover_merged (hknown : g.isUnknown = false) (h : atlas.Charts g) (level : Level) :
    ∃ cells parts, cover atlas g level = .ok cells ∧
      (g.components.mapM fun c => cover atlas c level) = .ok parts ∧ Merged cells parts := by
  have hparts : ∀ c ∈ g.components, ∃ cells, cover atlas c level = .ok cells ∧
      ∀ cell, cell ∈ cells ↔ CellOf atlas level c cell :=
    fun c hc => exists_cover_component hc h level
  choose! partOf hparts hmem using hparts
  obtain ⟨cells, hcover, hascending, hcells⟩ := exists_cover hknown h level
  refine ⟨cells, g.components.map partOf, hcover, mapM_ok hparts, hascending, fun cell => ?_⟩
  rw [hcells]
  constructor
  · rintro ⟨c, hc, hcell⟩
    exact ⟨partOf c, List.mem_map_of_mem hc, (hmem c hc cell).mpr hcell⟩
  · rintro ⟨part, hpart, hcell⟩
    obtain ⟨c, hc, rfl⟩ := List.mem_map.mp hpart
    exact ⟨c, hc, (hmem c hc cell).mp hcell⟩

theorem cover_regrouped {h : Geometry α} (hknown : g.isUnknown = false)
    (hknown' : h.isUnknown = false) (hcharts : atlas.Charts g)
    (hsame : ∀ c, c ∈ h.components ↔ c ∈ g.components) (level : Level) :
    cover atlas h level = cover atlas g level := by
  have hcells : ∀ c ∈ g.components, ∃ cells, componentCells atlas level c = .ok cells ∧
      ∀ cell, cell ∈ cells ↔ CellOf atlas level c cell :=
    fun c hc => exists_componentCells (hcharts.component hc) level
  choose! cellsOf hcells hmem using hcells
  have hcells' : ∀ c ∈ h.components, componentCells atlas level c = .ok (cellsOf c) :=
    fun c hc => hcells c ((hsame c).mp hc)
  rw [cover_of_components hknown hcells, cover_of_components hknown' hcells']
  refine congrArg Except.ok (eq_of_ascending (sortDistinct_ascends _) (sortDistinct_ascends _) ?_)
  intro cell
  simp only [mem_sortDistinct, List.mem_flatMap, hsame]

theorem charts_pair {h : Geometry α} (hg : atlas.Charts g) (hh : atlas.Charts h) :
    atlas.Charts (.collection [g, h]) := by
  intro p hp
  have hpair : p ∈ g.positions ∨ p ∈ h.positions := by simpa using hp
  rcases hpair with hp | hp
  · exact hg p hp
  · exact hh p hp

/-- The covering of a geometry is the union of the coverings of its components. -/
theorem cover_unites (atlas : Atlas α Area) (g : Geometry α) (level : Level)
    (hknown : g.isUnknown = false) (hcharts : atlas.Charts g) : Unites atlas g level where
  merged := cover_merged hknown hcharts level
  single _ hc := exists_cover_component hc hcharts level
  regrouped _ hknown' hsame := cover_regrouped hknown hknown' hcharts hsame level
  joined h hknown' hcharts' := by
    obtain ⟨cells, hcells, -, hmem⟩ := exists_cover hknown hcharts level
    obtain ⟨others, hothers, -, hmem'⟩ := exists_cover hknown' hcharts' level
    obtain ⟨both, hboth, hascending, hunion⟩ :=
      exists_cover (g := .collection [g, h]) rfl (charts_pair hcharts hcharts') level
    refine ⟨cells, others, both, hcells, hothers, hboth, hascending, fun cell => ?_⟩
    rw [hunion]
    simp [hmem, hmem', or_and_right, exists_or]

/-! ## Around a meeting of the prime meridian and the equator -/

open Classical in
/-- Face boxes, and at every position a cell of the first face in the quarter on its side of the
equator and of the prime meridian. -/
noncomputable def quarterAtlas : Atlas ℝ (Set (ℝ × ℝ)) :=
  { faceAtlas with
    leaf := fun p =>
      let quarter := if p.x < 0 then (if p.y < 0 then 0 else 1) else (if p.y < 0 then 3 else 2)
      .ok (nth maxLevel (quarter * 4 ^ 29)) }

theorem quarterAtlas_charts (g : Geometry ℝ) : quarterAtlas.Charts g := fun _ _ => ⟨_, rfl⟩

noncomputable def equatorial : Geometry ℝ :=
  .collection [.multiPoint [some ⟨0, 0, none⟩, some ⟨10, 0, none⟩],
    .collection [.lineString [], .lineString [⟨-10, 0, none⟩, ⟨10, 0, none⟩], .point none]]

theorem cover_unites_equatorial :
    equatorial.isUnknown = false ∧ quarterAtlas.Charts equatorial ∧
      Unites quarterAtlas equatorial 1 :=
  ⟨rfl, quarterAtlas_charts _, cover_unites quarterAtlas equatorial 1 rfl (quarterAtlas_charts _)⟩

end Cover

end Geospatial
