import Geospatial.Proofs.Cell.Level
import Geospatial.Proofs.Geometry.PathSet

/-!
# Coverings grow with what they cover

A component is the set of its points: its positions, what lies between neighbours on its paths, and
what is inside an area. Where every component of a geometry lies in a component of another that is
not a point, the search for that one finds all cells of the first: those that the search for the
first finds, and those that hold its positions, whose shapes and boxes the larger component meets
there.
-/

namespace Geospatial

open CellId Cover

namespace Geometry

section Points

variable {α : Type} (place : Position α → ℝ × ℝ) (inside : Polygon α → Set (ℝ × ℝ))

/-- The points of a component. What is inside an area is given. -/
def pointSet : Geometry α → Set (ℝ × ℝ)
  | point p => {q | ∃ a ∈ p, q = place a}
  | lineString path => pathSet place path
  | linearRing path => pathSet place path
  | polygon p => (⋃ ring ∈ p.shell :: p.holes, pathSet place ring) ∪ inside p
  | _ => ∅

variable {place inside}

/-- A component has its positions among its points. -/
theorem IsComponent.place_mem {c : Geometry α} (hc : c.IsComponent) {p : Position α}
    (hp : p ∈ c.positions) : place p ∈ c.pointSet place inside := by
  cases hc with
  | point a =>
      obtain rfl := List.mem_singleton.mp hp
      exact ⟨_, rfl, rfl⟩
  | lineString hpath => exact place_mem_pathSet hp
  | linearRing hpath => exact place_mem_pathSet hp
  | @polygon area hshell =>
      have hring : ∃ ring ∈ area.shell :: area.holes, p ∈ ring := by
        rcases List.mem_append.mp hp with hp | hp
        · exact ⟨area.shell, List.mem_cons_self, hp⟩
        · obtain ⟨hole, hhole, hp⟩ := List.mem_flatten.mp hp
          exact ⟨hole, List.mem_cons_of_mem _ hhole, hp⟩
      obtain ⟨ring, hring, hp⟩ := hring
      exact Or.inl (Set.mem_iUnion₂.mpr ⟨ring, hring, place_mem_pathSet hp⟩)

/-- A component that is not an area lies in every convex set that holds its positions. -/
theorem IsComponent.pointSet_subset {c : Geometry α} (hc : c.IsComponent) {s : Set (ℝ × ℝ)}
    (hs : Convex ℝ s) (h : ∀ p ∈ c.positions, place p ∈ s) (harea : ∀ p, c ≠ .polygon p) :
    c.pointSet place inside ⊆ s := by
  cases hc with
  | point a =>
      rintro q ⟨p, hp, rfl⟩
      obtain rfl := Option.mem_some.mp hp
      exact h _ List.mem_cons_self
  | lineString hpath => exact pathSet_subset hs h
  | linearRing hpath => exact pathSet_subset hs h
  | polygon hshell => exact absurd rfl (harea _)

end Points

end Geometry

variable {α Area : Type}

/-- The shape of the cell of a level at a position holds the position, and so do the boxes of the
ancestors of that cell. -/
def Atlas.Locates (atlas : Atlas α Area) (place : Position α → ℝ × ℝ) (region : Area → Set (ℝ × ℝ))
    (level : Nat) (p : Position α) : Prop :=
  ∀ leaf, atlas.leaf p = .ok leaf → place p ∈ region (atlas.shape (leaf.ancestor level)) ∧
    ∀ j < level, ∃ area ∈ atlas.bounds ((leaf.ancestor level).ancestor j), place p ∈ region area

namespace Cover

section Larger

variable {atlas : Atlas α Area} {place : Position α → ℝ × ℝ} {inside : Polygon α → Set (ℝ × ℝ)}
  {region : Area → Set (ℝ × ℝ)} {level : Level} {c d : Geometry α} {cell : CellId}

/-- A search finds the cell at a point of its component. -/
theorem mem_search_of_mem (hsound : atlas.Sound)
    (hexact : atlas.Exact (Geometry.pointSet place inside) region) {p : Position α} {leaf : CellId}
    (hleaf : atlas.leaf p = .ok leaf) (hlocates : atlas.Locates place region level p)
    (hp : place p ∈ d.pointSet place inside) :
    leaf.ancestor level ∈ (sieve atlas d).search level := by
  obtain ⟨hshape, hboxes⟩ := hlocates leaf hleaf
  obtain ⟨hvalid, hlevel⟩ := hsound.finest p leaf hleaf
  refine (Sieve.mem_search_iff _ (level_le level)).mpr
    ⟨ancestor_at_level (level_le level) hvalid hlevel, ?_, fun j hj => ?_⟩
  · exact (keeps_iff hexact).mpr ⟨place p, hp, hshape⟩
  · obtain ⟨area, harea, hbox⟩ := hboxes j hj
    exact (reaches_iff hexact).mpr ⟨area, harea, place p, hp, hbox⟩

/-- A search finds what the search for a part of its component finds. -/
theorem search_mono (hexact : atlas.Exact (Geometry.pointSet place inside) region)
    (hsub : c.pointSet place inside ⊆ d.pointSet place inside)
    (h : cell ∈ (sieve atlas c).search level) : cell ∈ (sieve atlas d).search level := by
  obtain ⟨hcell, hkeeps, hreaches⟩ := (Sieve.mem_search_iff _ (level_le level)).mp h
  refine (Sieve.mem_search_iff _ (level_le level)).mpr ⟨hcell, ?_, fun j hj => ?_⟩
  · obtain ⟨q, hq, hshape⟩ := (keeps_iff hexact).mp hkeeps
    exact (keeps_iff hexact).mpr ⟨q, hsub hq, hshape⟩
  · obtain ⟨area, harea, q, hq, hbox⟩ := (reaches_iff hexact).mp (hreaches j hj)
    exact (reaches_iff hexact).mpr ⟨area, harea, q, hsub hq, hbox⟩

/-- The cells of a component are among those of a larger one that is not a point. -/
theorem CellOf.mono (hsound : atlas.Sound)
    (hexact : atlas.Exact (Geometry.pointSet place inside) region) (hc : c.IsComponent)
    (hlocates : ∀ p ∈ c.positions, atlas.Locates place region level p)
    (hpoint : isPoint d = false) (hsub : c.pointSet place inside ⊆ d.pointSet place inside)
    (h : CellOf atlas level c cell) : CellOf atlas level d cell := by
  refine Or.inr ⟨hpoint, ?_⟩
  rcases h with ⟨p, hp, leaf, hleaf, rfl⟩ | ⟨-, hfound⟩
  · exact mem_search_of_mem hsound hexact hleaf (hlocates p hp) (hsub (hc.place_mem hp))
  · exact search_mono hexact hsub hfound

end Larger

/-- A geometry whose components lie in components of another that are not points has no cell that
the other has not. -/
theorem cover_monotone (atlas : Atlas α Area) (place : Position α → ℝ × ℝ)
    (inside : Polygon α → Set (ℝ × ℝ)) (region : Area → Set (ℝ × ℝ)) (g e : Geometry α)
    (level : Level) (hsound : atlas.Sound)
    (hexact : atlas.Exact (Geometry.pointSet place inside) region)
    (hg : g.isUnknown = false) (he : e.isUnknown = false) (hgcharts : atlas.Charts g)
    (hecharts : atlas.Charts e)
    (hlocates : ∀ p ∈ g.positions, atlas.Locates place region level p)
    (hwithin : ∀ c ∈ g.components, ∃ d ∈ e.components, isPoint d = false ∧
      c.pointSet place inside ⊆ d.pointSet place inside) :
    ∃ cells others, cover atlas g level = .ok cells ∧ cover atlas e level = .ok others ∧
      cells ⊆ others := by
  obtain ⟨cells, hcells, -, hmem⟩ := exists_cover hg hgcharts level
  obtain ⟨others, hothers, -, hmem'⟩ := exists_cover he hecharts level
  refine ⟨cells, others, hcells, hothers, fun cell hcell => ?_⟩
  obtain ⟨c, hc, hcell⟩ := (hmem cell).mp hcell
  obtain ⟨d, hd, hpoint, hsub⟩ := hwithin c hc
  refine (hmem' cell).mpr ⟨d, hd, ?_⟩
  exact hcell.mono hsound hexact (Geometry.isComponent_of_mem hc)
    (fun p hp => hlocates p (Geometry.positions_subset hc hp)) hpoint hsub

/-! ## A square around a meeting of the prime meridian and the equator -/

def lngLat (p : Position ℝ) : ℝ × ℝ := (p.x, p.y)

def rectangle (p : Polygon ℝ) : Set (ℝ × ℝ) :=
  match p.shell with
  | a :: _ :: c :: _ => lngLatBox a.x c.x a.y c.y
  | _ => ∅

open Classical in
/-- The cells of `quarterAtlas`, met by the points of a component. -/
noncomputable def pointwiseAtlas : Atlas ℝ (Set (ℝ × ℝ)) :=
  { quarterAtlas with
    meets := fun component area =>
      decide (component.pointSet lngLat rectangle ∩ area).Nonempty }

theorem pointwiseAtlas_exact : pointwiseAtlas.Exact (Geometry.pointSet lngLat rectangle) id :=
  ⟨fun component area => by simp [pointwiseAtlas]⟩

theorem pointwiseAtlas_sound : pointwiseAtlas.Sound :=
  ⟨quarterAtlas_sound.flat, quarterAtlas_sound.finest⟩

theorem pointwiseAtlas_charts (g : Geometry ℝ) : pointwiseAtlas.Charts g := fun _ _ => ⟨_, rfl⟩

/-- The cells at positions all lie in the first face. -/
theorem pointwiseAtlas_locates {p : Position ℝ} (h : lngLat p ∈ lngLatBox (-45) 45 (-45) 45) :
    pointwiseAtlas.Locates lngLat id 1 p := by
  intro leaf hleaf
  obtain ⟨quarter, hquarter, rfl⟩ : ∃ quarter < 4, leaf = nth maxLevel (quarter * 4 ^ 29) := by
    cases hleaf
    refine ⟨_, ?_, rfl⟩
    split <;> split <;> decide
  have hface : ∀ q < 4, ((nth maxLevel (q * 4 ^ 29)).ancestor 1).face = 0 ∧
      ∀ j < 1, (((nth maxLevel (q * 4 ^ 29)).ancestor 1).ancestor j).face = 0 := by decide
  obtain ⟨hshape, hbounds⟩ := hface quarter hquarter
  constructor
  · refine Set.mem_iUnion₂.mpr ⟨_, ?_, h⟩
    rw [hshape]
    exact List.mem_cons_self
  · intro j hj
    refine ⟨_, ?_, h⟩
    change _ ∈ faceBoxes _
    rw [hbounds j hj]
    exact List.mem_cons_self

noncomputable def square : Geometry ℝ := .polygon ⟨frame, []⟩

theorem equatorial_components : equatorial.components =
    [.point (some ⟨0, 0, none⟩), .point (some ⟨10, 0, none⟩),
      .lineString [⟨-10, 0, none⟩, ⟨10, 0, none⟩]] := by
  simp [equatorial, Geometry.components, Geometry.componentsOfParts]

theorem equatorial_within : ∀ c ∈ equatorial.components, ∃ d ∈ square.components,
    isPoint d = false ∧ c.pointSet lngLat rectangle ⊆ d.pointSet lngLat rectangle := by
  have hconvex : Convex ℝ (lngLatBox (-20) 20 (-20) 20) := (convex_Icc _ _).prod (convex_Icc _ _)
  have hplace : ∀ c ∈ equatorial.components, ∀ p ∈ c.positions,
      lngLat p ∈ lngLatBox (-20) 20 (-20) 20 := by
    rw [equatorial_components]
    simp only [List.forall_mem_cons, Geometry.positions, lngLat, lngLatBox]
    norm_num
  have harea : ∀ c ∈ equatorial.components, ∀ p, c ≠ .polygon p := by
    simp [equatorial_components]
  intro c hc
  refine ⟨square, by simp [square, frame, Geometry.components, Polygon.isEmpty], rfl, ?_⟩
  exact ((Geometry.isComponent_of_mem hc).pointSet_subset hconvex (hplace c hc) (harea c hc)).trans
    fun q hq => Or.inr hq

theorem equatorial_locates : ∀ p ∈ equatorial.positions, pointwiseAtlas.Locates lngLat id 1 p := by
  intro p hp
  refine pointwiseAtlas_locates ?_
  have hmem : p = ⟨0, 0, none⟩ ∨ p = ⟨10, 0, none⟩ ∨ p = ⟨-10, 0, none⟩ ∨ p = ⟨10, 0, none⟩ := by
    simpa [equatorial, Geometry.positions, Geometry.positionsOfParts] using hp
  rcases hmem with rfl | rfl | rfl | rfl <;> simp [lngLat, lngLatBox] <;> norm_num

theorem cover_monotone_equatorial :
    pointwiseAtlas.Sound ∧ pointwiseAtlas.Exact (Geometry.pointSet lngLat rectangle) id ∧
      (∀ c ∈ equatorial.components, ∃ d ∈ square.components, isPoint d = false ∧
        c.pointSet lngLat rectangle ⊆ d.pointSet lngLat rectangle) ∧
      ∃ cells others, cover pointwiseAtlas equatorial 1 = .ok cells ∧
        cover pointwiseAtlas square 1 = .ok others ∧ cells ⊆ others :=
  ⟨pointwiseAtlas_sound, pointwiseAtlas_exact, equatorial_within,
    cover_monotone pointwiseAtlas lngLat rectangle id equatorial square 1 pointwiseAtlas_sound
      pointwiseAtlas_exact rfl rfl (pointwiseAtlas_charts _) (pointwiseAtlas_charts _)
      equatorial_locates equatorial_within⟩

end Cover

end Geospatial
