import Geospatial.Proofs.Planar.Areas
import Geospatial.Proofs.Split.Outcome

/-!
# The faces of an area

The rings of an area and some lines have faces, none of which crosses a ring. So a face is inside or
outside of the area as a whole, and one inner point tells. The faces that are kept make up the area,
do not overlap, and measure together what the area measures.
-/

namespace Geospatial

open MeasureTheory Function

variable {Net : Type} {k : PlanarKernel ℝ Net} {p : Polygon ℝ} {lines : List (Path ℝ)} {net : Net}
  {faces : List (Polygon ℝ)}

/-- What the plane answers about an area and some lines is exact: the areas that it finds are the
faces of the rings and the lines, up to lines that end inside of a face, and each is found once; it
finds a position inside of each, and tells which positions are inside of the area. -/
structure PlanarKernel.Exact (k : PlanarKernel ℝ Net) (p : Polygon ℝ) (lines : List (Path ℝ))
    (net : Net) (faces : List (Polygon ℝ)) : Prop where
  nodes : k.net lines = .ok net
  finds : k.faces (.polygon p) net = .ok faces
  sound : ∀ f ∈ faces, ∃ face, IsFace (p.rings ++ lines) face ∧ f.region = closure face
  complete : ∀ face, IsFace (p.rings ++ lines) face → ∃ f ∈ faces, f.region = closure face
  once : faces.Pairwise fun f g => f.region ≠ g.region
  inner : ∀ f ∈ faces, (k.innerPoint f).place ∈ interior f.region
  holds : ∀ q, k.holds (.polygon p) q = true ↔ q.place ∈ interior p.region

def PlanarKernel.kept (k : PlanarKernel ℝ Net) (p : Polygon ℝ) (faces : List (Polygon ℝ)) :
    List (Polygon ℝ) :=
  faces.filter fun face => k.holds (.polygon p) (k.innerPoint face)

/-! ## Open sets that are apart -/

theorem disjoint_interior_closure {s t : Set (ℝ × ℝ)} (ht : IsOpen t) (h : Disjoint s t) :
    Disjoint (interior (closure s)) (closure t) :=
  ((h.closure_left ht).mono_left interior_subset).closure_right isOpen_interior

/-- A part of the plane that is inside or outside of an area is inside when an inner position of its
closure is. -/
theorem mem_interior_region_iff {s : Set (ℝ × ℝ)} {q : ℝ × ℝ}
    (hside : s ⊆ p.core ∨ Disjoint s p.core) (hq : q ∈ interior (closure s)) :
    q ∈ interior p.region ↔ s ⊆ p.core := by
  constructor
  · intro hmem
    refine hside.resolve_right fun hout => ?_
    have hapart := disjoint_interior_closure p.isOpen_core hout
    exact Set.disjoint_left.mp hapart hq (interior_subset hmem)
  · intro hin
    exact interior_mono (closure_mono hin) hq

/-! ## Faces that are kept -/

theorem IsFace.inside_or_outside {face : Set (ℝ × ℝ)} (h : IsFace (p.rings ++ lines) face) :
    face ⊆ p.core ∨ Disjoint face p.core := by
  refine Polygon.subset_core_or_disjoint h.isPreconnected ?_
  refine Set.disjoint_left.mpr fun q hq hring => ?_
  exact h.not_mem_drawn hq (drawn_subset (List.subset_append_left _ _) hring)

/-- Inside of an area every place off the lines is in a face that is inside of the area. -/
theorem exists_face {q : ℝ × ℝ} (hq : q ∈ p.core) (hoff : q ∉ drawn (p.rings ++ lines)) :
    ∃ face, IsFace (p.rings ++ lines) face ∧ face ⊆ p.core ∧ q ∈ face := by
  have hmem : q ∈ connectedComponentIn (drawn (p.rings ++ lines))ᶜ q :=
    mem_connectedComponentIn hoff
  have hinside : connectedComponentIn (drawn (p.rings ++ lines))ᶜ q ⊆ p.core := by
    refine (Polygon.subset_core_or_disjoint isPreconnected_connectedComponentIn ?_).resolve_right
      (Set.not_disjoint_iff.mpr ⟨q, hmem, hq⟩)
    refine Set.disjoint_left.mpr fun r hr hring => ?_
    exact connectedComponentIn_subset _ _ hr (drawn_subset (List.subset_append_left _ _) hring)
  exact ⟨_, ⟨q, hoff, rfl, p.isBounded_core.subset hinside⟩, hinside, hmem⟩

namespace PlanarKernel.Exact

theorem holds_iff (h : k.Exact p lines net faces) {f : Polygon ℝ} (hf : f ∈ faces)
    {face : Set (ℝ × ℝ)} (hface : IsFace (p.rings ++ lines) face)
    (hregion : f.region = closure face) :
    k.holds (.polygon p) (k.innerPoint f) = true ↔ face ⊆ p.core := by
  have hinner := h.inner f hf
  rw [hregion] at hinner
  rw [h.holds, mem_interior_region_iff hface.inside_or_outside hinner]

/-- Different areas that are found are faces that are apart. -/
theorem apart (h : k.Exact p lines net faces) {f g : Polygon ℝ} (hf : f ∈ faces) (hg : g ∈ faces)
    (hne : f.region ≠ g.region) :
    Disjoint (interior f.region) g.region ∧ volume (f.region ∩ g.region) = 0 := by
  obtain ⟨face, hface, hregion⟩ := h.sound f hf
  obtain ⟨other, hother, hregion'⟩ := h.sound g hg
  rw [hregion, hregion'] at hne ⊢
  have hdisjoint : Disjoint face other := by
    refine Set.disjoint_left.mpr fun q hq hq' => hne ?_
    rw [hface.eq_of_mem hother hq hq']
  refine ⟨disjoint_interior_closure hother.isOpen hdisjoint, ?_⟩
  refine measure_mono_null ?_ (volume_drawn (p.rings ++ lines))
  intro q hq
  have hout : q ∉ face := fun hin =>
    Set.disjoint_left.mp (hdisjoint.closure_right hface.isOpen) hin hq.2
  refine hface.frontier_subset ?_
  rw [hface.isOpen.frontier_eq]
  exact ⟨hq.1, hout⟩

end PlanarKernel.Exact

theorem sum_area (h : faces.Pairwise fun f g => volume (f.region ∩ g.region) = 0) :
    (faces.map Polygon.area).sum = volume (⋃ f ∈ faces, f.region) := by
  induction faces with
  | nil => simp
  | cons f rest ih =>
      obtain ⟨hfirst, hrest⟩ := List.pairwise_cons.mp h
      have hunion : ⋃ g ∈ f :: rest, g.region = f.region ∪ ⋃ g ∈ rest, g.region := by
        simp [Set.iUnion_or, Set.iUnion_union_distrib]
      have hclosed : IsClosed (⋃ g ∈ rest, g.region) :=
        rest.finite_toSet.isClosed_biUnion fun g _ => isClosed_closure
      have hnull : AEDisjoint volume f.region (⋃ g ∈ rest, g.region) := by
        rw [AEDisjoint, Set.inter_iUnion₂]
        exact (measure_biUnion_null_iff rest.finite_toSet.countable).mpr hfirst
      rw [List.map_cons, List.sum_cons, ih hrest, hunion,
        measure_union₀ hclosed.measurableSet.nullMeasurableSet hnull]
      rfl

/-! ## The tiling -/

/-- Of some faces those that are kept tile an area. -/
structure Tiles (p : Polygon ℝ) (faces kept : List (Polygon ℝ)) : Prop where
  sublist : kept.Sublist faces
  apart : kept.Pairwise fun f g => Disjoint (interior f.region) (interior g.region)
  within : ∀ f ∈ kept, f.region ⊆ p.region
  holes : ∀ f ∈ kept, ∀ hole ∈ p.holes, Disjoint f.region (enclosed hole)
  union : ⋃ f ∈ kept, f.region = p.region
  area : (kept.map Polygon.area).sum = p.area
  /-- No face inside of the area is lost. -/
  complete : ∀ f ∈ faces, f.region ⊆ p.region → f ∈ kept
  /-- No face that is dropped reaches into the area. -/
  dropped : ∀ f ∈ faces, f ∉ kept → Disjoint (interior f.region) p.region

namespace PlanarKernel.Exact

theorem facesInside_eq (h : k.Exact p lines net faces) :
    Split.facesInside k net (.polygon p) = .ok (k.kept p faces) := by
  unfold Split.facesInside
  rw [h.finds]
  rfl

theorem mem_kept_iff (h : k.Exact p lines net faces) {f : Polygon ℝ} :
    f ∈ k.kept p faces ↔ f ∈ faces ∧
      ∃ face, IsFace (p.rings ++ lines) face ∧ f.region = closure face ∧ face ⊆ p.core := by
  rw [PlanarKernel.kept, List.mem_filter]
  refine and_congr_right fun hf => ?_
  obtain ⟨face, hface, hregion⟩ := h.sound f hf
  constructor
  · intro hholds
    exact ⟨face, hface, hregion, (h.holds_iff hf hface hregion).mp hholds⟩
  · rintro ⟨other, hother, hregion', hin⟩
    exact (h.holds_iff hf hother hregion').mpr hin

theorem union_kept (h : k.Exact p lines net faces) :
    ⋃ f ∈ k.kept p faces, f.region = p.region := by
  refine Set.Subset.antisymm (Set.iUnion₂_subset fun f hf => ?_) ?_
  · obtain ⟨-, face, -, hregion, hin⟩ := h.mem_kept_iff.mp hf
    rw [hregion]
    exact closure_mono hin
  · have hclosed : IsClosed (⋃ f ∈ k.kept p faces, f.region) :=
      (k.kept p faces).finite_toSet.isClosed_biUnion fun _ _ => isClosed_closure
    have hdense : Dense (drawn (p.rings ++ lines))ᶜ :=
      interior_eq_empty_iff_dense_compl.mp (Measure.interior_eq_empty_of_null (volume_drawn _))
    have hoff : p.core ∩ (drawn (p.rings ++ lines))ᶜ ⊆ ⋃ f ∈ k.kept p faces, f.region := by
      rintro q ⟨hq, hoff⟩
      obtain ⟨face, hface, hin, hmem⟩ := exists_face hq hoff
      obtain ⟨f, hf, hregion⟩ := h.complete face hface
      refine Set.mem_biUnion (h.mem_kept_iff.mpr ⟨hf, face, hface, hregion, hin⟩) ?_
      rw [hregion]
      exact subset_closure hmem
    have hcore := hdense.open_subset_closure_inter p.isOpen_core
    exact closure_minimal (hcore.trans (closure_minimal hoff hclosed)) hclosed

theorem tiles (h : k.Exact p lines net faces) : Tiles p faces (k.kept p faces) := by
  have hsublist : (k.kept p faces).Sublist faces := List.filter_sublist
  have hapart := (h.once.sublist hsublist).imp_of_mem fun hf hg hne =>
    h.apart (hsublist.subset hf) (hsublist.subset hg) hne
  constructor
  case sublist => exact hsublist
  case apart => exact hapart.imp fun hfg => hfg.1.mono_right interior_subset
  case within =>
    intro f hf
    rw [← h.union_kept]
    exact Set.subset_biUnion_of_mem (u := Polygon.region) hf
  case holes =>
    intro f hf hole hhole
    obtain ⟨-, face, -, hregion, hin⟩ := h.mem_kept_iff.mp hf
    rw [hregion]
    have hface : Disjoint face (enclosed hole) :=
      (Polygon.disjoint_core_covered hhole).mono hin Set.subset_union_left
    exact hface.closure_left (isOpen_enclosed hole)
  case union => exact h.union_kept
  case area =>
    rw [sum_area (hapart.imp fun hfg => hfg.2), h.union_kept]
    rfl
  case complete =>
    intro f hf hwithin
    obtain ⟨face, hface, hregion⟩ := h.sound f hf
    refine h.mem_kept_iff.mpr ⟨hf, face, hface, hregion, ?_⟩
    refine hface.inside_or_outside.resolve_right fun hout => ?_
    obtain ⟨q, hq⟩ := hface.nonempty
    have hinner : q ∈ interior (closure face) := hface.isOpen.subset_interior_closure hq
    refine Set.disjoint_left.mp (disjoint_interior_closure p.isOpen_core hout) hinner ?_
    exact hwithin (hregion ▸ interior_subset hinner)
  case dropped =>
    intro f hf hdropped
    obtain ⟨face, hface, hregion⟩ := h.sound f hf
    have hout : Disjoint face p.core := hface.inside_or_outside.resolve_left fun hin =>
      hdropped (h.mem_kept_iff.mpr ⟨hf, face, hface, hregion, hin⟩)
    rw [hregion]
    exact disjoint_interior_closure p.isOpen_core hout

theorem nonempty (h : k.Exact p lines net faces) (f : Polygon ℝ) (hf : f ∈ faces) :
    f.isEmpty = false := by
  obtain ⟨face, hface, hregion⟩ := h.sound f hf
  by_contra hempty
  rw [Bool.not_eq_false] at hempty
  obtain ⟨q, hq⟩ := hface.nonempty
  have hmem : q ∈ f.region := hregion ▸ subset_closure hq
  rw [Polygon.region, f.core_of_isEmpty hempty, closure_empty] at hmem
  exact hmem

end PlanarKernel.Exact

namespace Split

/-- The faces that are kept of an area tile it; and they are what the area is split into by a blade
with those lines. -/
theorem polygon_tiled (h : k.Exact p lines net faces) :
    ∃ kept, facesInside k net (.polygon p) = .ok kept ∧ Tiles p faces kept ∧
      ∀ (blade : Geometry ℝ) (tolerance : Given ℝ) (b : Family), p.shell ≠ [] →
        0 ≤ tolerance.value → blade.family = .ok b → b = .lineal ∨ b = .polygonal → lines ≠ [] →
        blade.components.flatMap Blade.linesOf = lines →
          split k (.polygon p) blade tolerance = .ok (some (.multiPolygon kept)) := by
  refine ⟨k.kept p faces, h.facesInside_eq, h.tiles, ?_⟩
  intro blade tolerance b hshell htol hblade hb hlines hsame
  have hparts : Blade.ofGeometry k blade =
      .ok ⟨blade.components.flatMap Blade.pointOf, some net⟩ := by
    unfold Blade.ofGeometry
    rw [hsame]
    cases lines with
    | nil => exact absurd rfl hlines
    | cons path rest =>
        simp only [h.nodes]
        rfl
  have hcomponents : (Geometry.polygon p).components = [.polygon p] :=
    (Geometry.IsComponent.polygon hshell).components_eq
  have hfound : (Geometry.polygon p).components.mapM
      (areasOf k ⟨blade.components.flatMap Blade.pointOf, some net⟩) = .ok [k.kept p faces] := by
    rw [hcomponents, List.mapM_cons]
    simp only [areasOf, h.facesInside_eq]
    rfl
  have hfull : (k.kept p faces).filter (fun area => !area.isEmpty) = k.kept p faces := by
    refine List.filter_eq_self.mpr fun f hf => ?_
    rw [h.nonempty f (h.tiles.sublist.subset hf)]
    rfl
  rw [split_of_polygonal k blade (not_lt.mpr htol) rfl, polygons_eq k rfl hblade hb hparts, hfound]
  simp only [Except.map, List.flatten_singleton, hfull]

/-! ### A square with a hole, cut along the sides of the hole -/

noncomputable def holedSquare : Polygon ℝ :=
  ⟨frame 0 (3 : ℕ) 0 (3 : ℕ), [frame 1 (2 : ℕ) 1 (2 : ℕ)]⟩

noncomputable def sideLines : List (Path ℝ) :=
  [[⟨1, 0, none⟩, ⟨1, (3 : ℕ), none⟩], [⟨(2 : ℕ), 0, none⟩, ⟨(2 : ℕ), (3 : ℕ), none⟩],
    [⟨0, 1, none⟩, ⟨(3 : ℕ), 1, none⟩], [⟨0, (2 : ℕ), none⟩, ⟨(3 : ℕ), (2 : ℕ), none⟩]]

theorem exists_whole_iff {x y : ℝ} : (∃ n : ℕ, n ≤ 3 ∧ (x = n ∨ y = n)) ↔
    (x = 0 ∨ y = 0) ∨ (x = 1 ∨ y = 1) ∨ (x = 2 ∨ y = 2) ∨ (x = 3 ∨ y = 3) := by
  constructor
  · rintro ⟨n, hn, h⟩
    interval_cases n <;> norm_num at h <;> simp only [h, true_or, or_true]
  · rintro (h | h | h | h)
    · exact ⟨0, by norm_num, by exact_mod_cast h⟩
    · exact ⟨1, by norm_num, by exact_mod_cast h⟩
    · exact ⟨2, by norm_num, by exact_mod_cast h⟩
    · exact ⟨3, by norm_num, by exact_mod_cast h⟩

/-- On the rings and the lines are the places of the square with a whole coordinate. -/
theorem mem_sides_iff {q : ℝ × ℝ} : q ∈ drawn (holedSquare.rings ++ sideLines) ↔
    q ∈ Set.Icc 0 3 ×ˢ Set.Icc 0 3 ∧ ∃ n : ℕ, n ≤ 3 ∧ (q.1 = n ∨ q.2 = n) := by
  obtain ⟨x, y⟩ := q
  have h03 : (0 : ℝ) ≤ 3 := by norm_num
  have h12 : (1 : ℝ) ≤ 2 := by norm_num
  have hrings : holedSquare.rings =
      [frame 0 (3 : ℕ) 0 (3 : ℕ), frame 1 (2 : ℕ) 1 (2 : ℕ)] := rfl
  rw [hrings]
  simp only [sideLines, Nat.cast_ofNat, drawn, List.cons_append, List.nil_append, List.mem_cons,
    List.not_mem_nil, or_false, Set.iUnion_iUnion_eq_or_left, Set.iUnion_iUnion_eq_left,
    Set.mem_union, mem_frame_iff h03 h03, mem_frame_iff h12 h12, Geometry.pathSet_cons_cons,
    Geometry.pathSet_singleton, Position.place, segment_upright h03, segment_level h03,
    Set.mem_prod, Set.mem_Icc, Set.mem_singleton_iff, Prod.mk.injEq]
  rw [exists_whole_iff]
  constructor
  · rintro (⟨hq, h⟩ | ⟨⟨⟨hx, hx'⟩, hy, hy'⟩, h⟩ | h | h | h | h)
    · exact ⟨hq, by grind⟩
    · exact ⟨⟨⟨by linarith, by linarith⟩, by linarith, by linarith⟩, by grind⟩
    all_goals grind
  · rintro ⟨⟨hx, hy⟩, (h | h) | (h | h) | (h | h) | (h | h)⟩
    · exact Or.inl ⟨⟨hx, hy⟩, Or.inl h⟩
    · exact Or.inl ⟨⟨hx, hy⟩, Or.inr (Or.inr (Or.inl h))⟩
    · exact Or.inr (Or.inr (Or.inl (Or.inl ⟨h, hy⟩)))
    · exact Or.inr (Or.inr (Or.inr (Or.inr (Or.inl (Or.inl ⟨hx, h⟩)))))
    · exact Or.inr (Or.inr (Or.inr (Or.inl (Or.inl ⟨h, hy⟩))))
    · exact Or.inr (Or.inr (Or.inr (Or.inr (Or.inr (Or.inl ⟨hx, h⟩)))))
    · exact Or.inl ⟨⟨hx, hy⟩, Or.inr (Or.inl h)⟩
    · exact Or.inl ⟨⟨hx, hy⟩, Or.inr (Or.inr (Or.inr h))⟩

noncomputable def gridFace (v : ℕ × ℕ) : Polygon ℝ := ⟨frame v.1 (v.1 + 1) v.2 (v.2 + 1), []⟩

noncomputable def gridFaces : List (Polygon ℝ) :=
  (List.range 3 ×ˢ List.range 3).map gridFace

theorem mem_gridFaces {f : Polygon ℝ} :
    f ∈ gridFaces ↔ ∃ v : ℕ × ℕ, (v.1 < 3 ∧ v.2 < 3) ∧ gridFace v = f := by
  simp [gridFaces]

theorem region_gridFace (v : ℕ × ℕ) : (gridFace v).region =
    Set.Icc (v.1 : ℝ) (v.1 + 1) ×ˢ Set.Icc (v.2 : ℝ) (v.2 + 1) :=
  region_frame (lt_add_one _) (lt_add_one _)

theorem isFace_grid {v : ℕ × ℕ} (h : v.1 < 3 ∧ v.2 < 3) :
    IsFace (holedSquare.rings ++ sideLines)
      (Set.Ioo (v.1 : ℝ) (v.1 + 1) ×ˢ Set.Ioo (v.2 : ℝ) (v.2 + 1)) := by
  obtain ⟨hi, hj⟩ := h
  have hi' : (v.1 : ℝ) + 1 ≤ 3 := by exact_mod_cast hi
  have hj' : (v.2 : ℝ) + 1 ≤ 3 := by exact_mod_cast hj
  refine isFace_rectangle (lt_add_one _) (lt_add_one _) ?_ fun q hq => ?_
  · refine Set.disjoint_left.mpr fun q hq hmem => ?_
    obtain ⟨⟨hx, hx'⟩, hy, hy'⟩ := hq
    obtain ⟨-, n, -, h | h⟩ := mem_sides_iff.mp hmem
    · rw [h] at hx hx'
      have hlo : v.1 < n := by exact_mod_cast hx
      have hhi : n < v.1 + 1 := by exact_mod_cast hx'
      omega
    · rw [h] at hy hy'
      have hlo : v.2 < n := by exact_mod_cast hy
      have hhi : n < v.2 + 1 := by exact_mod_cast hy'
      omega
  · obtain ⟨⟨⟨hx, hx'⟩, hy, hy'⟩, hside⟩ :=
      (mem_frame_iff (lt_add_one _).le (lt_add_one _).le).mp hq
    have hwithin : q ∈ Set.Icc 0 3 ×ˢ Set.Icc (0 : ℝ) 3 :=
      ⟨⟨v.1.cast_nonneg.trans hx, hx'.trans hi'⟩, v.2.cast_nonneg.trans hy, hy'.trans hj'⟩
    refine mem_sides_iff.mpr ⟨hwithin, ?_⟩
    rcases hside with h | h | h | h
    · exact ⟨v.1, hi.le, Or.inl h⟩
    · exact ⟨v.1 + 1, hi, Or.inl (by rw [h, Nat.cast_add_one])⟩
    · exact ⟨v.2, hj.le, Or.inr h⟩
    · exact ⟨v.2 + 1, hj, Or.inr (by rw [h, Nat.cast_add_one])⟩

/-- Between neighbouring whole numbers lies what is none. -/
theorem exists_between {x : ℝ} (hx : x ∈ Set.Icc (0 : ℝ) 3) (hoff : ∀ n : ℕ, n ≤ 3 → x ≠ n) :
    ∃ i : ℕ, i < 3 ∧ x ∈ Set.Ioo (i : ℝ) (i + 1) := by
  have hlo : (⌊x⌋₊ : ℝ) ≤ x := Nat.floor_le hx.1
  have hhi : x < ⌊x⌋₊ + 1 := Nat.lt_floor_add_one x
  have hle : ⌊x⌋₊ ≤ 3 := by
    have : (⌊x⌋₊ : ℝ) ≤ (3 : ℕ) := by exact_mod_cast hlo.trans hx.2
    exact_mod_cast this
  have hne : ⌊x⌋₊ ≠ 3 := by
    intro heq
    have hthree := hoff 3 le_rfl
    rw [heq] at hlo
    exact hthree (le_antisymm (by exact_mod_cast hx.2) hlo)
  exact ⟨⌊x⌋₊, lt_of_le_of_ne hle hne, lt_of_le_of_ne' hlo (hoff _ hle), hhi⟩

noncomputable def gridPlane : PlanarKernel ℝ Unit where
  net _ := .ok ()
  common _ _ := .ok (.collection [])
  faces _ _ := .ok gridFaces
  innerPoint area :=
    match area.shell with
    | [p, _, q, _, _] => ⟨(p.x + q.x) / (2 : ℕ), (p.y + q.y) / (2 : ℕ), none⟩
    | _ => ⟨0, 0, none⟩
  holds g q :=
    match g with
    | .polygon area => @decide (q.place ∈ interior area.region) (Classical.propDecidable _)
    | _ => false

theorem gridPlane_exact : gridPlane.Exact holedSquare sideLines () gridFaces := by
  have hopen : ∀ v : ℕ × ℕ, (gridFace v).region =
      closure (Set.Ioo (v.1 : ℝ) (v.1 + 1) ×ˢ Set.Ioo (v.2 : ℝ) (v.2 + 1)) := by
    intro v
    rw [region_gridFace, closure_prod_eq, closure_Ioo (lt_add_one _).ne,
      closure_Ioo (lt_add_one _).ne]
  constructor
  case nodes => rfl
  case finds => rfl
  case sound =>
    intro f hf
    obtain ⟨v, hv, rfl⟩ := mem_gridFaces.mp hf
    exact ⟨_, isFace_grid hv, hopen v⟩
  case complete =>
    intro face hface
    obtain ⟨q, hq⟩ := hface.nonempty
    have hwithin : face ⊆ Set.Icc 0 3 ×ˢ Set.Icc 0 3 := by
      refine hface.subset_of_convex ((convex_Icc 0 3).prod (convex_Icc 0 3)) ⟨(0, 0), by simp⟩ ?_
      exact fun r hr => (mem_sides_iff.mp hr).1
    have hoff := hface.not_mem_drawn hq
    rw [mem_sides_iff, not_and] at hoff
    have hside := hoff (hwithin hq)
    push Not at hside
    obtain ⟨i, hi, hxi⟩ := exists_between (hwithin hq).1 fun n hn => (hside n hn).1
    obtain ⟨j, hj, hyj⟩ := exists_between (hwithin hq).2 fun n hn => (hside n hn).2
    have heq := hface.eq_of_mem (isFace_grid (v := (i, j)) ⟨hi, hj⟩) hq ⟨hxi, hyj⟩
    exact ⟨gridFace (i, j), mem_gridFaces.mpr ⟨(i, j), ⟨hi, hj⟩, rfl⟩, by rw [hopen, heq]⟩
  case once =>
    have hnodup : (List.range 3 ×ˢ List.range 3).Nodup := List.nodup_range.product List.nodup_range
    refine List.pairwise_map.mpr (hnodup.imp fun {v w} hne heq => hne ?_)
    rw [region_gridFace, region_gridFace] at heq
    have hv : ((v.1 : ℝ), (v.2 : ℝ)) ∈ Set.Icc (v.1 : ℝ) (v.1 + 1) ×ˢ Set.Icc (v.2 : ℝ) (v.2 + 1) :=
      ⟨Set.left_mem_Icc.mpr (lt_add_one _).le, Set.left_mem_Icc.mpr (lt_add_one _).le⟩
    have hw : ((w.1 : ℝ), (w.2 : ℝ)) ∈ Set.Icc (w.1 : ℝ) (w.1 + 1) ×ˢ Set.Icc (w.2 : ℝ) (w.2 + 1) :=
      ⟨Set.left_mem_Icc.mpr (lt_add_one _).le, Set.left_mem_Icc.mpr (lt_add_one _).le⟩
    rw [heq] at hv
    rw [← heq] at hw
    exact Prod.ext (Nat.cast_injective (le_antisymm hw.1.1 hv.1.1))
      (Nat.cast_injective (le_antisymm hw.2.1 hv.2.1))
  case inner =>
    intro f hf
    obtain ⟨v, -, rfl⟩ := mem_gridFaces.mp hf
    rw [region_gridFace, interior_prod_eq, interior_Icc, interior_Icc]
    have hmiddle : (gridPlane.innerPoint (gridFace v)).place =
        (((v.1 : ℝ) + (v.1 + 1)) / (2 : ℕ), ((v.2 : ℝ) + (v.2 + 1)) / (2 : ℕ)) := rfl
    rw [hmiddle, Nat.cast_ofNat]
    refine ⟨⟨?_, ?_⟩, ?_, ?_⟩ <;> linarith
  case holds =>
    intro q
    simp [gridPlane]

/-- The squares that are kept tile the square without its hole. -/
theorem polygon_tiled_of_holedSquare :
    gridPlane.Exact holedSquare sideLines () gridFaces ∧ holedSquare.shell ≠ [] ∧
    (0 : ℝ) ≤ 1 / 8 ∧ sideLines ≠ [] ∧
    ∃ kept, facesInside gridPlane () (.polygon holedSquare) = .ok kept ∧
      Tiles holedSquare gridFaces kept ∧
      split gridPlane (.polygon holedSquare) (.multiLineString sideLines) ⟨1 / 8, .real 0.125⟩ =
        .ok (some (.multiPolygon kept)) := by
  have hshell : holedSquare.shell ≠ [] := List.cons_ne_nil _ _
  have hlines : sideLines ≠ [] := List.cons_ne_nil _ _
  have htol : (0 : ℝ) ≤ 1 / 8 := by norm_num
  have hsame : (Geometry.multiLineString sideLines).components.flatMap Blade.linesOf = sideLines :=
    rfl
  obtain ⟨kept, hkept, htiles, hsplit⟩ := polygon_tiled gridPlane_exact
  exact ⟨gridPlane_exact, hshell, htol, hlines, kept, hkept, htiles,
    hsplit _ ⟨1 / 8, .real 0.125⟩ .lineal hshell htol rfl (Or.inl rfl) hlines hsame⟩

end Split

end Geospatial
