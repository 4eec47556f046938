import Geospatial.Proofs.Planar.Arrangement

/-!
# Areas as sets of points

A closed path encloses the faces that it makes. Inside an area is what its shell encloses and its
holes and their paths do not cover; the area itself has its frontier too, which is on its rings. So
what is connected and off the rings is inside or outside of the area as a whole.
-/

namespace Geospatial

open MeasureTheory

/-! ## Enclosed places -/

def enclosed (ring : Path ℝ) : Set (ℝ × ℝ) := ⋃₀ {face | IsFace [ring] face}

theorem drawn_singleton (ring : Path ℝ) :
    drawn [ring] = Geometry.pathSet Position.place ring := by
  simp [drawn]

theorem isOpen_enclosed (ring : Path ℝ) : IsOpen (enclosed ring) :=
  isOpen_sUnion fun _ hface => hface.isOpen

theorem frontier_enclosed (ring : Path ℝ) :
    frontier (enclosed ring) ⊆ Geometry.pathSet Position.place ring := by
  rw [← drawn_singleton]
  exact frontier_sUnion_faces fun _ hface => hface

theorem enclosed_subset {ring : Path ℝ} {K : Set (ℝ × ℝ)} (hK : Convex ℝ K) (hne : K.Nonempty)
    (hring : Geometry.pathSet Position.place ring ⊆ K) : enclosed ring ⊆ K := by
  rw [← drawn_singleton] at hring
  exact Set.sUnion_subset fun _ hface => hface.subset_of_convex hK hne hring

@[simp] theorem enclosed_nil : enclosed [] = ∅ := by
  have hempty : ∀ x : ℝ × ℝ, Geometry.pathSet Position.place [] ⊆ {x} := by simp
  refine Set.eq_empty_of_forall_notMem fun q hq => ?_
  have h0 := enclosed_subset (convex_singleton (0 : ℝ × ℝ)) (Set.singleton_nonempty _)
    (hempty _) hq
  have h1 := enclosed_subset (convex_singleton (1 : ℝ × ℝ)) (Set.singleton_nonempty _)
    (hempty _) hq
  exact zero_ne_one ((Set.mem_singleton_iff.mp h0).symm.trans (Set.mem_singleton_iff.mp h1))

theorem isBounded_enclosed (ring : Path ℝ) : Bornology.IsBounded (enclosed ring) := by
  rcases eq_or_ne ring [] with rfl | hne
  · simp
  · obtain ⟨p, hp⟩ := List.exists_mem_of_ne_nil ring hne
    have hhull := subset_convexHull ℝ (Geometry.pathSet Position.place ring)
    refine Bornology.IsBounded.subset ?_
      (enclosed_subset (convex_convexHull ℝ _) ⟨p.place, hhull ?_⟩ hhull)
    · exact isBounded_convexHull.mpr (Geometry.isBounded_pathSet ring)
    · exact Geometry.place_mem_pathSet hp

/-- The places that a path encloses, and those on it. -/
def covered (ring : Path ℝ) : Set (ℝ × ℝ) :=
  enclosed ring ∪ Geometry.pathSet Position.place ring

theorem isClosed_covered (ring : Path ℝ) : IsClosed (covered ring) := by
  have hclosure : closure (covered ring) ⊆ covered ring := by
    rw [covered, closure_union, (Geometry.isClosed_pathSet ring).closure_eq,
      closure_eq_self_union_frontier]
    exact Set.union_subset (Set.union_subset_union_right _ (frontier_enclosed ring))
      Set.subset_union_right
  exact closure_subset_iff_isClosed.mp hclosure

/-! ## Areas -/

namespace Polygon

def core (p : Polygon ℝ) : Set (ℝ × ℝ) := enclosed p.shell \ ⋃ hole ∈ p.holes, covered hole

/-- The places of an area: those inside and those on its frontier. -/
def region (p : Polygon ℝ) : Set (ℝ × ℝ) := closure p.core

noncomputable def area (p : Polygon ℝ) : ENNReal := volume p.region

variable (p : Polygon ℝ)

theorem isOpen_core : IsOpen p.core :=
  (isOpen_enclosed p.shell).sdiff
    (p.holes.finite_toSet.isClosed_biUnion fun hole _ => isClosed_covered hole)

theorem isBounded_core : Bornology.IsBounded p.core :=
  (isBounded_enclosed p.shell).subset Set.sdiff_subset

theorem area_ne_top : p.area ≠ ⊤ := p.isBounded_core.closure.measure_lt_top.ne

theorem core_of_isEmpty (h : p.isEmpty = true) : p.core = ∅ := by
  rw [core, List.isEmpty_iff.mp h, enclosed_nil, Set.empty_sdiff]

variable {p}

theorem disjoint_core_covered {hole : Path ℝ} (h : hole ∈ p.holes) :
    Disjoint p.core (covered hole) :=
  Set.disjoint_sdiff_left.mono_right (Set.subset_biUnion_of_mem h)

theorem pathSet_subset_drawn {ring : Path ℝ} (h : ring ∈ p.rings) :
    Geometry.pathSet Position.place ring ⊆ drawn p.rings :=
  Set.subset_biUnion_of_mem h

/-- What is connected and off the rings is inside or outside as a whole. -/
theorem subset_core_or_disjoint {s : Set (ℝ × ℝ)} (hs : IsPreconnected s)
    (hoff : Disjoint s (drawn p.rings)) : s ⊆ p.core ∨ Disjoint s p.core := by
  by_cases hempty : p.isEmpty = true
  · rw [p.core_of_isEmpty hempty]
    exact Or.inr (Set.disjoint_empty s)
  · have hrings : p.rings = p.shell :: p.holes := if_neg hempty
    have hring : ∀ ring ∈ p.rings, Disjoint s (Geometry.pathSet Position.place ring) :=
      fun ring hmem => hoff.mono_right (pathSet_subset_drawn hmem)
    have hside : ∀ ring ∈ p.rings, s ⊆ enclosed ring ∨ Disjoint s (enclosed ring) :=
      fun ring hmem => subset_or_disjoint_of_frontier hs
        ((hring ring hmem).mono_right (frontier_enclosed ring))
    rcases hside p.shell (hrings ▸ List.mem_cons_self) with hin | hout
    · by_cases hhole : ∃ hole ∈ p.holes, s ⊆ enclosed hole
      · obtain ⟨hole, hmem, hs⟩ := hhole
        exact Or.inr ((disjoint_core_covered hmem).symm.mono_left
          (hs.trans Set.subset_union_left))
      · refine Or.inl (Set.subset_sdiff.mpr ⟨hin, Set.disjoint_iUnion₂_right.mpr ?_⟩)
        intro hole hmem
        have hhole' : hole ∈ p.rings := hrings ▸ List.mem_cons_of_mem _ hmem
        exact ((hside hole hhole').resolve_left fun hs => hhole ⟨hole, hmem, hs⟩).union_right
          (hring hole hhole')
    · exact Or.inr (hout.mono_right Set.sdiff_subset)

end Polygon

/-! ## Rectangles -/

def frame (a b c d : ℝ) : Path ℝ :=
  [⟨a, c, none⟩, ⟨b, c, none⟩, ⟨b, d, none⟩, ⟨a, d, none⟩, ⟨a, c, none⟩]

theorem segment_level {a b : ℝ} (h : a ≤ b) (y : ℝ) :
    segment ℝ (a, y) (b, y) = Set.Icc a b ×ˢ {y} := by
  rw [← Prod.image_mk_segment_left, segment_eq_Icc h, Set.prod_singleton]

theorem segment_upright {c d : ℝ} (h : c ≤ d) (x : ℝ) :
    segment ℝ (x, c) (x, d) = {x} ×ˢ Set.Icc c d := by
  rw [← Prod.image_mk_segment_right, segment_eq_Icc h, Set.singleton_prod]

section Frame

variable {a b c d : ℝ}

theorem mem_frame_iff (hab : a ≤ b) (hcd : c ≤ d) {q : ℝ × ℝ} :
    q ∈ Geometry.pathSet Position.place (frame a b c d) ↔
      q ∈ Set.Icc a b ×ˢ Set.Icc c d ∧ (q.1 = a ∨ q.1 = b ∨ q.2 = c ∨ q.2 = d) := by
  obtain ⟨x, y⟩ := q
  simp only [frame, Geometry.pathSet_cons_cons, Geometry.pathSet_singleton, Position.place,
    segment_level hab, segment_upright hcd, segment_symm ℝ (b, d), segment_symm ℝ (a, d) (a, c),
    Set.mem_union, Set.mem_prod, Set.mem_Icc, Set.mem_singleton_iff, Prod.mk.injEq]
  constructor
  · rintro (⟨hx, rfl⟩ | ⟨rfl, hy⟩ | ⟨hx, rfl⟩ | ⟨rfl, hy⟩ | ⟨rfl, rfl⟩)
    · simp [hx, hcd]
    · simp [hy, hab]
    · simp [hx, hcd]
    · simp [hy, hab]
    · simp [hab, hcd]
  · rintro ⟨⟨hx, hy⟩, rfl | rfl | rfl | rfl⟩
    · simp [hy]
    · simp [hy]
    · simp [hx]
    · simp [hx]

/-- A rectangle that no line crosses, with all sides on lines, is a face. -/
theorem isFace_rectangle {lines : List (Path ℝ)} (hab : a < b) (hcd : c < d)
    (hoff : Disjoint (Set.Ioo a b ×ˢ Set.Ioo c d) (drawn lines))
    (hframe : Geometry.pathSet Position.place (frame a b c d) ⊆ drawn lines) :
    IsFace lines (Set.Ioo a b ×ˢ Set.Ioo c d) := by
  have hfrontier : frontier (Set.Ioo a b ×ˢ Set.Ioo c d) ⊆ drawn lines := by
    refine Set.Subset.trans (fun q hq => (mem_frame_iff hab.le hcd.le).mpr ?_) hframe
    rw [frontier_prod_eq, closure_Ioo hab.ne, closure_Ioo hcd.ne, frontier_Ioo hab,
      frontier_Ioo hcd] at hq
    have hc := Set.left_mem_Icc.mpr hcd.le
    have hd := Set.right_mem_Icc.mpr hcd.le
    have ha := Set.left_mem_Icc.mpr hab.le
    have hb := Set.right_mem_Icc.mpr hab.le
    rcases hq with ⟨hx, hy⟩ | ⟨hx, hy⟩
    · rcases hy with hy | hy
      · exact ⟨⟨hx, by rwa [hy]⟩, by simp [hy]⟩
      · exact ⟨⟨hx, by rwa [Set.mem_singleton_iff.mp hy]⟩, by simp [Set.mem_singleton_iff.mp hy]⟩
    · rcases hx with hx | hx
      · exact ⟨⟨by rwa [hx], hy⟩, by simp [hx]⟩
      · exact ⟨⟨by rwa [Set.mem_singleton_iff.mp hx], hy⟩, by simp [Set.mem_singleton_iff.mp hx]⟩
  exact isFace_of_frontier ((convex_Ioo a b).prod (convex_Ioo c d)).isPreconnected
    ((Set.nonempty_Ioo.mpr hab).prod (Set.nonempty_Ioo.mpr hcd)) hoff hfrontier
    ((Metric.isBounded_Ioo a b).prod (Metric.isBounded_Ioo c d))

theorem enclosed_frame (hab : a < b) (hcd : c < d) :
    enclosed (frame a b c d) = Set.Ioo a b ×ˢ Set.Ioo c d := by
  have hface : IsFace [frame a b c d] (Set.Ioo a b ×ˢ Set.Ioo c d) := by
    refine isFace_rectangle hab hcd ?_ (drawn_singleton _).ge
    rw [drawn_singleton]
    refine Set.disjoint_left.mpr fun q hq hmem => ?_
    obtain ⟨-, h⟩ := (mem_frame_iff hab.le hcd.le).mp hmem
    obtain ⟨⟨hxa, hxb⟩, hyc, hyd⟩ := hq
    rcases h with h | h | h | h <;> linarith
  refine Set.Subset.antisymm (Set.sUnion_subset fun face h => ?_) (Set.subset_sUnion_of_mem hface)
  have hwithin : face ⊆ Set.Icc a b ×ˢ Set.Icc c d := by
    refine IsFace.subset_of_convex h ((convex_Icc a b).prod (convex_Icc c d))
      ((Set.nonempty_Icc.mpr hab.le).prod (Set.nonempty_Icc.mpr hcd.le)) ?_
    rw [drawn_singleton]
    exact fun q hq => ((mem_frame_iff hab.le hcd.le).mp hq).1
  intro q hq
  obtain ⟨⟨hxa, hxb⟩, hyc, hyd⟩ := hwithin hq
  have hoff := h.not_mem_drawn hq
  rw [drawn_singleton, mem_frame_iff hab.le hcd.le, not_and] at hoff
  have hsides := hoff (hwithin hq)
  push Not at hsides
  exact ⟨⟨lt_of_le_of_ne' hxa hsides.1, lt_of_le_of_ne hxb hsides.2.1⟩,
    lt_of_le_of_ne' hyc hsides.2.2.1, lt_of_le_of_ne hyd hsides.2.2.2⟩

theorem region_frame (hab : a < b) (hcd : c < d) :
    (⟨frame a b c d, []⟩ : Polygon ℝ).region = Set.Icc a b ×ˢ Set.Icc c d := by
  have hcore : (⟨frame a b c d, []⟩ : Polygon ℝ).core = Set.Ioo a b ×ˢ Set.Ioo c d := by
    simp [Polygon.core, enclosed_frame hab hcd]
  rw [Polygon.region, hcore, closure_prod_eq, closure_Ioo hab.ne, closure_Ioo hcd.ne]

end Frame

end Geospatial
