import Geospatial.Proofs.Geometry.PathSet
import Mathlib.Analysis.Convex.PathConnected
import Mathlib.Order.CompletePartialOrder
import Mathlib.Topology.Connected.LocallyConnected

/-!
# The plane divided by lines

Lines divide the rest of the plane into connected parts, of which the bounded ones are their faces.
A face is open, its frontier is on the lines, and two faces are equal or apart. What is connected
and off a frontier is on one side of it, and no face reaches far away from the lines.
-/

namespace Geospatial

open MeasureTheory

/-- Where a position is in the plane; heights play no part. -/
def Position.place (p : Position ℝ) : ℝ × ℝ := (p.x, p.y)

def drawn (lines : List (Path ℝ)) : Set (ℝ × ℝ) :=
  ⋃ path ∈ lines, Geometry.pathSet Position.place path

theorem isClosed_drawn (lines : List (Path ℝ)) : IsClosed (drawn lines) :=
  lines.finite_toSet.isClosed_biUnion fun path _ => Geometry.isClosed_pathSet path

theorem volume_drawn (lines : List (Path ℝ)) : volume (drawn lines) = 0 :=
  (measure_biUnion_null_iff lines.finite_toSet.countable).mpr
    fun path _ => Geometry.volume_pathSet path

theorem drawn_subset {lines others : List (Path ℝ)} (h : lines ⊆ others) :
    drawn lines ⊆ drawn others :=
  Set.biUnion_subset_biUnion_left h

/-! ## Faces -/

/-- A bounded part of the plane that lines do not divide. -/
def IsFace (lines : List (Path ℝ)) (face : Set (ℝ × ℝ)) : Prop :=
  ∃ q ∉ drawn lines, face = connectedComponentIn (drawn lines)ᶜ q ∧ Bornology.IsBounded face

theorem component_isOpen (lines : List (Path ℝ)) (q : ℝ × ℝ) :
    IsOpen (connectedComponentIn (drawn lines)ᶜ q) :=
  (isClosed_drawn lines).isOpen_compl.connectedComponentIn

namespace IsFace

variable {lines : List (Path ℝ)} {face other : Set (ℝ × ℝ)}

theorem isOpen (h : IsFace lines face) : IsOpen face := by
  obtain ⟨q, -, rfl, -⟩ := h
  exact component_isOpen lines q

theorem isPreconnected (h : IsFace lines face) : IsPreconnected face := by
  obtain ⟨q, -, rfl, -⟩ := h
  exact isPreconnected_connectedComponentIn

theorem isBounded (h : IsFace lines face) : Bornology.IsBounded face := by
  obtain ⟨q, -, -, hbounded⟩ := h
  exact hbounded

theorem nonempty (h : IsFace lines face) : face.Nonempty := by
  obtain ⟨q, hq, rfl, -⟩ := h
  exact ⟨q, mem_connectedComponentIn hq⟩

theorem not_mem_drawn (h : IsFace lines face) {q : ℝ × ℝ} (hq : q ∈ face) : q ∉ drawn lines := by
  obtain ⟨p, -, rfl, -⟩ := h
  exact connectedComponentIn_subset _ _ hq

/-- A face is the part of the plane around each of its places. -/
theorem eq_component (h : IsFace lines face) {q : ℝ × ℝ} (hq : q ∈ face) :
    face = connectedComponentIn (drawn lines)ᶜ q := by
  obtain ⟨p, -, rfl, -⟩ := h
  exact connectedComponentIn_eq hq

theorem eq_of_mem (h : IsFace lines face) (h' : IsFace lines other) {q : ℝ × ℝ} (hq : q ∈ face)
    (hq' : q ∈ other) : face = other :=
  (h.eq_component hq).trans (h'.eq_component hq').symm

end IsFace

/-- Faces together have their frontier on the lines. -/
theorem frontier_sUnion_faces {lines : List (Path ℝ)} {faces : Set (Set (ℝ × ℝ))}
    (h : ∀ face ∈ faces, IsFace lines face) : frontier (⋃₀ faces) ⊆ drawn lines := by
  intro q hq
  by_contra hoff
  have hopen : IsOpen (⋃₀ faces) := isOpen_sUnion fun face hface => (h face hface).isOpen
  rw [hopen.frontier_eq] at hq
  -- the part around `q` reaches into a face, so that it is that face
  obtain ⟨p, hp, face, hface, hpface⟩ := mem_closure_iff.mp hq.1 _ (component_isOpen lines q)
    (mem_connectedComponentIn hoff)
  have heq := ((h face hface).eq_component hpface).trans (connectedComponentIn_eq hp).symm
  exact hq.2 ⟨face, hface, heq ▸ mem_connectedComponentIn hoff⟩

theorem IsFace.frontier_subset {lines : List (Path ℝ)} {face : Set (ℝ × ℝ)}
    (h : IsFace lines face) : frontier face ⊆ drawn lines := by
  have hsingle : frontier (⋃₀ {face}) ⊆ drawn lines :=
    frontier_sUnion_faces fun _ hmem => by rwa [Set.mem_singleton_iff.mp hmem]
  rwa [Set.sUnion_singleton] at hsingle

/-- What is connected and off a frontier is on one side of it. -/
theorem subset_or_disjoint_of_frontier {s t : Set (ℝ × ℝ)} (hs : IsPreconnected s)
    (hoff : Disjoint s (frontier t)) : s ⊆ t ∨ Disjoint s t := by
  have hsides : s ⊆ interior t ∪ interior tᶜ := by
    rw [← compl_frontier_eq_union_interior]
    exact hoff.subset_compl_right
  have hapart : Disjoint (interior t) (interior tᶜ) :=
    disjoint_compl_right.mono interior_subset interior_subset
  rcases hs.subset_or_subset isOpen_interior isOpen_interior hapart hsides with h | h
  · exact Or.inl (h.trans interior_subset)
  · exact Or.inr (Set.subset_compl_iff_disjoint_right.mp (h.trans interior_subset))

/-- What is connected, bounded and off the lines, but has its frontier on them, is a face. -/
theorem isFace_of_frontier {lines : List (Path ℝ)} {s : Set (ℝ × ℝ)} (hs : IsPreconnected s)
    (hne : s.Nonempty) (hoff : Disjoint s (drawn lines)) (hfrontier : frontier s ⊆ drawn lines)
    (hbounded : Bornology.IsBounded s) : IsFace lines s := by
  obtain ⟨q, hq⟩ := hne
  have hqoff : q ∉ drawn lines := Set.disjoint_left.mp hoff hq
  have hpart : connectedComponentIn (drawn lines)ᶜ q ⊆ s := by
    refine (subset_or_disjoint_of_frontier isPreconnected_connectedComponentIn ?_).resolve_right ?_
    · refine Disjoint.mono_right hfrontier ?_
      exact Set.disjoint_left.mpr fun p hp => connectedComponentIn_subset _ _ hp
    · exact Set.not_disjoint_iff.mpr ⟨q, mem_connectedComponentIn hqoff, hq⟩
  refine ⟨q, hqoff, Set.Subset.antisymm ?_ hpart, hbounded⟩
  exact hs.subset_connectedComponentIn hq hoff.subset_compl_right

/-! ## Far away -/

def ray (x q : ℝ × ℝ) : Set (ℝ × ℝ) := (fun t : ℝ => x + t • (q - x)) '' Set.Ici 1

theorem mem_ray (x q : ℝ × ℝ) : q ∈ ray x q := ⟨1, Set.self_mem_Ici, by simp⟩

theorem ray_isPreconnected (x q : ℝ × ℝ) : IsPreconnected (ray x q) :=
  isPreconnected_Ici.image _ (by fun_prop)

theorem ray_unbounded {x q : ℝ × ℝ} (h : q ≠ x) : ¬Bornology.IsBounded (ray x q) := by
  intro hbounded
  obtain ⟨C, hC⟩ := isBounded_iff_forall_norm_le.mp hbounded
  have hpos : 0 < ‖q - x‖ := norm_pos_iff.mpr (sub_ne_zero.mpr h)
  -- so far out that the distance to `x` alone is too much
  let t := max 1 ((C + ‖x‖ + 1) / ‖q - x‖)
  have ht : t ∈ Set.Ici 1 := Set.mem_Ici.mpr (le_max_left _ _)
  have hnorm : ‖x + t • (q - x)‖ ≤ C := hC _ ⟨t, ht, rfl⟩
  have hfar : C + ‖x‖ + 1 ≤ t * ‖q - x‖ := (div_le_iff₀ hpos).mp (le_max_right _ _)
  have hle : ‖t • (q - x)‖ ≤ ‖x + t • (q - x)‖ + ‖x‖ := by
    have hsub := norm_sub_le (x + t • (q - x)) x
    rwa [add_sub_cancel_left] at hsub
  rw [norm_smul, Real.norm_of_nonneg (zero_le_one.trans ht)] at hle
  linarith

/-- From outside of a convex set a ray leads away from it. -/
theorem ray_disjoint {K : Set (ℝ × ℝ)} (hK : Convex ℝ K) {x q : ℝ × ℝ} (hx : x ∈ K)
    (hq : q ∉ K) : Disjoint (ray x q) K := by
  refine Set.disjoint_left.mpr ?_
  rintro _ ⟨t, ht, rfl⟩ hmem
  have hpos : 0 < t := lt_of_lt_of_le one_pos ht
  have hback := hK.add_smul_sub_mem hx hmem (t := t⁻¹)
    ⟨inv_nonneg.mpr hpos.le, inv_le_one_of_one_le₀ ht⟩
  rw [add_sub_cancel_left, smul_smul, inv_mul_cancel₀ hpos.ne', one_smul, add_sub_cancel] at hback
  exact hq hback

/-- No face reaches out of a convex set that holds the lines. -/
theorem IsFace.subset_of_convex {lines : List (Path ℝ)} {face K : Set (ℝ × ℝ)}
    (h : IsFace lines face) (hK : Convex ℝ K) (hne : K.Nonempty) (hlines : drawn lines ⊆ K) :
    face ⊆ K := by
  intro q hq
  by_contra hqK
  obtain ⟨x, hx⟩ := hne
  have hoff : Disjoint (ray x q) (drawn lines) := (ray_disjoint hK hx hqK).mono_right hlines
  have hsubset : ray x q ⊆ face := by
    rw [h.eq_component hq]
    exact (ray_isPreconnected x q).subset_connectedComponentIn (mem_ray x q) hoff.subset_compl_right
  have haway : q ≠ x := (ne_of_mem_of_not_mem hx hqK).symm
  exact ray_unbounded haway (h.isBounded.subset hsubset)

end Geospatial
