import Geospatial.Geometry.Basic
import Mathlib.Analysis.Convex.Segment
import Mathlib.LinearAlgebra.AffineSpace.FiniteDimensional
import Mathlib.MeasureTheory.Measure.Lebesgue.EqHaar

/-!
# The points of a path

A path is the set of its positions and of what lies between neighbours on it. That set is closed and
bounded and has no area, and it lies in every convex set that holds the positions.
-/

namespace Geospatial.Geometry

variable {α : Type}

def pathSet (place : Position α → ℝ × ℝ) (path : Path α) : Set (ℝ × ℝ) :=
  {q | (∃ p ∈ path, q = place p) ∨ ∃ a b, [a, b] <:+: path ∧ q ∈ segment ℝ (place a) (place b)}

variable {place : Position α → ℝ × ℝ}

theorem place_mem_pathSet {path : Path α} {p : Position α} (h : p ∈ path) :
    place p ∈ pathSet place path :=
  Or.inl ⟨p, h, rfl⟩

theorem pathSet_subset {path : Path α} {s : Set (ℝ × ℝ)} (hs : Convex ℝ s)
    (h : ∀ p ∈ path, place p ∈ s) : pathSet place path ⊆ s := by
  rintro q (⟨p, hp, rfl⟩ | ⟨a, b, hpair, hq⟩)
  · exact h p hp
  · have ha : place a ∈ s := h a (hpair.subset List.mem_cons_self)
    have hb : place b ∈ s := h b (hpair.subset (List.mem_cons_of_mem _ List.mem_cons_self))
    exact hs.segment_subset ha hb hq

@[simp] theorem pathSet_nil : pathSet place [] = ∅ := by
  ext q
  simp [pathSet]

@[simp] theorem pathSet_singleton (p : Position α) : pathSet place [p] = {place p} := by
  ext q
  have hpair : ∀ a b, ¬[a, b] <:+: [p] := fun a b h => by simpa using h.length_le
  simp [pathSet, hpair]

@[simp] theorem pathSet_cons_cons (a b : Position α) (rest : Path α) :
    pathSet place (a :: b :: rest) =
      segment ℝ (place a) (place b) ∪ pathSet place (b :: rest) := by
  ext q
  constructor
  · rintro (⟨p, hp, rfl⟩ | ⟨c, d, hpair, hq⟩)
    · rcases List.mem_cons.mp hp with rfl | hp
      · exact Or.inl (left_mem_segment ℝ _ _)
      · exact Or.inr (place_mem_pathSet hp)
    · rcases List.infix_cons_iff.mp hpair with hprefix | hinfix
      · obtain ⟨hc, hprefix⟩ := List.cons_prefix_cons.mp hprefix
        obtain ⟨hd, -⟩ := List.cons_prefix_cons.mp hprefix
        rw [hc, hd] at hq
        exact Or.inl hq
      · exact Or.inr (Or.inr ⟨c, d, hinfix, hq⟩)
  · rintro (hq | ⟨p, hp, rfl⟩ | ⟨c, d, hpair, hq⟩)
    · exact Or.inr ⟨a, b, (List.prefix_append [a, b] rest).isInfix, hq⟩
    · exact place_mem_pathSet (List.mem_cons_of_mem _ hp)
    · exact Or.inr ⟨c, d, List.infix_cons_iff.mpr (Or.inr hpair), hq⟩

/-- What holds of points and segments, and of two sets together if of each, holds of a path. -/
theorem pathSet_induction {motive : Set (ℝ × ℝ) → Prop} (path : Path α) (empty : motive ∅)
    (segment : ∀ a b, motive (segment ℝ a b))
    (union : ∀ s t, motive s → motive t → motive (s ∪ t)) : motive (pathSet place path) := by
  induction path with
  | nil => simpa using empty
  | cons a rest ih =>
      cases rest with
      | nil => simpa using segment (place a) (place a)
      | cons b rest =>
          rw [pathSet_cons_cons]
          exact union _ _ (segment _ _) ih

theorem isClosed_pathSet (path : Path α) : IsClosed (pathSet place path) := by
  refine pathSet_induction path isClosed_empty (fun a b => ?_) fun _ _ => IsClosed.union
  rw [← convexHull_pair a b]
  exact (Set.toFinite {a, b}).isClosed_convexHull ℝ

theorem isBounded_pathSet (path : Path α) : Bornology.IsBounded (pathSet place path) := by
  refine pathSet_induction path Bornology.isBounded_empty (fun a b => ?_) fun _ _ => .union
  rw [← convexHull_pair a b]
  exact isBounded_convexHull.mpr (Set.toFinite {a, b}).isBounded

/-- A segment lies on a line. -/
theorem volume_segment (a b : ℝ × ℝ) : MeasureTheory.volume (segment ℝ a b) = 0 := by
  have : (MeasureTheory.volume : MeasureTheory.Measure (ℝ × ℝ)).IsAddHaarMeasure :=
    MeasureTheory.Measure.prod.instIsAddHaarMeasure _ _
  have hline : segment ℝ a b ⊆ affineSpan ℝ {a, b} := by
    rw [← convexHull_pair a b]
    exact convexHull_subset_affineSpan _
  refine MeasureTheory.measure_mono_null hline (MeasureTheory.Measure.addHaar_affineSubspace _ _ ?_)
  intro htop
  have hdirection := congrArg AffineSubspace.direction htop
  rw [direction_affineSpan, AffineSubspace.direction_top] at hdirection
  have hrank := (collinear_pair ℝ a b).finrank_le_one
  rw [hdirection, finrank_top, Module.finrank_prod, Module.finrank_self] at hrank
  omega

theorem volume_pathSet (path : Path α) : MeasureTheory.volume (pathSet place path) = 0 := by
  refine pathSet_induction (motive := fun s => MeasureTheory.volume s = 0) path
    MeasureTheory.measure_empty volume_segment fun _ _ => ?_
  exact MeasureTheory.measure_union_null

end Geospatial.Geometry
