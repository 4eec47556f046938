import Geospatial.Geometry.Document
import Geospatial.Proofs.Geometry.Components

/-!
# Documents describe geometries that can be built

An area without a shell is refused when it has a hole with positions, a line when it has only one
position, and a geometry of an unknown kind as a part of a collection. So a geometry that is read is
well formed and its lines are drawn, unless it is itself of an unknown kind.
-/

namespace Geospatial

theorem Polygon.positions_of_ofValue {v : Json.Value} {p : Polygon Float}
    (h : Polygon.ofValue v = .ok p) (hempty : p.isEmpty = true) : p.positions = [] := by
  obtain ⟨entries, -, h⟩ := bind_eq_ok_iff.mp h
  obtain ⟨rings, -, h⟩ := bind_eq_ok_iff.mp h
  match rings with
  | [] =>
      cases h
      rfl
  | shell :: holes =>
      dsimp only at h
      split at h
      · cases h
      · rename_i hholes
        cases h
        obtain rfl : shell = [] := List.isEmpty_iff.mp hempty
        have hnone : ∀ hole ∈ holes, hole = [] := by simpa using hholes
        exact List.flatten_eq_nil_iff.mpr hnone

theorem length_of_pathOfValue {v : Json.Value} {path : Path Float} (h : pathOfValue v = .ok path) :
    path.length ≠ 1 := by
  obtain ⟨positions, -, h⟩ := bind_eq_ok_iff.mp h
  split at h
  · cases h
  · rename_i hlen
    cases h
    exact hlen

theorem length_of_ringOfValue {v : Json.Value} {path : Path Float} (h : ringOfValue v = .ok path) :
    path.length ≠ 1 := by
  obtain ⟨positions, -, h⟩ := bind_eq_ok_iff.mp h
  split at h
  case h_1 first last hfirst hlast =>
    split_ifs at h with hshort hopen hclosed
    · cases h
      have hlen : (positions ++ [first]).length = positions.length + 1 := List.length_append
      omega
    · cases h
      omega
  case h_2 =>
    cases h
    exact Nat.zero_ne_one

theorem drawn_of_partOfValue {v : Json.Value} {path : Path Float} (h : partOfValue v = .ok path) :
    2 ≤ path.length := by
  obtain ⟨path, hpath, h⟩ := bind_eq_ok_iff.mp h
  have hone : path.length ≠ 1 := length_of_pathOfValue hpath
  split at h
  · cases h
  · rename_i hempty
    cases h
    have hzero : path.length ≠ 0 := by simpa using hempty
    omega

namespace Geometry

def Described (g : Geometry Float) : Prop := g.isUnknown = true ∨ g.Drawn

theorem drawn_of_path {g : Geometry Float} {path : Path Float}
    (hg : g = lineString path ∨ g = linearRing path) (h : path.length ≠ 1) : g.Drawn := by
  have hformed : g.Formed := by
    rcases hg with rfl | rfl
    · exact .lineString path
    · exact .linearRing path
  refine ⟨hformed, fun c hc _ => ?_⟩
  have hpath : path ≠ [] ∧ c.positions = path := by
    rcases hg with rfl | rfl
    · obtain ⟨hpath, rfl⟩ : path ≠ [] ∧ c = lineString path := by simpa [components] using hc
      exact ⟨hpath, rfl⟩
    · obtain ⟨hpath, rfl⟩ : path ≠ [] ∧ c = linearRing path := by simpa [components] using hc
      exact ⟨hpath, rfl⟩
  have hpos : 0 < path.length := List.length_pos_of_ne_nil hpath.1
  rw [hpath.2]
  omega

theorem drawn_multiLineString {paths : List (Path Float)} (h : ∀ path ∈ paths, 2 ≤ path.length) :
    (multiLineString paths).Drawn := by
  refine ⟨.multiLineString paths, fun c hc _ => ?_⟩
  obtain ⟨path, hpath, rfl⟩ := List.mem_map.mp hc
  exact h path (List.mem_filter.mp hpath).1

theorem drawn_of_collect {parts : List (Geometry Float)} {g : Geometry Float}
    (hparts : ∀ part ∈ parts, Described part) (h : collect parts = .ok g) : g.Drawn := by
  unfold collect at h
  split at h
  · cases h
  · rename_i hknown
    cases h
    refine drawn_collection fun part hpart => (hparts part hpart).resolve_left fun hunknown => ?_
    exact hknown (List.any_eq_true.mpr ⟨part, hpart, hunknown⟩)

/-- Values nested one level deeper describe geometries if those nested less do. -/
theorem described_of_ofValue_succ {depth : Nat}
    (hparts : ∀ vs parts, partsOfValues depth vs = .ok parts → ∀ part ∈ parts, Described part)
    {v : Json.Value} {g : Geometry Float} (h : ofValue (depth + 1) v = .ok g) : Described g := by
  rw [ofValue] at h
  split at h
  case h_1 =>
    split at h
    · cases h
      exact Or.inr ((Formed.point none).drawn rfl (by decide) (by decide))
    · obtain ⟨p, -, h⟩ := bind_eq_ok_iff.mp h
      cases h
      exact Or.inr ((Formed.point (some p)).drawn rfl (by decide) (by decide))
  case h_2 =>
    obtain ⟨path, hpath, h⟩ := bind_eq_ok_iff.mp h
    cases h
    exact Or.inr (drawn_of_path (Or.inl rfl) (length_of_pathOfValue hpath))
  case h_3 =>
    obtain ⟨path, hpath, h⟩ := bind_eq_ok_iff.mp h
    cases h
    exact Or.inr (drawn_of_path (Or.inr rfl) (length_of_ringOfValue hpath))
  case h_4 =>
    obtain ⟨p, hp, h⟩ := bind_eq_ok_iff.mp h
    cases h
    have hformed : (polygon p).Formed := .polygon (Polygon.positions_of_ofValue hp)
    exact Or.inr (hformed.drawn rfl (by decide) (by decide))
  case h_5 =>
    obtain ⟨points, -, h⟩ := bind_eq_ok_iff.mp h
    cases h
    exact Or.inr ((Formed.multiPoint (points.map some)).drawn rfl (by decide) (by decide))
  case h_6 =>
    obtain ⟨entries, -, h⟩ := bind_eq_ok_iff.mp h
    obtain ⟨paths, hpaths, h⟩ := bind_eq_ok_iff.mp h
    cases h
    refine Or.inr (drawn_multiLineString fun path hpath => ?_)
    obtain ⟨entry, -, hentry⟩ := exists_item_of_mem hpaths hpath
    exact drawn_of_partOfValue hentry
  case h_7 =>
    obtain ⟨entries, -, h⟩ := bind_eq_ok_iff.mp h
    obtain ⟨polygons, hpolygons, h⟩ := bind_eq_ok_iff.mp h
    cases h
    have hformed : (multiPolygon (polygons.filter fun p => !p.isEmpty)).Formed := by
      refine .multiPolygon fun p hp => ?_
      obtain ⟨entry, -, hentry⟩ := exists_item_of_mem hpolygons (List.mem_filter.mp hp).1
      exact Polygon.positions_of_ofValue hentry
    exact Or.inr (hformed.drawn rfl (by decide) (by decide))
  case h_8 =>
    obtain ⟨entries, -, h⟩ := bind_eq_ok_iff.mp h
    obtain ⟨parts, hread, h⟩ := bind_eq_ok_iff.mp h
    exact Or.inr (drawn_of_collect (hparts entries parts hread) h)
  case h_9 =>
    cases h
    exact Or.inl rfl
  case h_10 => cases h

theorem described_of_values (depth : Nat) :
    (∀ v g, ofValue depth v = .ok g → Described g) ∧
      ∀ vs parts, partsOfValues depth vs = .ok parts → ∀ part ∈ parts, Described part := by
  induction depth with
  | zero =>
      refine ⟨fun v g h => ?_, fun vs parts h => ?_⟩
      · cases h
      · cases h
  | succ depth ih =>
      obtain ⟨hvalue, hvalues⟩ := ih
      refine ⟨fun v g h => described_of_ofValue_succ hvalues h, fun vs parts h part hpart => ?_⟩
      cases vs with
      | nil =>
          cases h
          cases hpart
      | cons v rest =>
          obtain ⟨first, hfirst, h⟩ := bind_eq_ok_iff.mp h
          obtain ⟨others, hothers, h⟩ := bind_eq_ok_iff.mp h
          cases h
          rcases List.mem_cons.mp hpart with rfl | hpart
          · exact hvalue v part hfirst
          · exact hvalues rest others hothers part hpart

/-- What is read and of a known kind is well formed, and its lines are drawn. -/
theorem drawn_of_ofDocument {v : Json.Value} {g : Geometry Float} (h : ofDocument v = .ok g)
    (hknown : g.isUnknown = false) : g.Drawn := by
  refine ((described_of_values _).1 v g h).resolve_left fun hunknown => ?_
  rw [hknown] at hunknown
  cases hunknown

end Geometry

end Geospatial
