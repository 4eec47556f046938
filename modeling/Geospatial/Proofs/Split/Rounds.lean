import Geospatial.Proofs.Path.Rounds
import Geospatial.Proofs.Split.Lines

/-!
# Splitting in rounds

A line that passes no point twice is split by points in two rounds as it is by all of them at once,
and its pieces are not split again by the points that made them.
-/

namespace Geospatial.Split

variable {Net : Type}

theorem simple_evenPositions {g : Geometry ℝ} (h : Path.Simple g.positions) :
    Path.Simple g.evenPositions := by
  unfold Geometry.evenPositions
  split
  · refine Path.simple_map (fun p => ?_) h
    exact ⟨rfl, rfl⟩
  · exact h

/-- Splitting the pieces of a line by more points gives the pieces that it has by all the points. -/
theorem lines_rounds (k : PlanarKernel ℝ Net) (target : Geometry ℝ) (path : Path ℝ)
    (first second both : List (Option (Position ℝ)))
    (hline : target = .lineString path ∨ target = .linearRing path) (hsimple : Path.Simple path)
    (hboth : ∀ p, some p ∈ both ↔ some p ∈ first ∨ some p ∈ second) :
    ∃ (pieces : List (Path ℝ)) (rounds : List (List (Path ℝ))),
      lines k target (.multiPoint first) 0 = .ok (.multiLineString pieces) ∧
      (pieces.mapM fun piece => lines k (.lineString piece) (.multiPoint second) 0) =
        .ok (rounds.map .multiLineString) ∧
      lines k target (.multiPoint both) 0 = .ok (.multiLineString rounds.flatten) ∧
      lines k (.multiLineString pieces) (.multiPoint first) 0 = .ok (.multiLineString pieces) := by
  let A := (Geometry.multiPoint first).positions
  let B := (Geometry.multiPoint second).positions
  by_cases hne : path = []
  · subst hne
    refine ⟨[], [], lines_of_no_line k first 0 hline, rfl, lines_of_no_line k both 0 hline, ?_⟩
    exact lines_multiLineString k first 0 (fun _ h => by cases h) fun _ h => by cases h
  · have hpositions : target.positions = path := by rcases hline with rfl | rfl <;> rfl
    have hsimple' := simple_evenPositions (hpositions ▸ hsimple)
    have hpath : target.evenPositions ≠ [] := by
      unfold Geometry.evenPositions
      rw [hpositions]
      split
      · simpa using hne
      · exact hne
    have heven : ∀ piece ∈ Path.splitAt target.evenPositions A 0, EvenHeights piece :=
      fun piece => Path.even_of_mem_splitAt (even_evenPositions target)
    have hnonempty : ∀ piece ∈ Path.splitAt target.evenPositions A 0, piece ≠ [] :=
      fun piece => Path.ne_nil_of_mem_splitAt hpath
    refine ⟨Path.splitAt target.evenPositions A 0,
      (Path.splitAt target.evenPositions A 0).map fun piece => Path.splitAt piece B 0,
      lines_of_line k first 0 hline hne, ?second, ?both, ?again⟩
    case second =>
      rw [List.map_map]
      refine mapM_ok fun piece hpiece => ?_
      rw [lines_of_line k second 0 (Or.inl rfl) (hnonempty piece hpiece),
        evenPositions_lineString (heven piece hpiece)]
      rfl
    case both =>
      have hunion : ∀ p, p ∈ (Geometry.multiPoint both).positions ↔ p ∈ A ∨ p ∈ B := by
        simpa [A, B, Geometry.positions] using hboth
      rw [lines_of_line k both 0 hline hne, ← List.flatMap_def,
        Path.splitAt_rounds _ A B _ hsimple' hunion]
    case again =>
      have hsame : ∀ p, p ∈ A ↔ p ∈ A ∨ p ∈ A := fun p => (or_self_iff).symm
      rw [lines_multiLineString k first 0 hnonempty heven,
        Path.splitAt_rounds _ A A A hsimple' hsame]

/-! ## A triangle -/

noncomputable def triangle : Path ℝ := spacePath [(0, 0, 0), (4, 0, 8), (0, 3, 2), (0, 0, 0)]

theorem triangle_eq :
    triangle = [⟨0, 0, some 0⟩, ⟨4, 0, some 8⟩, ⟨0, 3, some 2⟩, ⟨0, 0, some 0⟩] := by
  simp [triangle, spacePath]

theorem sides_of_triangle :
    Path.distance (⟨0, 0, some 0⟩ : Position ℝ) ⟨4, 0, some 8⟩ = 4 ∧
      Path.distance (⟨4, 0, some 8⟩ : Position ℝ) ⟨0, 3, some 2⟩ = 5 ∧
      Path.distance (⟨0, 3, some 2⟩ : Position ℝ) ⟨0, 0, some 0⟩ = 3 := by
  refine ⟨?_, ?_, ?_⟩
  · exact Path.distance_eq_of_sq (by norm_num) (by norm_num)
  · exact Path.distance_eq_of_sq (by norm_num) (by norm_num)
  · exact Path.distance_eq_of_sq (by norm_num) (by norm_num)

theorem passesFrom_triangle {p : Position ℝ} {s : ℝ} (h : Path.PassesFrom 0 p s triangle) :
    (∃ t, 0 ≤ t ∧ t ≤ 1 ∧ p.x = 4 * t ∧ p.y = 0 ∧ s = 4 * t) ∨
      (∃ t, 0 ≤ t ∧ t ≤ 1 ∧ p.x = 4 - 4 * t ∧ p.y = 3 * t ∧ s = 4 + 5 * t) ∨
      ∃ t, 0 ≤ t ∧ t ≤ 1 ∧ p.x = 0 ∧ p.y = 3 - 3 * t ∧ s = 9 + 3 * t := by
  obtain ⟨h1, h2, h3⟩ := sides_of_triangle
  rw [triangle_eq] at h
  simp only [Path.passesFrom_cons_cons, h1, h2, h3, Path.not_passesFrom_singleton, or_false] at h
  rcases h with ⟨t, ⟨h0, h1, hx, hy⟩, hs⟩ | ⟨t, ⟨h0, h1, hx, hy⟩, hs⟩ | ⟨t, ⟨h0, h1, hx, hy⟩, hs⟩
  · exact Or.inl ⟨t, h0, h1, by linarith, by linarith, by linarith⟩
  · exact Or.inr (Or.inl ⟨t, h0, h1, by linarith, by linarith, by linarith⟩)
  · exact Or.inr (Or.inr ⟨t, h0, h1, by linarith, by linarith, by linarith⟩)

theorem simple_triangle : Path.Simple triangle := by
  obtain ⟨h1, h2, h3⟩ := sides_of_triangle
  have htotal : Path.totalLength triangle = 12 := by
    rw [triangle_eq]
    simp only [h1, h2, h3, Path.totalLength]
    norm_num
  intro p s s' hs hs' hlt
  rw [htotal]
  rcases passesFrom_triangle hs with ⟨t, h0, h1, hx, hy, hs⟩ | ⟨t, h0, h1, hx, hy, hs⟩ |
    ⟨t, h0, h1, hx, hy, hs⟩
  all_goals
    rcases passesFrom_triangle hs' with ⟨u, h0', h1', hx', hy', hs'⟩ |
      ⟨u, h0', h1', hx', hy', hs'⟩ | ⟨u, h0', h1', hx', hy', hs'⟩
    all_goals constructor <;> linarith

/-- The triangle split on its way, and then at a position, on its way back and at its start. -/
theorem lines_rounds_of_triangle :
    (Geometry.linearRing triangle = .lineString triangle ∨
      Geometry.linearRing triangle = .linearRing triangle) ∧ Path.Simple triangle ∧
    (∀ p : Position ℝ,
      some p ∈ [some ⟨1, 0, none⟩, some ⟨4, 0, none⟩, some ⟨0, 2, none⟩, some ⟨0, 0, none⟩] ↔
        some p ∈ [some (⟨1, 0, none⟩ : Position ℝ), none] ∨
          some p ∈ [some (⟨4, 0, none⟩ : Position ℝ), some ⟨0, 2, none⟩, some ⟨0, 0, none⟩]) ∧
    ∃ (pieces : List (Path ℝ)) (rounds : List (List (Path ℝ))),
      lines barePlane (.linearRing triangle) (.multiPoint [some ⟨1, 0, none⟩, none]) 0 =
        .ok (.multiLineString pieces) ∧
      (pieces.mapM fun piece => lines barePlane (.lineString piece)
        (.multiPoint [some ⟨4, 0, none⟩, some ⟨0, 2, none⟩, some ⟨0, 0, none⟩]) 0) =
          .ok (rounds.map .multiLineString) ∧
      lines barePlane (.linearRing triangle) (.multiPoint
        [some ⟨1, 0, none⟩, some ⟨4, 0, none⟩, some ⟨0, 2, none⟩, some ⟨0, 0, none⟩]) 0 =
          .ok (.multiLineString rounds.flatten) ∧
      lines barePlane (.multiLineString pieces) (.multiPoint [some ⟨1, 0, none⟩, none]) 0 =
        .ok (.multiLineString pieces) := by
  have hboth : ∀ p : Position ℝ,
      some p ∈ [some ⟨1, 0, none⟩, some ⟨4, 0, none⟩, some ⟨0, 2, none⟩, some ⟨0, 0, none⟩] ↔
        some p ∈ [some (⟨1, 0, none⟩ : Position ℝ), none] ∨
          some p ∈ [some (⟨4, 0, none⟩ : Position ℝ), some ⟨0, 2, none⟩, some ⟨0, 0, none⟩] := by
    intro p
    simp
  exact ⟨Or.inr rfl, simple_triangle, hboth,
    lines_rounds barePlane _ triangle _ _ _ (Or.inr rfl) simple_triangle hboth⟩

end Geospatial.Split
