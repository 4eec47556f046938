import Geospatial.Proofs.Path.Detour
import Geospatial.Proofs.Split.Lines

/-!
# Splitting keeps lengths

Without tolerance the pieces of a path are together exactly as long as the path. So a geometry of
lines keeps its length when it is split, however many lines it has and wherever the plane has them
touch the blade.
-/

namespace Geospatial.Split

variable {α Net : Type}

/-- The plane answers what splitting the lines of a target with a blade asks of it. -/
def Answers (k : PlanarKernel α Net) (target blade : Geometry α) : Prop :=
  ∃ parts, Blade.ofGeometry k blade = .ok parts ∧
    ∀ c ∈ target.components, ∃ points, parts.cutPositions k c = .ok points

/-- A blade of points asks nothing of the plane. -/
theorem answers_of_puntal (k : PlanarKernel α Net) (target : Geometry α) {blade : Geometry α}
    (h : blade.family = .ok .puntal) : Answers k target blade := by
  have hlines : blade.components.flatMap Blade.linesOf = [] := by
    refine List.flatMap_eq_nil_iff.mpr fun c hc => ?_
    have hfamily := Geometry.family_of_mem_components h (by decide) hc
    obtain ⟨p, rfl⟩ := (Geometry.isComponent_of_mem hc).of_puntal hfamily
    rfl
  refine ⟨⟨blade.components.flatMap Blade.pointOf, none⟩, ?_, fun c _ => ⟨_, rfl⟩⟩
  unfold Blade.ofGeometry
  rw [hlines]
  rfl

theorem pathOf_of_lineal [Div α] [OfNat α 0] {target : Geometry α}
    (h : target.family = .ok .lineal) :
    ∀ c ∈ target.components, pathOf c = .ok c.evenPositions := by
  intro c hc
  have hfamily := Geometry.family_of_mem_components h (by decide) hc
  obtain ⟨path, rfl | rfl⟩ := (Geometry.isComponent_of_mem hc).of_lineal hfamily
  · rfl
  · rfl

theorem isUnknown_of_family {g : Geometry α} {f : Family} (h : g.family = .ok f) :
    g.isUnknown = false := by
  cases g with
  | unknown name => cases h
  | _ => rfl

/-- Lines are split whenever the plane answers. -/
theorem exists_lines [Add α] [Sub α] [Mul α] [Div α] [Neg α] [OfNat α 0] [OfNat α 1] [LT α] [LE α]
    [DecidableLT α] [DecidableLE α] [BEq α] [Root α] (k : PlanarKernel α Net)
    {target blade : Geometry α} (tolerance : α) (htarget : target.family = .ok .lineal)
    (hblade : blade.isUnknown = false) (hanswers : Answers k target blade) :
    ∃ points : Geometry α → List (Position α), lines k target blade tolerance =
      .ok (.multiLineString (target.components.flatMap fun c =>
        Path.splitAt c.evenPositions (points c) tolerance)) := by
  obtain ⟨parts, hparts, hpoints⟩ := hanswers
  choose! points hpoints using hpoints
  exact ⟨points, lines_eq k tolerance (isUnknown_of_family htarget) hblade hparts
    (pathOf_of_lineal htarget) hpoints⟩

noncomputable def lineLength (g : Geometry ℝ) : ℝ :=
  (g.components.map fun c => Path.totalLength c.positions).sum

theorem totalLength_evenPositions (g : Geometry ℝ) :
    Path.totalLength g.evenPositions = Path.totalLength g.positions := by
  unfold Geometry.evenPositions
  split
  · refine Path.totalLength_map (fun p => ?_) g.positions
    exact ⟨rfl, rfl⟩
  · rfl

/-- The pieces of a path measure what it measures, up to the detours to the cuts; and a geometry of
lines is as long as what it is split into without tolerance. -/
theorem split_keeps_length (k : PlanarKernel ℝ Net) :
    (∀ (path : Path ℝ) (points : List (Position ℝ)) (tolerance : ℝ), 0 ≤ tolerance →
      Path.Measures path points tolerance) ∧
    ∀ (target blade : Geometry ℝ) (numeral : Numeral), target.family = .ok .lineal →
      blade.isUnknown = false → Answers k target blade →
        ∃ pieces, split k target blade ⟨0, numeral⟩ = .ok (some (.multiLineString pieces)) ∧
          (pieces.map Path.totalLength).sum = lineLength target := by
  refine ⟨fun path points tolerance => Path.splitAt_measures path points, ?_⟩
  intro target blade numeral htarget hblade hanswers
  obtain ⟨points, hlines⟩ := exists_lines k 0 htarget hblade hanswers
  refine ⟨target.components.flatMap fun c => Path.splitAt c.evenPositions (points c) 0, ?_, ?_⟩
  · unfold split
    rw [if_neg (lt_irrefl _), htarget]
    simp only [bind, Except.bind, hlines]
    rfl
  · rw [List.map_flatMap, List.flatMap_def, List.sum_flatten, List.map_map, lineLength]
    refine congrArg List.sum (List.map_congr_left fun c _ => ?_)
    exact (Path.sum_splitAt_zero _ _).trans (totalLength_evenPositions c)

noncomputable def turn : Path ℝ := planePath [(0, 0), (4, 0), (4, 3)]

noncomputable def nestedLines : Geometry ℝ :=
  .collection [.lineString turn,
    .collection [.multiLineString [spacePath [(0, 0, 0), (2, 0, 4)], []]]]

/-- A turn with a point beside its way, and lines with a point on them. -/
theorem split_keeps_length_of_nested :
    ((0 : ℝ) ≤ 1 / 8 ∧ Path.Measures turn [⟨1, 1 / 8, none⟩] (1 / 8)) ∧
    nestedLines.family = .ok .lineal ∧
    Answers barePlane nestedLines (.multiPoint [some ⟨1, 0, none⟩]) ∧
    ∃ pieces, split barePlane nestedLines (.multiPoint [some ⟨1, 0, none⟩]) ⟨0, .integer 0⟩ =
        .ok (some (.multiLineString pieces)) ∧
      (pieces.map Path.totalLength).sum = lineLength nestedLines := by
  have htol : (0 : ℝ) ≤ 1 / 8 := by norm_num
  have hanswers : Answers barePlane nestedLines (.multiPoint [some ⟨1, 0, none⟩]) :=
    answers_of_puntal _ _ rfl
  obtain ⟨hpath, hsplit⟩ := split_keeps_length barePlane
  exact ⟨⟨htol, hpath _ _ _ htol⟩, rfl, hanswers, hsplit _ _ _ rfl rfl hanswers⟩

end Geospatial.Split
