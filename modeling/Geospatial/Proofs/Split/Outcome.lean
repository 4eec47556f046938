import Geospatial.Proofs.Geometry.Rebuilding
import Geospatial.Proofs.Split.Length

/-!
# What splitting gives

The families of target and blade decide what splitting gives: lines for lines, areas for areas that
lines or areas cut, and nothing for all others. Where the plane answers, splitting succeeds. Every
line has at least one piece, and its pieces join positions that have heights as the line has.
-/

namespace Geospatial

variable {α Net : Type}

/-- A plane that answers. What lines and linework have in common are points and lines. -/
structure PlanarKernel.Replies (k : PlanarKernel α Net) : Prop where
  net : ∀ paths, ∃ net, k.net paths = .ok net
  common : ∀ line net, line.family = .ok .lineal → ∃ common, k.common line net = .ok common ∧
    ∀ part ∈ common.components, part.family = .ok .puntal ∨ part.family = .ok .lineal
  faces : ∀ area net, ∃ faces, k.faces (.polygon area) net = .ok faces

/-- The plane over doubles finds nothing else that components and linework have in common. -/
theorem Planar.common_parts {component common : Geometry Float} {net : Planar.Net}
    (h : Planar.kernel.common component net = .ok common) :
    ∀ part ∈ common.components, part.family = .ok .puntal ∨ part.family = .ok .lineal := by
  obtain ⟨shared, -, rfl⟩ : ∃ shared, commonOf component net = .ok shared ∧
      shared.toGeometry = common := by
    cases hshared : commonOf component net with
    | error e =>
        simp only [kernel, hshared] at h
        cases h
    | ok shared =>
        simp only [kernel, hshared] at h
        exact ⟨shared, rfl, Except.ok.inj h⟩
  intro part hpart
  rw [Common.toGeometry, Geometry.components_collection] at hpart
  obtain ⟨whole, hwhole, hpart⟩ := List.mem_flatMap.mp hpart
  rcases List.mem_append.mp hwhole with hline | hpoint
  · obtain ⟨edge, -, rfl⟩ := List.mem_map.mp hline
    exact Or.inr (Geometry.family_of_mem_components rfl (by decide) hpart)
  · obtain ⟨p, -, rfl⟩ := List.mem_map.mp hpoint
    exact Or.inl (Geometry.family_of_mem_components rfl (by decide) hpart)

/-! ## Pieces of a path -/

namespace Path

variable {path piece : Path ℝ} {points : List (Position ℝ)} {tolerance : ℝ}

/-- A path with cuts has length, and so have its pieces together. -/
theorem splitAt_ne_nil (htol : 0 ≤ tolerance) : splitAt path points tolerance ≠ [] := by
  by_cases hcuts : cuts path points tolerance = []
  · rw [splitAt_of_no_cuts _ _ _ hcuts]
    exact List.cons_ne_nil _ _
  · intro hnil
    obtain ⟨cut, hcut⟩ := List.exists_mem_of_ne_nil _ hcuts
    obtain ⟨hstart, hstop⟩ := mem_cuts_bounds htol hcut
    have hle := (splitAt_measures path points htol).le_sum
    rw [hnil, List.map_nil, List.sum_nil] at hle
    linarith

theorem two_le_length_of_mem_splitAt (hpath : 2 ≤ path.length)
    (hpiece : piece ∈ splitAt path points tolerance) : 2 ≤ piece.length := by
  by_cases hcuts : cuts path points tolerance = []
  · rw [splitAt_of_no_cuts _ _ _ hcuts, List.mem_singleton] at hpiece
    rwa [hpiece]
  · rw [splitAt_of_cuts _ _ _ hcuts] at hpiece
    exact (hasLength_iff.mp (List.mem_filter.mp hpiece).2).1

end Path

/-! ## Answers of the plane -/

namespace Split

variable {k : PlanarKernel α Net}

theorem exists_parts (hk : k.Replies) (blade : Geometry α) :
    ∃ parts, Blade.ofGeometry k blade = .ok parts := by
  unfold Blade.ofGeometry
  cases blade.components.flatMap Blade.linesOf with
  | nil => exact ⟨_, rfl⟩
  | cons path rest =>
      obtain ⟨net, hnet⟩ := hk.net (path :: rest)
      simp only [hnet]
      exact ⟨_, rfl⟩

theorem exists_contacts (hk : k.Replies) {line : Geometry α} (hline : line.family = .ok .lineal)
    (net : Net) : ∃ points, Blade.contacts k line net = .ok points := by
  obtain ⟨common, hcommon, hparts⟩ := hk.common line net hline
  have hends : ∀ part ∈ common.components, ∃ ends, Blade.endsOf part = .ok ends := by
    intro part hpart
    have hpart' := Geometry.isComponent_of_mem hpart
    rcases hparts part hpart with hpoint | hpath
    · obtain ⟨p, rfl⟩ := hpart'.of_puntal hpoint
      exact ⟨_, rfl⟩
    · obtain ⟨path, rfl | rfl⟩ := hpart'.of_lineal hpath
      · exact ⟨_, rfl⟩
      · exact ⟨_, rfl⟩
  choose! ends hends using hends
  unfold Blade.contacts
  simp only [hcommon, bind, Except.bind, mapM_ok hends]
  exact ⟨_, rfl⟩

theorem answers_of_lineal (hk : k.Replies) {target : Geometry α} (blade : Geometry α)
    (htarget : target.family = .ok .lineal) : Answers k target blade := by
  obtain ⟨parts, hparts⟩ := exists_parts hk blade
  refine ⟨parts, hparts, fun c hc => ?_⟩
  have hline := Geometry.family_of_mem_components htarget (by decide) hc
  unfold Blade.cutPositions
  cases parts.linework with
  | none => exact ⟨_, rfl⟩
  | some net =>
      obtain ⟨points, hpoints⟩ := exists_contacts hk hline net
      simp only [hpoints]
      exact ⟨_, rfl⟩

def areasOf (k : PlanarKernel α Net) (blade : Blade α Net) : Geometry α →
    Except Failure (List (Polygon α))
  | .polygon area =>
    match blade.linework with
    | some net => facesInside k net (.polygon area)
    | none => .ok [area]
  | _ => .ok []

theorem piecesOfArea_polygon (k : PlanarKernel α Net) (parts : Blade α Net) (area : Polygon α) :
    piecesOfArea k parts (.polygon area) =
      (areasOf k parts (.polygon area)).map (List.map .polygon) := by
  unfold piecesOfArea areasOf
  cases parts.linework with
  | none => rfl
  | some net => cases facesInside k net (.polygon area) <;> rfl

theorem polygons_of_cutting (k : PlanarKernel α Net) (target : Geometry α) {blade : Geometry α}
    {b : Family} (hblade : blade.family = .ok b) (hb : b = .lineal ∨ b = .polygonal) :
    polygons k target blade = (do
      let parts ← Blade.ofGeometry k blade
      let pieces ← (← target.readable).components.mapM (piecesOfArea k parts)
      return some (← Geometry.assemble .polygonal pieces.flatten)) := by
  unfold polygons
  rw [hblade]
  rcases hb with rfl | rfl
  · rfl
  · rfl

/-- Every component of a target is cut into areas of its own. -/
theorem polygons_eq (k : PlanarKernel α Net) {target blade : Geometry α} {b : Family}
    {parts : Blade α Net} (htarget : target.family = .ok .polygonal)
    (hblade : blade.family = .ok b) (hb : b = .lineal ∨ b = .polygonal)
    (hparts : Blade.ofGeometry k blade = .ok parts) :
    polygons k target blade = (target.components.mapM (areasOf k parts)).map fun areas =>
      some (.multiPolygon (areas.flatten.filter fun area => !area.isEmpty)) := by
  have hpieces : target.components.mapM (piecesOfArea k parts) =
      (target.components.mapM (areasOf k parts)).map (List.map (List.map .polygon)) := by
    rw [← mapM_map_result]
    refine mapM_congr fun c hc => ?_
    have harea := Geometry.family_of_mem_components htarget (by decide) hc
    obtain ⟨area, rfl, -⟩ := (Geometry.isComponent_of_mem hc).of_polygonal harea
    exact piecesOfArea_polygon k parts area
  rw [polygons_of_cutting k target hblade hb, hparts,
    Geometry.readable_eq (isUnknown_of_family htarget)]
  simp only [bind, Except.bind, hpieces]
  cases target.components.mapM (areasOf k parts) with
  | error e => rfl
  | ok areas =>
      simp only [Except.map, ← List.map_flatten, Geometry.assemble_areas, pure, Except.pure]

theorem exists_polygons (hk : k.Replies) {target blade : Geometry α} {b : Family}
    (htarget : target.family = .ok .polygonal) (hblade : blade.family = .ok b)
    (hb : b = .lineal ∨ b = .polygonal) :
    ∃ areas, polygons k target blade = .ok (some (.multiPolygon areas)) := by
  obtain ⟨parts, hparts⟩ := exists_parts hk blade
  have hareas : ∀ c, ∃ areas, areasOf k parts c = .ok areas := by
    intro c
    unfold areasOf
    split
    · split
      · rename_i area _ net _
        obtain ⟨faces, hfaces⟩ := hk.faces area net
        unfold facesInside
        rw [hfaces]
        exact ⟨_, rfl⟩
      · exact ⟨_, rfl⟩
    · exact ⟨_, rfl⟩
  choose areas hareas using hareas
  rw [polygons_eq k htarget hblade hb hparts, mapM_ok fun c _ => hareas c]
  exact ⟨_, rfl⟩

theorem polygons_of_other (k : PlanarKernel α Net) (target : Geometry α) {blade : Geometry α}
    {b : Family} (hblade : blade.family = .ok b) (hb : ¬(b = .lineal ∨ b = .polygonal)) :
    polygons k target blade = .ok none := by
  unfold polygons
  rw [hblade]
  cases b with
  | lineal => exact absurd (Or.inl rfl) hb
  | polygonal => exact absurd (Or.inr rfl) hb
  | puntal => rfl
  | mixed => rfl

/-! ## The outcome -/

section Dispatch

variable [Add α] [Sub α] [Mul α] [Div α] [Neg α] [OfNat α 0] [OfNat α 1] [LT α] [LE α]
  [DecidableLT α] [DecidableLE α] [BEq α] [Root α]

variable (k : PlanarKernel α Net) {target : Geometry α} (blade : Geometry α) {tolerance : Given α}
  (htol : ¬tolerance.value < 0)

include htol

theorem split_of_lineal (h : target.family = .ok .lineal) : split k target blade tolerance =
    (lines k target blade tolerance.value).map some := by
  unfold split
  rw [if_neg htol, h]
  rfl

theorem split_of_polygonal (h : target.family = .ok .polygonal) :
    split k target blade tolerance = polygons k target blade := by
  unfold split
  rw [if_neg htol, h]
  rfl

theorem split_of_other {f : Family} (h : target.family = .ok f) (hlineal : f ≠ .lineal)
    (hpolygonal : f ≠ .polygonal) : split k target blade tolerance = .ok none := by
  unfold split
  rw [if_neg htol, h]
  cases f with
  | lineal => exact absurd rfl hlineal
  | polygonal => exact absurd rfl hpolygonal
  | puntal => rfl
  | mixed => rfl

end Dispatch

structure PiecesOf (line : Geometry ℝ) (pieces : List (Path ℝ)) : Prop where
  nonempty : pieces ≠ []
  joins : ∀ piece ∈ pieces, 2 ≤ piece.length
  heights : ∀ piece ∈ pieces, ∀ q ∈ piece, q.hasHeight = line.hasHeight

/-- What splitting a target of family `f` with a blade of family `b` gives. -/
structure Outcome (target : Geometry ℝ) (tolerance : ℝ) (f b : Family)
    (result : Option (Geometry ℝ)) : Prop where
  lines : (∃ paths, result = some (.multiLineString paths)) ↔ f = .lineal
  areas : (∃ areas, result = some (.multiPolygon areas)) ↔
    f = .polygonal ∧ (b = .lineal ∨ b = .polygonal)
  none : result = none ↔ f ≠ .lineal ∧ ¬(f = .polygonal ∧ (b = .lineal ∨ b = .polygonal))
  family : ∀ g, result = some g → g.family = .ok f
  /-- Every line is cut on its own, at some points. -/
  pieces : ∀ paths, result = some (.multiLineString paths) →
    ∃ points : Geometry ℝ → List (Position ℝ),
      paths = target.components.flatMap (fun c =>
        Path.splitAt c.evenPositions (points c) tolerance) ∧
      ∀ c ∈ target.components, PiecesOf c (Path.splitAt c.evenPositions (points c) tolerance)

theorem piecesOf_splitAt {target c : Geometry ℝ} {tolerance : ℝ} (htol : 0 ≤ tolerance)
    (htarget : target.Drawn) (hfamily : target.family = .ok .lineal) (hc : c ∈ target.components)
    (points : List (Position ℝ)) : PiecesOf c (Path.splitAt c.evenPositions points tolerance) := by
  have hline := Geometry.family_of_mem_components hfamily (by decide) hc
  have hlen : 2 ≤ c.evenPositions.length := by
    rw [Geometry.length_evenPositions]
    exact htarget.joins c hc hline
  refine ⟨Path.splitAt_ne_nil htol, fun piece hpiece => ?_, fun piece hpiece q hq => ?_⟩
  · exact Path.two_le_length_of_mem_splitAt hlen hpiece
  · exact Path.hasHeight_of_mem_splitAt (fun p hp => Geometry.hasHeight_of_mem_evenPositions hp)
      hpiece hq

section Outcome

variable {target : Geometry ℝ} {tolerance : ℝ} {f b : Family}

theorem outcome_lines {points : Geometry ℝ → List (Position ℝ)} (h : ∀ c ∈ target.components,
      PiecesOf c (Path.splitAt c.evenPositions (points c) tolerance)) :
    Outcome target tolerance .lineal b (some (.multiLineString (target.components.flatMap fun c =>
      Path.splitAt c.evenPositions (points c) tolerance))) := by
  refine ⟨by simp, by simp, by simp, fun g hg => ?_, fun paths hpaths => ?_⟩
  · obtain rfl := Option.some.inj hg
    rfl
  · obtain rfl := Geometry.multiLineString.inj (Option.some.inj hpaths)
    exact ⟨points, rfl, h⟩

theorem outcome_areas (hb : b = .lineal ∨ b = .polygonal) (areas : List (Polygon ℝ)) :
    Outcome target tolerance .polygonal b (some (.multiPolygon areas)) := by
  refine ⟨by simp, by simpa using hb, by simp [hb], fun g hg => ?_, by simp⟩
  obtain rfl := Option.some.inj hg
  rfl

theorem outcome_none (hlineal : f ≠ .lineal)
    (hpolygonal : ¬(f = .polygonal ∧ (b = .lineal ∨ b = .polygonal))) :
    Outcome target tolerance f b none :=
  ⟨by simpa using hlineal, by simpa using hpolygonal, by simp [hlineal, hpolygonal], by simp,
    by simp⟩

end Outcome

/-- The families decide what splitting gives; it fails on no geometries that can be built. -/
theorem split_gives {k : PlanarKernel ℝ Net} (hk : k.Replies) {target blade : Geometry ℝ}
    (tolerance : Given ℝ) (htol : 0 ≤ tolerance.value) (htarget : target.Drawn)
    (hblade : blade.Formed) :
    ∃ f b result, target.family = .ok f ∧ blade.family = .ok b ∧
      split k target blade tolerance = .ok result ∧
      Outcome target tolerance.value f b result := by
  obtain ⟨f, hf⟩ := htarget.formed.exists_family
  obtain ⟨b, hb⟩ := hblade.exists_family
  have htol' : ¬tolerance.value < 0 := not_lt.mpr htol
  cases f with
  | lineal =>
      obtain ⟨points, hlines⟩ := exists_lines k tolerance.value hf hblade.isUnknown_eq
        (answers_of_lineal hk blade hf)
      have hsplit := split_of_lineal k blade htol' hf
      rw [hlines] at hsplit
      exact ⟨.lineal, b, _, hf, hb, hsplit, outcome_lines fun c hc =>
        piecesOf_splitAt htol htarget hf hc (points c)⟩
  | polygonal =>
      have hsplit := split_of_polygonal k blade htol' hf
      by_cases hcuts : b = .lineal ∨ b = .polygonal
      · obtain ⟨areas, hareas⟩ := exists_polygons hk hf hb hcuts
        exact ⟨.polygonal, b, _, hf, hb, hsplit.trans hareas, outcome_areas hcuts areas⟩
      · exact ⟨.polygonal, b, none, hf, hb, hsplit.trans (polygons_of_other k target hb hcuts),
          outcome_none (by decide) fun h => hcuts h.2⟩
  | puntal =>
      exact ⟨.puntal, b, none, hf, hb, split_of_other k blade htol' hf (by decide) (by decide),
        outcome_none (by decide) fun h => absurd h.1 (by decide)⟩
  | mixed =>
      exact ⟨.mixed, b, none, hf, hb, split_of_other k blade htol' hf (by decide) (by decide),
        outcome_none (by decide) fun h => absurd h.1 (by decide)⟩

noncomputable def crossingLine : Geometry ℝ := .lineString (planePath [(1, -2), (1, 2)])

/-- A plane in which linework crosses every line at one place, half way up where there are
heights. -/
noncomputable def crossedPlane : PlanarKernel ℝ Unit where
  net _ := .ok ()
  common line _ :=
    .ok (.ofPoints (if line.hasHeight then spacePath [(1, 0, 2)] else planePath [(1, 0)]))
  faces _ _ := .ok []
  innerPoint area := area.shell.headD ⟨0, 0, none⟩
  holds _ _ := false

theorem crossedPlane_replies : crossedPlane.Replies where
  net _ := ⟨(), rfl⟩
  common line _ _ := by
    refine ⟨_, rfl, fun part hpart => Or.inl ?_⟩
    exact Geometry.family_of_mem_components rfl (by decide) hpart
  faces _ _ := ⟨[], rfl⟩

theorem nestedLines_drawn : nestedLines.Drawn where
  formed := by
    refine .collection fun part hpart => ?_
    rcases List.mem_pair.mp hpart with rfl | rfl
    · exact .lineString turn
    · refine .collection fun part hpart => ?_
      obtain rfl := List.mem_singleton.mp hpart
      exact .multiLineString _
  joins c hc _ := by
    have hcomponents : nestedLines.components =
        [.lineString turn, .lineString (spacePath [(0, 0, 0), (2, 0, 4)])] := by
      simp [nestedLines, turn, planePath, spacePath, Geometry.components,
        Geometry.componentsOfParts]
    rw [hcomponents] at hc
    rcases List.mem_pair.mp hc with rfl | rfl
    · simp [Geometry.positions, turn, planePath]
    · simp [Geometry.positions, spacePath]

/-- Nested lines in the plane and in space, crossed by a line. -/
theorem split_gives_nested :
    crossedPlane.Replies ∧ (0 : ℝ) ≤ 1 / 8 ∧ nestedLines.Drawn ∧
    crossingLine.Formed ∧
    ∃ result, split crossedPlane nestedLines crossingLine ⟨1 / 8, .real 0.125⟩ = .ok result ∧
      Outcome nestedLines (1 / 8) .lineal .lineal result := by
  have htol : (0 : ℝ) ≤ 1 / 8 := by norm_num
  have hblade : crossingLine.Formed := .lineString _
  obtain ⟨f, b, result, hf, hb, hsplit, houtcome⟩ := split_gives crossedPlane_replies
    ⟨1 / 8, .real 0.125⟩ htol nestedLines_drawn hblade
  obtain rfl : Family.lineal = f := Except.ok.inj hf
  obtain rfl : Family.lineal = b := Except.ok.inj hb
  exact ⟨crossedPlane_replies, htol, nestedLines_drawn, hblade, result, hsplit, houtcome⟩

end Split

end Geospatial
