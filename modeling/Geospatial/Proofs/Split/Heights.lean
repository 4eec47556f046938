import Geospatial.Proofs.Geometry.Flat
import Geospatial.Proofs.Path.Flat
import Geospatial.Proofs.Split.Length

/-!
# Heights and where lines are split

Where the places that lines and linework have in common do not depend on heights, neither does where
the lines are split: splitting lines without their heights gives the pieces without their heights,
in the same order, whatever the numbers. The plane over doubles drops heights before it looks.
-/

namespace Geospatial

variable {α Net Plane : Type}

/-- A plane that looks at places only: of linework it has a part that heights play no part in, and
that part decides which places lines have in common with it. -/
structure PlanarKernel.Level (k : PlanarKernel α Net) (plane : Net → Plane) : Prop where
  net : ∀ {paths others : List (Path α)},
    paths.map (List.map Position.flat) = others.map (List.map Position.flat) →
      (k.net paths).map plane = (k.net others).map plane
  common : ∀ {c d : Geometry α} {m n : Net}, c.family = .ok .lineal → c.flat = d.flat →
    plane m = plane n → (k.common c m).map Geometry.flat = (k.common d n).map Geometry.flat

/-! ## The plane over doubles -/

namespace Planar

theorem pointsOf_flat (path : Path Float) : pointsOf (path.map Position.flat) = pointsOf path := by
  unfold pointsOf
  rw [List.map_map]
  rfl

theorem ofPolygon_flat (p : Polygon Float) : Region.ofPolygon p.flat = Region.ofPolygon p := by
  simp [Region.ofPolygon, Polygon.flat, pointsOf_flat, Function.comp_def]

theorem commonOf_flat (g : Geometry Float) (net : Planar.Net) :
    commonOf g.flat net = commonOf g net := by
  cases g with
  | lineString path => simp only [Geometry.flat, commonOf, pointsOf_flat]
  | linearRing path => simp only [Geometry.flat, commonOf, pointsOf_flat]
  | polygon p => simp only [Geometry.flat, commonOf, ofPolygon_flat]
  | _ => rfl

theorem kernel_level : kernel.Level id where
  net h := by
    have hpoints := congrArg (List.map pointsOf) h
    simp only [List.map_map, Function.comp_def, pointsOf_flat] at hpoints
    simp only [kernel, hpoints]
  common {c d m n} _ h hnet := by
    obtain rfl : m = n := hnet
    simp only [kernel]
    rw [← commonOf_flat c, h, commonOf_flat]

end Planar

/-! ## Blades -/

namespace Blade

def level (plane : Net → Plane) (blade : Blade α Net) : Blade α Plane :=
  ⟨blade.points.map Position.flat, blade.linework.map plane⟩

theorem pointOf_flat (g : Geometry α) : pointOf g.flat = (pointOf g).map Position.flat := by
  cases g with
  | point p => cases p <;> rfl
  | _ => rfl

theorem linesOf_flat (g : Geometry α) :
    linesOf g.flat = (linesOf g).map (List.map Position.flat) := by
  cases g with
  | polygon p => exact p.rings_flat
  | _ => rfl

theorem endsOf_flat (g : Geometry α) :
    endsOf g.flat = (endsOf g).map (List.map Position.flat) := by
  have hends : ∀ path : Path α,
      (path.map Position.flat).head?.toList ++ (path.map Position.flat).getLast?.toList =
        (path.head?.toList ++ path.getLast?.toList).map Position.flat := by
    intro path
    simp [Option.toList_map]
  cases g with
  | point p => cases p <;> rfl
  | lineString path => exact congrArg Except.ok (hends path)
  | linearRing path => exact congrArg Except.ok (hends path)
  | _ => rfl

def endsIn (common : Geometry α) : Except Failure (List (Position α)) :=
  (common.components.mapM endsOf).map List.flatten

theorem endsIn_flat (common : Geometry α) :
    endsIn common.flat = (endsIn common).map (List.map Position.flat) := by
  have hends : common.flat.components.mapM endsOf =
      (common.components.mapM endsOf).map (List.map (List.map Position.flat)) := by
    rw [Geometry.components_flat, List.mapM_map, ← mapM_map_result]
    exact mapM_congr fun c _ => endsOf_flat c
  unfold endsIn
  rw [hends]
  cases common.components.mapM endsOf with
  | error e => rfl
  | ok ends => exact congrArg Except.ok List.map_flatten.symm

theorem contacts_eq (k : PlanarKernel α Net) (c : Geometry α) (net : Net) :
    contacts k c net = k.common c net >>= endsIn := by
  unfold contacts endsIn
  cases k.common c net with
  | error e => rfl
  | ok common => cases common.components.mapM endsOf <;> rfl

def lineworkOf (k : PlanarKernel α Net) : List (Path α) → Except Failure (Option Net)
  | [] => .ok none
  | lines => (k.net lines).map some

theorem ofGeometry_eq (k : PlanarKernel α Net) (g : Geometry α) :
    ofGeometry k g = (lineworkOf k (g.components.flatMap linesOf)).map
      (Blade.mk (g.components.flatMap pointOf)) := by
  unfold ofGeometry
  cases g.components.flatMap linesOf with
  | nil => rfl
  | cons path rest =>
      simp only [lineworkOf]
      cases k.net (path :: rest) <;> rfl

theorem level_mk (plane : Net → Plane) (points : List (Position α))
    (linework : Except Failure (Option Net)) :
    (linework.map (Blade.mk points)).map (level plane) =
      (linework.map (Option.map plane)).map (Blade.mk (points.map Position.flat)) := by
  cases linework <;> rfl

section Level

variable {k : PlanarKernel α Net} {plane : Net → Plane} (hk : k.Level plane)

include hk

theorem lineworkOf_flat (lines : List (Path α)) :
    (lineworkOf k (lines.map (List.map Position.flat))).map (Option.map plane) =
      (lineworkOf k lines).map (Option.map plane) := by
  cases lines with
  | nil => rfl
  | cons path rest =>
      have htwice : ((path :: rest).map (List.map Position.flat)).map (List.map Position.flat) =
          (path :: rest).map (List.map Position.flat) := by
        simp [Function.comp_def]
      have hnet := hk.net htwice
      have hsome : ∀ net : Except Failure Net,
          (net.map some).map (Option.map plane) = (net.map plane).map some := by
        intro net
        cases net <;> rfl
      change ((k.net _).map some).map _ = ((k.net _).map some).map _
      rw [hsome, hsome]
      exact congrArg (Except.map some) hnet

theorem ofGeometry_flat (g : Geometry α) :
    (ofGeometry k g.flat).map (level plane) = (ofGeometry k g).map (level plane) := by
  rw [ofGeometry_eq, ofGeometry_eq, Geometry.flatMap_components_flat pointOf_flat,
    Geometry.flatMap_components_flat linesOf_flat, level_mk, level_mk, lineworkOf_flat hk]
  simp [Function.comp_def]

/-- The positions where a line touches linework depend on heights in their own heights only. -/
theorem contacts_flat {c d : Geometry α} {m n : Net} (hline : c.family = .ok .lineal)
    (hflat : c.flat = d.flat) (hplane : plane m = plane n) :
    (contacts k c m).map (List.map Position.flat) =
      (contacts k d n).map (List.map Position.flat) := by
  have hcontacts : ∀ (c : Geometry α) (net : Net),
      (contacts k c net).map (List.map Position.flat) =
        (k.common c net).map Geometry.flat >>= endsIn := by
    intro c net
    rw [contacts_eq]
    cases k.common c net with
    | error e => rfl
    | ok common => exact (endsIn_flat common).symm
  rw [hcontacts, hcontacts, hk.common hline hflat hplane]

theorem cutPositions_flat {blade other : Blade α Net} {c d : Geometry α}
    (hline : c.family = .ok .lineal) (hflat : c.flat = d.flat)
    (hblade : blade.level plane = other.level plane) :
    (blade.cutPositions k c).map (List.map Position.flat) =
      (other.cutPositions k d).map (List.map Position.flat) := by
  obtain ⟨points, linework⟩ := blade
  obtain ⟨points', linework'⟩ := other
  obtain ⟨hpoints, hlinework⟩ := Blade.mk.inj hblade
  change points.map Position.flat = points'.map Position.flat at hpoints
  change linework.map plane = linework'.map plane at hlinework
  cases linework with
  | none =>
      rw [Option.map_none, eq_comm, Option.map_eq_none_iff] at hlinework
      subst hlinework
      exact congrArg Except.ok hpoints
  | some m =>
      obtain ⟨n, rfl, hplane⟩ := Option.map_eq_some_iff.mp hlinework.symm
      have hcut : ∀ (points : List (Position α)) (c : Geometry α) (net : Net),
          (cutPositions k ⟨points, some net⟩ c).map (List.map Position.flat) =
            ((contacts k c net).map (List.map Position.flat)).map
              (points.map Position.flat ++ ·) := by
        intro points c net
        simp only [cutPositions]
        cases contacts k c net with
        | error e => rfl
        | ok found => exact congrArg Except.ok List.map_append
      rw [hcut, hcut, contacts_flat hk hline hflat hplane.symm, hpoints]

end Level

end Blade

/-! ## Pieces -/

namespace Split

variable [Add α] [Sub α] [Mul α] [Div α] [Neg α] [OfNat α 0] [OfNat α 1] [LT α] [LE α]
  [DecidableLT α] [DecidableLE α] [BEq α] [Root α]

theorem piecesOfPath_eq (k : PlanarKernel α Net) (blade : Blade α Net) (tolerance : α)
    {c : Geometry α} {path : Path α} (hpath : pathOf c = .ok path) :
    piecesOfPath k blade tolerance c =
      ((blade.cutPositions k c).map (List.map Position.flat)).map fun points =>
        Path.splitAt path points tolerance := by
  unfold piecesOfPath
  rw [hpath]
  cases blade.cutPositions k c with
  | error e => rfl
  | ok points => exact congrArg Except.ok (Path.splitAt_flat_points path points tolerance).symm

section Level

variable {k : PlanarKernel α Net} {plane : Net → Plane} (hk : k.Level plane)

include hk

/-- A line without its heights has its pieces, each without its heights. -/
theorem piecesOfPath_flat {blade other : Blade α Net} (tolerance : α) {c : Geometry α}
    (hline : c.family = .ok .lineal) (hblade : blade.level plane = other.level plane) :
    piecesOfPath k other tolerance c.flat =
      (piecesOfPath k blade tolerance c).map (List.map (List.map Position.flat)) := by
  obtain ⟨hpath, hflat⟩ : pathOf c = .ok c.evenPositions ∧
      pathOf c.flat = .ok c.flat.evenPositions := by
    cases c with
    | point p => cases hline
    | _ => exact ⟨rfl, rfl⟩
  rw [Geometry.evenPositions_flat] at hflat
  rw [piecesOfPath_eq k other tolerance hflat, piecesOfPath_eq k blade tolerance hpath,
    Blade.cutPositions_flat hk hline c.flat_flat.symm hblade]
  cases other.cutPositions k c.flat with
  | error e => rfl
  | ok points => exact congrArg Except.ok (Path.splitAt_flat _ _ tolerance)

theorem pieces_flat {blade other : Blade α Net} (tolerance : α) {target : Geometry α}
    (htarget : target.family = .ok .lineal) (hblade : blade.level plane = other.level plane) :
    target.flat.components.mapM (piecesOfPath k other tolerance) =
      (target.components.mapM (piecesOfPath k blade tolerance)).map
        (List.map (List.map (List.map Position.flat))) := by
  rw [Geometry.components_flat, List.mapM_map, ← mapM_map_result]
  refine mapM_congr fun c hc => piecesOfPath_flat hk tolerance ?_ hblade
  exact Geometry.family_of_mem_components htarget (by decide) hc

end Level

/-- Lines that are split without their heights, by a blade without heights, have their pieces, in
their order and each without its heights. -/
theorem lines_flat {k : PlanarKernel α Net} {plane : Net → Plane} (hk : k.Level plane)
    {target : Geometry α} (htarget : target.family = .ok .lineal) (blade : Geometry α)
    (tolerance : α) :
    (lines k target blade tolerance).map Geometry.flat =
      lines k target.flat blade.flat tolerance := by
  have hread := Geometry.readable_eq (isUnknown_of_family htarget)
  unfold lines
  rw [Geometry.readable_flat, Geometry.readable_flat, hread]
  cases blade.readable with
  | error e => rfl
  | ok blade =>
      simp only [bind, Except.bind, Except.map]
      rcases results_of_map_eq (Blade.ofGeometry_flat hk blade) with
        ⟨e, hflat, hparts⟩ | ⟨other, parts, hflat, hparts, hlevel⟩
      · rw [hflat, hparts]
      · simp only [hflat, hparts, pieces_flat hk tolerance htarget hlevel.symm]
        cases target.components.mapM (piecesOfPath k parts tolerance) with
        | error e => rfl
        | ok pieces => simp [Except.map, Geometry.flat, pure, Except.pure, List.map_flatten]

def slantedLines : Geometry Float :=
  .collection [.lineString [⟨0, 0, some 0⟩, ⟨4, 0, some 8⟩],
    .collection [.multiLineString [[⟨0, -1, none⟩, ⟨2, 1, none⟩],
      [⟨1, 0, some 2⟩, ⟨1, 0, some 6⟩]]]]

def slantedBlade : Geometry Float :=
  .collection [.point (some ⟨1, 0, some 7⟩), .lineString [⟨3, -1, some 2⟩, ⟨3, 1, some 6⟩]]

theorem lines_flat_of_slanted :
    Planar.kernel.Level id ∧ slantedLines.family = .ok .lineal ∧
      (lines Planar.kernel slantedLines slantedBlade 0.125).map Geometry.flat =
        lines Planar.kernel slantedLines.flat slantedBlade.flat 0.125 :=
  ⟨Planar.kernel_level, rfl, lines_flat Planar.kernel_level rfl slantedBlade 0.125⟩

end Split

end Geospatial
