import Geospatial.Proofs.Cell.Union

/-!
# Cells of one level

The cell of the finest level at a position is found by its face and its number along the curve, so
that it is a cell wherever it lies, and its ancestors are cells. With the cells that a search finds
these make a covering a list of cells of the level asked for, in order, that holds the cells of all
positions.
-/

namespace Geospatial

/-! ## Cells of the finest level -/

namespace Curve

theorem rankOf_lt (orientation quarter : Nat) : rankOf orientation quarter < 4 := by
  have hlength : (quarters.getD orientation []).length ≤ 4 := by
    have hall : ∀ order ∈ quarters, order.length ≤ 4 := by decide
    rw [List.getD_eq_getElem?_getD]
    cases horder : quarters[orientation]? with
    | none => exact Nat.zero_le 4
    | some order => exact hall order (List.mem_of_getElem? horder)
  unfold rankOf
  cases hfind : (quarters.getD orientation []).findIdx? (· == quarter) with
  | none => decide
  | some rank =>
      obtain ⟨hlt, -⟩ := List.findIdx?_eq_some_iff_getElem.mp hfind
      exact hlt.trans_le hlength

/-- A number that grows by one digit of four at each place. -/
theorem foldl_lt (step : Nat × Nat → Nat → Nat × Nat)
    (hstep : ∀ state k, (step state k).2 < 4 * (state.2 + 1)) (places : List Nat)
    (state : Nat × Nat) :
    (places.foldl step state).2 < (state.2 + 1) * 4 ^ places.length := by
  induction places generalizing state with
  | nil => simp
  | cons k rest ih =>
      calc (rest.foldl step (step state k)).2
          < ((step state k).2 + 1) * 4 ^ rest.length := ih _
        _ ≤ 4 * (state.2 + 1) * 4 ^ rest.length := Nat.mul_le_mul_right _ (hstep state k)
        _ = (state.2 + 1) * 4 ^ (k :: rest).length := by
          rw [List.length_cons]
          ring

theorem encode_lt (orientation i j : Nat) : encode orientation i j < 4 ^ maxLevel := by
  have hlevels : levels.length = maxLevel := by simp [levels]
  have hcount : 4 ^ maxLevel = (0 + 1) * 4 ^ levels.length := by rw [hlevels, zero_add, one_mul]
  rw [hcount]
  refine foldl_lt _ (fun state k => ?_) levels (orientation, 0)
  have hrank := rankOf_lt state.1 (2 * (i / Nat.pow 2 k % 2) + j / Nat.pow 2 k % 2)
  change 4 * state.2 + rankOf _ _ < _
  omega

end Curve

namespace CellId

theorem ofSquare_eq_nth (face i j : Nat) :
    ofSquare face i j = nth maxLevel (face * 4 ^ maxLevel + Curve.encode (face % 2) i j) := by
  have hplace : 2 ^ placeAt maxLevel = 1 := rfl
  have hcount : Nat.pow 2 60 = 4 ^ maxLevel := rfl
  rw [ofSquare, nth, hplace, Nat.mul_one, hcount]

theorem ofSquare_finest {face : Nat} (hface : face < 6) (i j : Nat) :
    (ofSquare face i j).isValid = true ∧ (ofSquare face i j).level? = some maxLevel := by
  rw [ofSquare_eq_nth]
  refine isValid_level?_iff.mpr ⟨le_rfl, _, ?_, rfl⟩
  calc face * 4 ^ maxLevel + Curve.encode (face % 2) i j
      < face * 4 ^ maxLevel + 4 ^ maxLevel := Nat.add_lt_add_left (Curve.encode_lt _ i j) _
    _ = (face + 1) * 4 ^ maxLevel := (Nat.succ_mul face _).symm
    _ ≤ population maxLevel := Nat.mul_le_mul_right _ hface

end CellId

theorem Face.ofDirection?_lt {p : Direction Float} {face : Nat} (h : ofDirection? p = some face) :
    face < 6 := by
  unfold ofDirection? at h
  simp only [Option.ite_none_right_eq_some, Option.some.injEq] at h
  obtain ⟨-, rfl⟩ := h
  have haxis : (if p.y.abs < p.x.abs then if p.z.abs < p.x.abs then 0 else 2
      else if p.z.abs < p.y.abs then 1 else 2) < 3 := by
    split <;> split <;> decide
  generalize (if p.y.abs < p.x.abs then if p.z.abs < p.x.abs then 0 else 2
    else if p.z.abs < p.y.abs then 1 else 2) = axis at haxis ⊢
  have hside : ∀ (negative : Prop) [Decidable negative],
      (if negative then axis + 3 else axis) < 6 := by
    intro negative _
    split <;> omega
  exact hside _

theorem CellId.ofDegrees_finest {longitude latitude : Float} {leaf : CellId}
    (h : ofDegrees longitude latitude = .ok leaf) :
    leaf.isValid = true ∧ leaf.level? = some maxLevel := by
  unfold ofDegrees at h
  split at h
  · cases h
  · dsimp only at h
    split at h
    · rename_i face hface
      cases h
      exact ofSquare_finest (Face.ofDirection?_lt hface) _ _
    · cases h

/-- What an atlas promises of the cells at positions. -/
structure Atlas.Sound {α Area : Type} (atlas : Atlas α Area) : Prop where
  /-- Heights play no part. -/
  flat : ∀ p : Position α, atlas.leaf p.flat = atlas.leaf p
  /-- They are cells of the finest level. -/
  finest : ∀ p leaf, atlas.leaf p = .ok leaf →
    leaf.isValid = true ∧ leaf.level? = some maxLevel

theorem Globe.atlas_sound : Globe.atlas.Sound where
  flat _ := rfl
  finest _ _ h := CellId.ofDegrees_finest h

/-! ## The level of a covering -/

theorem Geometry.exists_position_of_even {α : Type} [Div α] [OfNat α 0] {g : Geometry α}
    {p : Position α} (h : p ∈ g.evenPositions) : ∃ q ∈ g.positions, p.flat = q.flat := by
  unfold evenPositions at h
  split at h
  · obtain ⟨q, hq, rfl⟩ := List.mem_map.mp h
    exact ⟨q, hq, rfl⟩
  · exact ⟨p, h, rfl⟩

namespace Cover

variable {α Area : Type} {atlas : Atlas α Area} {g : Geometry α} {level : Level} {cell : CellId}

theorem cellLevel_eq_ok_iff {depth : Nat} :
    cellLevel cell = .ok depth ↔ cell.level? = some depth := by
  unfold cellLevel
  cases cell.level? <;> simp

/-- The cells of a component are of the level asked for. -/
theorem CellOf.at_level (hsound : atlas.Sound) (h : CellOf atlas level g cell) :
    cell.isValid = true ∧ cell.level? = some level.val := by
  rcases h with ⟨p, -, leaf, hleaf, rfl⟩ | ⟨-, hfound⟩
  · obtain ⟨hvalid, hlevel⟩ := hsound.finest p leaf hleaf
    exact CellId.ancestor_at_level (level_le level) hvalid hlevel
  · exact ((Sieve.mem_search_iff _ (level_le level)).mp hfound).1

/-- What the covering of a geometry at a level is, on its own and against the geometry. -/
structure IsCovering [Div α] [OfNat α 0] (atlas : Atlas α Area) (g : Geometry α) (level : Level)
    (cells : List CellId) : Prop where
  ascending : cells.Pairwise fun a b => a.val < b.val
  levelled : ∀ cell ∈ cells, cell.isValid = true ∧ cellLevel cell = .ok level.val
  /-- Also a cell inside the geometry is divided down to the level. -/
  divided : ∀ c ∈ g.components, isPoint c = false → ∀ cell : CellId, cell.isValid = true →
    cellLevel cell = .ok level.val → (sieve atlas c).keeps cell = true →
    (∀ j < level.val, (sieve atlas c).reaches (cell.ancestor j) = true) → cell ∈ cells
  /-- It holds the cells of all positions of the geometry. -/
  positions : ∀ p ∈ g.evenPositions, ∃ leaf, atlas.leaf p.flat = .ok leaf ∧
    leaf.ancestor level ∈ cells
  empty_iff : cells = [] ↔ g.isEmpty = true

/-- A geometry that can be built has a covering, of cells of the level asked for. -/
theorem cover_levelled [Div α] [OfNat α 0] (atlas : Atlas α Area) (g : Geometry α) (level : Level)
    (hsound : atlas.Sound) (hformed : g.Formed) (hcharts : atlas.Charts g) :
    ∃ cells, cover atlas g level = .ok cells ∧ IsCovering atlas g level cells := by
  obtain ⟨cells, hcover, hascending, hmem⟩ := exists_cover hformed.isUnknown_eq hcharts level
  refine ⟨cells, hcover, hascending, ?levelled, ?divided, ?positions, ?empty⟩
  case levelled =>
    intro cell hcell
    obtain ⟨c, -, hc⟩ := (hmem cell).mp hcell
    obtain ⟨hvalid, hlevel⟩ := hc.at_level hsound
    exact ⟨hvalid, cellLevel_eq_ok_iff.mpr hlevel⟩
  case divided =>
    intro c hc hpoint cell hvalid hlevel hkeeps hreaches
    refine (hmem cell).mpr ⟨c, hc, Or.inr ⟨hpoint, ?_⟩⟩
    exact (Sieve.mem_search_iff _ (level_le level)).mpr
      ⟨⟨hvalid, cellLevel_eq_ok_iff.mp hlevel⟩, hkeeps, hreaches⟩
  case positions =>
    intro p hp
    obtain ⟨q, hq, hflat⟩ := Geometry.exists_position_of_even hp
    obtain ⟨leaf, hleaf⟩ := hcharts q hq
    rw [hformed.positions_eq] at hq
    obtain ⟨c, hc, hqc⟩ := List.mem_flatMap.mp hq
    refine ⟨leaf, ?_, (hmem _).mpr ⟨c, hc, Or.inl ⟨q, hqc, leaf, hleaf, rfl⟩⟩⟩
    rw [hflat, hsound.flat, hleaf]
  case empty =>
    rw [hformed.isEmpty_iff]
    constructor
    · intro hnil
      refine List.eq_nil_iff_forall_not_mem.mpr fun c hc => ?_
      obtain ⟨p, hp⟩ := List.exists_mem_of_ne_nil _
        (Geometry.isComponent_of_mem hc).positions_ne_nil
      obtain ⟨leaf, hleaf⟩ := hcharts.component hc p hp
      have hcell := (hmem (leaf.ancestor level)).mpr ⟨c, hc, Or.inl ⟨p, hp, leaf, hleaf, rfl⟩⟩
      rw [hnil] at hcell
      cases hcell
    · intro hnone
      refine List.eq_nil_iff_forall_not_mem.mpr fun cell hcell => ?_
      obtain ⟨c, hc, -⟩ := (hmem cell).mp hcell
      rw [hnone] at hc
      cases hc

theorem quarterAtlas_sound : quarterAtlas.Sound where
  flat _ := rfl
  finest p leaf h := by
    cases h
    refine CellId.isValid_level?_iff.mpr ⟨le_rfl, _, ?_, rfl⟩
    split <;> split <;> decide

noncomputable def frame : Path ℝ :=
  [⟨-20, -20, none⟩, ⟨20, -20, none⟩, ⟨20, 20, none⟩, ⟨-20, 20, none⟩, ⟨-20, -20, none⟩]

noncomputable def framed : Geometry ℝ :=
  .collection [.collection [.polygon ⟨frame,
      [[⟨-5, -5, none⟩, ⟨-5, 5, none⟩, ⟨5, 5, none⟩, ⟨5, -5, none⟩, ⟨-5, -5, none⟩]]⟩],
    .multiPoint []]

theorem framed_formed : framed.Formed := by
  refine .collection fun part hpart => ?_
  rcases List.mem_pair.mp hpart with rfl | rfl
  · refine .collection fun inner hinner => ?_
    obtain rfl := List.mem_singleton.mp hinner
    exact .polygon (by simp [Polygon.isEmpty, frame])
  · exact .multiPoint []

theorem cover_levelled_of_framed :
    quarterAtlas.Sound ∧ framed.Formed ∧ quarterAtlas.Charts framed ∧
      ∃ cells, cover quarterAtlas framed 1 = .ok cells ∧ IsCovering quarterAtlas framed 1 cells :=
  ⟨quarterAtlas_sound, framed_formed, quarterAtlas_charts _,
    cover_levelled quarterAtlas framed 1 quarterAtlas_sound framed_formed (quarterAtlas_charts _)⟩

end Cover

end Geospatial
