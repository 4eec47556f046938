import Geospatial.Proofs.Geometry.Places
import Geospatial.Proofs.Geometry.Regrouping

/-!
# Geometries in normal form

The normal form of a geometry is put together from the normal forms of its single parts: at every
depth the parts are those of the geometry in their normal forms, none lost and none repeated, in
the lexicographic order of their rows. Where the normal form of every single part is its own normal
form, so is that of the geometry: its parts are in order already. A multi-geometry that has empty
parts beside others has no such normal form.
-/

namespace Geospatial

/-! ## Normal forms of single parts -/

/-- The normal form of a single part: it is its own normal form, has no other positions than the
part and is empty when the part is. -/
structure PartForm.Settles (form : PartForm Float) (s n : Geometry Float) : Prop where
  gives : form.apply s = .ok n
  rests : form.apply n = .ok n
  within : n.positions ⊆ s.positions
  isEmpty_eq : n.isEmpty = s.isEmpty

namespace Geometry

variable {form : PartForm Float}

/-! ## Parts in order -/

/-- Parts in the lexicographic order of their rows: parts without rows come first, and parts whose
rows are the first ones of another come before it. -/
def Ascending (parts : List (Geometry Float)) : Prop :=
  parts.Pairwise fun g h => g.places ≤ h.places

/-- A geometry and one of the same kind whose parts are, at every depth, its parts in their normal
forms and in order. -/
inductive Arranged (form : PartForm Float) : Geometry Float → Geometry Float → Prop
  | single {s n : Geometry Float} : s.IsSingle → form.apply s = .ok n → Arranged form s n
  | compound {g n : Geometry Float} : Regroups (normalizeWith form) g n →
      (∀ part ∈ g.parts, ∀ m, part.normalizeWith form = .ok m → Arranged form part m) →
      Ascending n.parts → Arranged form g n

namespace Arranged

variable {g n : Geometry Float}

theorem typeName_eq (h : Arranged form g n) : n.typeName = g.typeName := by
  cases h with
  | single hs hn => exact (hs.of_apply hn).2.1
  | compound hn _ _ => exact hn.typeName_eq

/-- The single parts are those of the geometry in their normal forms. -/
theorem singles (h : Arranged form g n) : Rearranged form.apply g.singles n.singles := by
  induction h with
  | single hs hn =>
      rw [hs.singles_eq, (hs.of_apply hn).1.singles_eq]
      exact .singleton hn
  | compound hn _ _ ih =>
      rw [hn.isCompound.singles_eq, hn.isCompound'.singles_eq]
      exact hn.parts.flatMap ih

/-- The components are those of the geometry in their normal forms. -/
theorem components (h : Arranged form g n) (hg : g.Formed)
    (hform : ∀ s ∈ g.singles, ∃ m, form.Settles s m) :
    Rearranged form.apply g.components n.components := by
  rw [g.components_eq_flatMap_singles, n.components_eq_flatMap_singles]
  refine h.singles.flatMap fun s hs m hm => ?_
  have hsingle := isSingle_of_mem hg hs
  obtain ⟨m', hsettles⟩ := hform s hs
  obtain rfl : m' = m := Except.ok.inj (hsettles.gives.symm.trans hm)
  rw [hsingle.components_eq, (hsingle.of_apply hm).1.components_eq, hsettles.isEmpty_eq]
  split
  · exact ⟨[], rfl, .nil⟩
  · exact .singleton hm

theorem positions_subset (h : Arranged form g n)
    (hform : ∀ s ∈ g.singles, ∃ m, form.Settles s m) : n.positions ⊆ g.positions := by
  rw [g.positions_eq_flatMap_singles, n.positions_eq_flatMap_singles]
  intro p hp
  obtain ⟨m, hm, hp⟩ := List.mem_flatMap.mp hp
  obtain ⟨s, hs, hsm⟩ := h.singles.exists_item hm
  obtain ⟨m', hsettles⟩ := hform s hs
  obtain rfl : m' = m := Except.ok.inj (hsettles.gives.symm.trans hsm)
  exact List.mem_flatMap.mpr ⟨s, hs, hsettles.within hp⟩

theorem isEmpty_eq (h : Arranged form g n) (hform : ∀ s ∈ g.singles, ∃ m, form.Settles s m) :
    n.isEmpty = g.isEmpty := by
  rw [g.isEmpty_eq_all_singles, n.isEmpty_eq_all_singles]
  refine h.singles.all_eq fun s hs m hm => ?_
  obtain ⟨m', hsettles⟩ := hform s hs
  obtain rfl : m' = m := Except.ok.inj (hsettles.gives.symm.trans hm)
  exact hsettles.isEmpty_eq

theorem family_eq (h : Arranged form g n) (hg : g.Formed) : n.family = g.family := by
  induction h with
  | single hs hn => exact (hs.of_apply hn).2.2
  | @compound g n hn _ _ ih =>
      by_cases hcollection : ∃ gs, g = .collection gs
      · obtain ⟨gs, rfl⟩ := hcollection
        obtain ⟨hs, rfl⟩ := hn.exists_collection
        obtain ⟨ms, hms, hperm⟩ := hn.parts
        obtain ⟨f, hf⟩ := hg.exists_family
        obtain ⟨fs, hfs, -⟩ := families_of_collection hf
        have hsame : ms.mapM family = gs.mapM family :=
          mapM_of_results hms fun part hpart m hm => ih part hpart m hm (hg.part hpart)
        obtain ⟨fs', hfs', hshared⟩ := mapM_perm hperm.symm (hsame.trans hfs)
        have hshares : Except.map Family.shared (hs.mapM family) = .ok (Family.shared fs) :=
          (congrArg (Except.map Family.shared) hfs').trans
            (congrArg Except.ok (Family.shared_perm hshared))
        rw [family, family, families_eq_mapM, families_eq_mapM, hfs, hshares]
        rfl
      · exact hn.family_eq fun gs hgs => hcollection ⟨gs, hgs⟩

end Arranged

/-! ## Sorted parts -/

/-- Parts in order are not moved by sorting. -/
theorem sortParts_eq_self {tall : Bool} {parts : List (Geometry Float)}
    (h : ∀ part ∈ parts, Measured tall part.positions) (hascends : Ascending parts) :
    sortParts parts = parts :=
  Sorting.sort_eq_self ((ascends_iff_places h).mpr hascends)

/-- Geometries without positions are in order. -/
theorem ascending_of_no_positions {parts : List (Geometry Float)}
    (h : ∀ g ∈ parts, g.positions = []) : Ascending parts := by
  refine List.pairwise_of_forall_mem_list fun g hg k _ => not_lt.mp ?_
  have hnone : g.places = [] := by rw [places, h g hg, List.map_nil]
  rw [hnone]
  exact List.not_lt_nil k.places

/-! ## Normal forms -/

variable {g : Geometry Float} {tall : Bool}

def HasArranged (form : PartForm Float) (g : Geometry Float) : Prop :=
  ∃ n, g.normalizeWith form = .ok n ∧ n.normalizeWith form = .ok n ∧ Arranged form g n

theorem IsSingle.hasArranged {s n : Geometry Float} (h : s.IsSingle) (hn : form.Settles s n) :
    HasArranged form s := by
  have hsingle := (h.of_apply hn.gives).1
  exact ⟨n, h.normalizeWith_eq.trans hn.gives, hsingle.normalizeWith_eq.trans hn.rests,
    .single h hn.gives⟩

theorem HasArranged.arranged {n : Geometry Float} (h : HasArranged form g)
    (hn : g.normalizeWith form = .ok n) : n.normalizeWith form = .ok n ∧ Arranged form g n := by
  obtain ⟨n', hn', hrests, harranged⟩ := h
  obtain rfl : n' = n := Except.ok.inj (hn'.symm.trans hn)
  exact ⟨hrests, harranged⟩

theorem singles_part (hg : g.IsCompound) {part : Geometry Float} (hpart : part ∈ g.parts) :
    part.singles ⊆ g.singles := fun s hs => by
  rw [hg.singles_eq]
  exact List.mem_flatMap.mpr ⟨part, hpart, hs⟩

theorem positions_part (hg : g.IsCompound) {part : Geometry Float} (hpart : part ∈ g.parts) :
    part.positions ⊆ g.positions := fun p hp => by
  rw [hg.positions_eq]
  exact List.mem_flatMap.mpr ⟨part, hpart, hp⟩

section Compound

variable (hparts : ∀ part ∈ g.parts, HasArranged form part)

include hparts

/-- The parts of a geometry with the normal parts are arranged. -/
theorem Regroups.exists_part {n m : Geometry Float} (hn : Regroups (normalizeWith form) g n)
    (hm : m ∈ n.parts) : ∃ part ∈ g.parts, Arranged form part m := by
  obtain ⟨part, hpart, hpartm⟩ := hn.parts.exists_item hm
  exact ⟨part, hpart, ((hparts part hpart).arranged hpartm).2⟩

theorem Regroups.arranged {n : Geometry Float} (hn : Regroups (normalizeWith form) g n)
    (hascends : Ascending n.parts) : Arranged form g n :=
  .compound hn (fun part hpart _ hm => ((hparts part hpart).arranged hm).2) hascends

variable (hform : ∀ s ∈ g.singles, ∃ n, form.Settles s n) (hg : g.IsCompound)

include hform hg

/-- Without positions the normal form is the given one. -/
theorem hasArranged_of_isEmpty (hempty : form.SettlesEmpty) (hformed : g.Formed)
    (hnone : g.isEmpty = true) : HasArranged form g := by
  have hblank : ∀ part ∈ g.parts, part.isEmpty = true := by
    rwa [hg.isEmpty_eq, List.all_eq_true] at hnone
  obtain ⟨n, hn⟩ := hempty.succeeds g hg hnone fun part hpart => by
    obtain ⟨m, hm, -⟩ := hparts part hpart
    exact ⟨m, (normalizeWith_of_isEmpty (hblank part hpart)).symm.trans hm⟩
  have hregroups : Regroups (normalizeWith form) g n := by
    obtain ⟨-, hcompound, htype, results, hresults, hperm⟩ := hempty.regroups g n hg hnone hn
    refine ⟨hg, hcompound, htype, results, ?_, hperm⟩
    rw [mapM_congr fun part hpart => normalizeWith_of_isEmpty (hblank part hpart), hresults]
  have hascends : Ascending n.parts := by
    refine ascending_of_no_positions fun m hm => ?_
    obtain ⟨part, hpart, harranged⟩ := hregroups.exists_part hparts hm
    have hsubset := harranged.positions_subset fun s hs => hform s (singles_part hg hpart hs)
    have hpartformed := hformed.part hpart
    rw [hpartformed.positions_eq, hpartformed.isEmpty_iff.mp (hblank part hpart)] at hsubset
    exact List.subset_nil.mp hsubset
  have harranged := hregroups.arranged hparts hascends
  refine ⟨n, ?_, ?_, harranged⟩
  · rw [normalizeWith_of_isEmpty hnone, hg.apply_eq, hn]
  · rw [normalizeWith_of_isEmpty ((harranged.isEmpty_eq hform).trans hnone),
      hregroups.isCompound'.apply_eq, hempty.rests g n hg hnone hn]

/-- With positions the normal parts are sorted and put together, where none of them is refused or
left out. -/
theorem hasArranged_of_filled (hmeasured : Measured tall g.positions)
    (hfilled : (∀ gs, g ≠ collection gs) → ∀ part ∈ g.parts, part.isEmpty = false)
    (hsome : g.isEmpty = false) : HasArranged form g := by
  have hrests : ∀ part ∈ g.parts,
      ∃ m, part.normalizeWith form = .ok m ∧ m.normalizeWith form = .ok m := by
    intro part hpart
    obtain ⟨m, hm, hrests, -⟩ := hparts part hpart
    exact ⟨m, hm, hrests⟩
  obtain ⟨results, hresults, hsettled⟩ := exists_settled sortParts_perm hrests
  obtain ⟨n, hnparts, hregroups, hgives⟩ := normalizeWith_of_parts hg hsome hresults
  rw [← hnparts] at hsettled
  have hmeasuredPart : ∀ m ∈ n.parts, Measured tall m.positions := by
    intro m hm
    obtain ⟨part, hpart, harranged⟩ := hregroups.exists_part hparts hm
    refine hmeasured.mono (List.Subset.trans ?_ (positions_part hg hpart))
    exact harranged.positions_subset fun s hs => hform s (singles_part hg hpart hs)
  have hascends : Ascending n.parts := by
    refine (ascends_iff_places hmeasuredPart).mp ?_
    rw [hnparts]
    have hresult : ∀ m ∈ results, Measured tall m.positions := fun m hm =>
      hmeasuredPart m (hnparts ▸ (sortParts_perm results).mem_iff.mpr hm)
    exact sortParts_ascends hresult
  have hkept : n.regroup n.parts = .ok n := by
    refine regroup_parts hregroups.isCompound' fun hkind m hm => ?_
    obtain ⟨part, hpart, harranged⟩ := hregroups.exists_part hparts hm
    rw [harranged.isEmpty_eq fun s hs => hform s (singles_part hg hpart hs)]
    refine hfilled (fun gs hgs => ?_) part hpart
    subst hgs
    obtain ⟨hs, rfl⟩ := hregroups.exists_collection
    exact hkind hs rfl
  have harranged := hregroups.arranged hparts hascends
  refine ⟨n, hgives.trans hkept, ?_, harranged⟩
  rw [hregroups.isCompound'.normalizeWith_eq,
    if_neg (by simp [harranged.isEmpty_eq hform, hsome]), hsettled]
  exact (congrArg n.regroup (sortParts_eq_self hmeasuredPart hascends)).trans hkept

end Compound

/-- Beside parts that are not empty, a multi-geometry has no empty ones, at any depth. -/
def Whole (g : Geometry Float) : Prop :=
  ∀ m, (m = g ∨ PartOf m g) → (∀ gs, m ≠ collection gs) → m.isEmpty = false →
    ∀ part ∈ m.parts, part.isEmpty = false

theorem whole_collection {gs : List (Geometry Float)} (h : ∀ g ∈ gs, g.Whole) :
    (collection gs).Whole := by
  rintro m (rfl | hm) hkind
  · exact absurd rfl (hkind gs)
  · cases hm with
    | direct hpart => exact h m hpart m (Or.inl rfl) hkind
    | nested hpart hinner => exact h _ hpart m (Or.inr hinner) hkind

theorem whole_of_not_collection (hg : ∀ gs, g ≠ collection gs)
    (h : g.isEmpty = false → ∀ part ∈ g.parts, part.isEmpty = false) : g.Whole := by
  have hnone : ∀ part ∈ g.parts, ∀ inner, inner ∉ part.parts := by
    intro part hpart inner hinner
    cases isSingle_of_mem_parts hg hpart <;> cases hinner
  rintro m (rfl | hm) - hsome
  · exact h hsome
  · cases hm with
    | direct hpart => exact fun inner hinner => absurd hinner (hnone m hpart inner)
    | nested hpart hinner =>
        cases hinner with
        | direct hinner => exact absurd hinner (hnone _ hpart _)
        | nested hinner _ => exact absurd hinner (hnone _ hpart _)

theorem Formed.hasArranged (hempty : form.SettlesEmpty) (hg : g.Formed)
    (hmeasured : Measured tall g.positions) (hwhole : g.Whole)
    (hform : ∀ s ∈ g.singles, ∃ n, form.Settles s n) : HasArranged form g := by
  induction g using induction_on_compounds with
  | other g hother =>
      have hsingle := hg.isSingle_or_isCompound.resolve_right hother
      rw [hsingle.singles_eq] at hform
      exact hsingle.hasArranged (hform g List.mem_cons_self).choose_spec
  | compound g hcompound ih =>
      have hparts : ∀ part ∈ g.parts, HasArranged form part := by
        intro part hpart
        refine ih part hpart (hg.part hpart) (hmeasured.mono (positions_part hcompound hpart))
          (fun m hm => ?_) fun s hs => hform s (singles_part hcompound hpart hs)
        refine hwhole m (Or.inr ?_)
        rcases hm with rfl | hm
        · exact .direct hpart
        · exact .nested hpart hm
      cases hnone : g.isEmpty with
      | true => exact hasArranged_of_isEmpty hparts hform hcompound hempty hg hnone
      | false =>
          exact hasArranged_of_filled hparts hform hcompound hmeasured
            (fun hkind => hwhole g (Or.inl rfl) hkind hnone) hnone

/-- What the normal form of a geometry is. -/
structure IsNormalForm (form : PartForm Float) (g n : Geometry Float) : Prop where
  gives : g.normalizeWith form = .ok n
  /-- It is its own normal form. -/
  rests : n.normalizeWith form = .ok n
  typeName_eq : n.typeName = g.typeName
  family_eq : n.family = g.family
  isEmpty_eq : n.isEmpty = g.isEmpty
  within : n.positions ⊆ g.positions
  /-- Its components are those of the geometry in their normal forms. -/
  components : Rearranged form.apply g.components n.components
  arranged : Arranged form g n

/-- Where all coordinates are numbers, either all positions have heights or none has, and no
multi-geometry has empty parts beside others: a geometry whose single parts, and whose parts without
positions, have normal forms that are their own has a normal form. That is the same for its normal
form, of its type and family, with its components and at every depth its parts in their normal
forms, in the lexicographic order of their rows. -/
theorem normalizeWith_settles (form : PartForm Float) (hempty : form.SettlesEmpty)
    {g : Geometry Float} {tall : Bool} (hg : g.Formed) (hmeasured : Measured tall g.positions)
    (hwhole : g.Whole) (hform : ∀ s ∈ g.singles, ∃ n, form.Settles s n) :
    ∃ n, IsNormalForm form g n := by
  obtain ⟨n, hn, hrests, harranged⟩ := hg.hasArranged hempty hmeasured hwhole hform
  exact ⟨n, hn, hrests, harranged.typeName_eq, harranged.family_eq hg,
    harranged.isEmpty_eq hform, harranged.positions_subset hform, harranged.components hg hform,
    harranged⟩

/-! ## A collection out of order -/

theorem settles_point (p : Option (Position Float)) : form.Settles (.point p) (.point p) :=
  ⟨rfl, rfl, List.Subset.refl _, rfl⟩

theorem settles_lineString {path m : Path Float} (hm : (form.path path).toOption = some m)
    (hrests : (form.path m).toOption = some m) (hwithin : m ⊆ path)
    (hempty : m.isEmpty = path.isEmpty) : form.Settles (.lineString path) (.lineString m) :=
  ⟨apply_lineString_iff.mpr ⟨m, ok_of_toOption hm, rfl⟩,
    apply_lineString_iff.mpr ⟨m, ok_of_toOption hrests, rfl⟩, hwithin, hempty⟩

theorem settles_polygon {p m : Polygon Float} (hm : (form.polygon p).toOption = some m)
    (hrests : (form.polygon m).toOption = some m) (hwithin : m.positions ⊆ p.positions)
    (hempty : m.isEmpty = p.isEmpty) : form.Settles (.polygon p) (.polygon m) :=
  ⟨apply_polygon_iff.mpr ⟨m, ok_of_toOption hm, rfl⟩,
    apply_polygon_iff.mpr ⟨m, ok_of_toOption hrests, rfl⟩, hwithin, hempty⟩

/-- Two lines, an area that turns to the left, an empty point and two points, nested. -/
def scattered : Geometry Float :=
  .collection [
    .multiLineString [[⟨1, 1, none⟩, ⟨2, 2, none⟩], [⟨0.5, 0.5, none⟩, ⟨0, 0, none⟩]],
    .collection [
      .polygon ⟨[⟨4, 0, none⟩, ⟨0, 4, none⟩, ⟨0, 0, none⟩, ⟨4, 0, none⟩], []⟩,
      .point none,
      .multiPoint [some ⟨3, 1, none⟩, some ⟨2, 5, none⟩]]]

theorem scattered_formed : scattered.Formed := by
  refine .collection fun part hpart => ?_
  simp only [List.mem_cons, List.not_mem_nil, or_false] at hpart
  rcases hpart with rfl | rfl
  · exact .multiLineString _
  · refine .collection fun part hpart => ?_
    simp only [List.mem_cons, List.not_mem_nil, or_false] at hpart
    rcases hpart with rfl | rfl | rfl
    · exact .polygon fun hempty => by cases hempty
    · exact .point none
    · exact .multiPoint _

theorem measured_of_all {path : Path Float}
    (h : path.all (fun p => !p.x.isNaN && !p.y.isNaN && p.z.isNone) = true) :
    Measured false path := by
  intro p hp
  have hnumbers := List.all_eq_true.mp h p hp
  simp only [Bool.and_eq_true, Bool.not_eq_true', Option.isNone_iff_eq_none] at hnumbers
  obtain ⟨⟨hx, hy⟩, hz⟩ := hnumbers
  exact ⟨hx, hy, by simp [hz], by simp [Position.hasHeight, hz]⟩

theorem scattered_measured : Measured false scattered.positions :=
  measured_of_all (by decide +kernel)

theorem scattered_settles : ∀ s ∈ scattered.singles, ∃ n, PartForm.planar.Settles s n := by
  have hsingles : scattered.singles = [
      .lineString [⟨1, 1, none⟩, ⟨2, 2, none⟩], .lineString [⟨0.5, 0.5, none⟩, ⟨0, 0, none⟩],
      .polygon ⟨[⟨4, 0, none⟩, ⟨0, 4, none⟩, ⟨0, 0, none⟩, ⟨4, 0, none⟩], []⟩, .point none,
      .point (some ⟨3, 1, none⟩), .point (some ⟨2, 5, none⟩)] := rfl
  rw [hsingles]
  simp only [List.forall_mem_cons, List.not_mem_nil, false_imp_iff, implies_true, and_true]
  refine ⟨⟨_, settles_lineString (m := [⟨1, 1, none⟩, ⟨2, 2, none⟩]) ?_ ?_ ?_ rfl⟩,
    ⟨_, settles_lineString (m := [⟨0, 0, none⟩, ⟨0.5, 0.5, none⟩]) ?_ ?_ ?_ rfl⟩,
    ⟨_, settles_polygon (m := ⟨[⟨0, 0, none⟩, ⟨0, 4, none⟩, ⟨4, 0, none⟩, ⟨0, 0, none⟩], []⟩)
      ?_ ?_ ?_ rfl⟩, ⟨_, settles_point _⟩, ⟨_, settles_point _⟩, ⟨_, settles_point _⟩⟩
  all_goals decide +kernel

theorem scattered_whole : scattered.Whole := by
  refine whole_collection fun part hpart => ?_
  simp only [List.mem_cons, List.not_mem_nil, or_false] at hpart
  rcases hpart with rfl | rfl
  · exact whole_of_not_collection (by simp) fun _ => by simp [parts, isEmpty]
  · refine whole_collection fun part hpart => ?_
    simp only [List.mem_cons, List.not_mem_nil, or_false] at hpart
    rcases hpart with rfl | rfl | rfl
    · exact whole_of_not_collection (by simp) fun _ => by simp [parts]
    · exact whole_of_not_collection (by simp) fun _ => by simp [parts]
    · exact whole_of_not_collection (by simp) fun _ => by simp [parts, isEmpty]

/-- The normal form of nested lines, areas and points, with the normal form of single parts in the
plane. -/
theorem normalizeWith_settles_scattered :
    PartForm.planar.SettlesEmpty ∧ scattered.Formed ∧ Measured false scattered.positions ∧
      scattered.Whole ∧ (∀ s ∈ scattered.singles, ∃ n, PartForm.planar.Settles s n) ∧
      ∃ n, IsNormalForm PartForm.planar scattered n :=
  ⟨PartForm.planar_settlesEmpty, scattered_formed, scattered_measured, scattered_whole,
    scattered_settles, normalizeWith_settles PartForm.planar PartForm.planar_settlesEmpty
      scattered_formed scattered_measured scattered_whole scattered_settles⟩

/-! ## An empty line beside another -/

def halfDrawn : Geometry Float := .multiLineString [[⟨0, 0, none⟩, ⟨1, 1, none⟩], []]

theorem halfDrawn_measured : Measured false halfDrawn.positions :=
  measured_of_all (by decide +kernel)

theorem halfDrawn_settles : ∀ s ∈ halfDrawn.singles, PartForm.planar.Settles s s := by
  have hsingles : halfDrawn.singles =
      [.lineString [⟨0, 0, none⟩, ⟨1, 1, none⟩], .lineString []] := rfl
  rw [hsingles]
  simp only [List.forall_mem_cons, List.not_mem_nil, false_imp_iff, implies_true, and_true]
  exact ⟨settles_lineString (by decide +kernel) (by decide +kernel) (List.Subset.refl _) rfl,
    settles_lineString (by decide +kernel) (by decide +kernel) (List.Subset.refl _) rfl⟩

/-- The empty line is put first and then refused. -/
theorem normalizeWith_beside_empty_line :
    PartForm.planar.SettlesEmpty ∧ halfDrawn.Formed ∧ Measured false halfDrawn.positions ∧
      (∀ s ∈ halfDrawn.singles, ∃ n, PartForm.planar.Settles s n) ∧
      halfDrawn.normalizeWith .planar = .error .emptyPart ∧
      ¬∃ n, IsNormalForm PartForm.planar halfDrawn n := by
  have hlines : halfDrawn.parts.mapM (normalizeWith .planar) = .ok halfDrawn.parts := by
    refine (mapM_ok (g := id) fun s hs => ?_).trans (congrArg _ (List.map_id _))
    rw [(isSingle_of_mem_parts (g := halfDrawn) (by simp [halfDrawn]) hs).normalizeWith_eq]
    exact (halfDrawn_settles s hs).gives
  have hrefused : halfDrawn.normalizeWith .planar = .error .emptyPart :=
    normalizeWith_refused (Or.inr ⟨_, rfl⟩) rfl hlines
      ⟨.lineString [], by simp [halfDrawn, parts], rfl⟩
  refine ⟨PartForm.planar_settlesEmpty, .multiLineString _, halfDrawn_measured,
    fun s hs => ⟨s, halfDrawn_settles s hs⟩, hrefused, ?_⟩
  rintro ⟨n, hn⟩
  have hgives := hn.gives
  rw [hrefused] at hgives
  cases hgives

end Geometry

end Geospatial
