import Geospatial.Geometry.Normal
import Geospatial.Proofs.Geometry.Rebuilding
import Geospatial.Proofs.Geometry.Singles
import Geospatial.Proofs.Sorting

/-!
# Normal form, part by part

A multi-geometry or collection that has positions is normalized part by part: the normal forms of
its parts are sorted and put together again. A multi-geometry takes back parts that are not empty;
beside an empty line it cannot be put together. Geometries without positions have the normal form
that is given for them, which sorts the normal forms of their parts by the ranks of their kinds.
-/

namespace Geospatial

variable {α : Type}

namespace Geometry

section Apply

variable {form : PartForm α} {g n : Geometry α}

theorem apply_lineString_iff {path : Path α} :
    form.apply (.lineString path) = .ok n ↔ ∃ m, form.path path = .ok m ∧ n = .lineString m := by
  rw [PartForm.apply]
  cases form.path path <;> simp [Except.map, eq_comm]

theorem apply_linearRing_iff {path : Path α} :
    form.apply (.linearRing path) = .ok n ↔ ∃ m, form.ring path = .ok m ∧ n = .linearRing m := by
  rw [PartForm.apply]
  cases form.ring path <;> simp [Except.map, eq_comm]

theorem apply_polygon_iff {p : Polygon α} :
    form.apply (.polygon p) = .ok n ↔ ∃ m, form.polygon p = .ok m ∧ n = .polygon m := by
  rw [PartForm.apply]
  cases form.polygon p <;> simp [Except.map, eq_comm]

/-- The normal form of a single part is a single part of the same type. -/
theorem IsSingle.of_apply (h : g.IsSingle) (hn : form.apply g = .ok n) :
    n.IsSingle ∧ n.typeName = g.typeName ∧ n.family = g.family := by
  cases h with
  | point p =>
      cases hn
      exact ⟨.point p, rfl, rfl⟩
  | lineString path =>
      obtain ⟨m, -, rfl⟩ := apply_lineString_iff.mp hn
      exact ⟨.lineString m, rfl, rfl⟩
  | linearRing path =>
      obtain ⟨m, -, rfl⟩ := apply_linearRing_iff.mp hn
      exact ⟨.linearRing m, rfl, rfl⟩
  | polygon p =>
      obtain ⟨m, -, rfl⟩ := apply_polygon_iff.mp hn
      exact ⟨.polygon m, rfl, rfl⟩

theorem IsCompound.apply_eq (h : g.IsCompound) : form.apply g = form.empty g := by
  cases h <;> rfl

end Apply

/-! ## Parts put together -/

/-- The parts of one geometry are the results of those of another of its kind, in any order. -/
structure Regroups (f : Geometry α → Except Failure (Geometry α)) (g n : Geometry α) : Prop where
  isCompound : g.IsCompound
  isCompound' : n.IsCompound
  typeName_eq : n.typeName = g.typeName
  parts : Rearranged f g.parts n.parts

namespace Regroups

variable {f : Geometry α → Except Failure (Geometry α)} {g n : Geometry α}

theorem exists_collection {gs : List (Geometry α)} (h : Regroups f (collection gs) n) :
    ∃ hs, n = collection hs := by
  have htype := h.typeName_eq
  cases h.isCompound' with
  | collection hs => exact ⟨hs, rfl⟩
  | _ => simp [typeName] at htype

/-- Other than a collection, a geometry has its family by its kind. -/
theorem family_eq (h : Regroups f g n) (hg : ∀ gs, g ≠ collection gs) : n.family = g.family := by
  have htype := h.typeName_eq
  cases h.isCompound with
  | collection gs => exact absurd rfl (hg gs)
  | _ => cases h.isCompound' <;> first | rfl | simp [typeName] at htype

end Regroups

/-- The results for single parts of one kind are single parts of that kind. -/
theorem exists_wrapped {β : Type} {f : Geometry α → Except Failure (Geometry α)}
    {inner : β → Except Failure β} {wrap : β → Geometry α}
    (hwrap : ∀ a, f (wrap a) = (inner a).map wrap) {items : List β} {images : List (Geometry α)}
    (h : Rearranged f (items.map wrap) images) : ∃ others : List β, others.map wrap = images := by
  refine exists_contents wrap fun c hc => ?_
  obtain ⟨part, hpart, hn⟩ := h.exists_item hc
  obtain ⟨a, -, rfl⟩ := List.mem_map.mp hpart
  rw [hwrap] at hn
  cases hinner : inner a with
  | error e =>
      rw [hinner] at hn
      cases hn
  | ok b =>
      rw [hinner] at hn
      exact ⟨b, Except.ok.inj hn⟩

theorem regroup_congr {g h : Geometry α} (hg : g.IsCompound) (hh : h.IsCompound)
    (htype : g.typeName = h.typeName) : g.regroup = h.regroup := by
  cases hg <;> cases hh <;> first | rfl | simp [typeName] at htype

/-- A multi-geometry is put together from its parts, where none is empty. -/
theorem regroup_parts {g : Geometry α} (hg : g.IsCompound)
    (hfilled : (∀ gs, g ≠ collection gs) → ∀ part ∈ g.parts, part.isEmpty = false) :
    g.regroup g.parts = .ok g := by
  cases hg with
  | multiPoint points =>
      obtain ⟨positions, rfl⟩ : ∃ positions : List (Position α), positions.map some = points := by
        have hrange : points ∈ Set.range (List.map (some : Position α → _)) := by
          rw [Set.range_list_map]
          intro p hp
          have hsome := hfilled (by simp) _ (List.mem_map_of_mem hp)
          exact Option.isSome_iff_exists.mp (Option.isNone_eq_false_iff.mp hsome) |>.imp
            fun _ => Eq.symm
        exact hrange
      rw [parts, List.map_map]
      exact assemble_points positions
  | multiLineString paths =>
      have hlines : ∀ c ∈ paths.map lineString, c.IsComponent ∧ c.family = .ok .lineal := by
        intro c hc
        have hempty := hfilled (by simp) c hc
        obtain ⟨path, -, rfl⟩ := List.mem_map.mp hc
        exact ⟨.lineString (by simpa [isEmpty] using hempty), rfl⟩
      refine (assemble_lines hlines).trans (congrArg (Except.ok ∘ multiLineString) ?_)
      rw [List.map_map]
      exact List.map_id paths
  | multiPolygon polygons =>
      refine (assemble_areas polygons).trans (congrArg (Except.ok ∘ multiPolygon) ?_)
      refine List.filter_eq_self.mpr fun p hp => ?_
      have hempty := hfilled (by simp) _ (List.mem_map_of_mem hp)
      simpa [isEmpty] using hempty
  | collection parts => rfl

theorem regroup_parts_refused {g : Geometry α}
    (hg : (∃ points, g = multiPoint points) ∨ ∃ paths, g = multiLineString paths)
    (hempty : ∃ part ∈ g.parts, part.isEmpty = true) : g.regroup g.parts = .error .emptyPart := by
  obtain ⟨part, hpart, hnone⟩ := hempty
  rcases hg with ⟨points, rfl⟩ | ⟨paths, rfl⟩
  · have hread : (points.map point).mapM asPoint = .error .emptyPart := by
      refine mapM_error (fun c hc => ?_) ⟨part, hpart, ?_⟩
      · obtain ⟨p, -, rfl⟩ := List.mem_map.mp hc
        cases p with
        | none => exact Or.inl rfl
        | some p => exact Or.inr ⟨p, rfl⟩
      · obtain ⟨p, -, rfl⟩ := List.mem_map.mp hpart
        obtain rfl : p = none := by simpa [isEmpty] using hnone
        rfl
    rw [regroup, assemble, parts, hread]
    rfl
  · have hread : (paths.map lineString).mapM asPath = .error .emptyPart := by
      refine mapM_error (fun c hc => ?_) ⟨part, hpart, ?_⟩
      · obtain ⟨path, -, rfl⟩ := List.mem_map.mp hc
        by_cases hpath : path.isEmpty = true
        · exact Or.inl (if_pos hpath)
        · exact Or.inr ⟨path, if_neg hpath⟩
      · obtain ⟨path, -, rfl⟩ := List.mem_map.mp hpart
        exact if_pos hnone
    rw [regroup, assemble, parts, hread]
    rfl

section Normal

variable [LT α] [DecidableLT α] [BEq α] {form : PartForm α} {g n : Geometry α}

/-! ## Normal form of compound geometries -/

theorem sortParts_perm (parts : List (Geometry α)) : (sortParts parts).Perm parts :=
  Sorting.sort_perm precedes parts

theorem normalizeWith_of_not_isCompound (h : ¬g.IsCompound) :
    g.normalizeWith form = form.apply g := by
  cases g with
  | multiPoint points => exact absurd (.multiPoint points) h
  | multiLineString paths => exact absurd (.multiLineString paths) h
  | multiPolygon polygons => exact absurd (.multiPolygon polygons) h
  | collection parts => exact absurd (.collection parts) h
  | _ => rw [normalizeWith]

theorem IsSingle.normalizeWith_eq (h : g.IsSingle) : g.normalizeWith form = form.apply g :=
  normalizeWith_of_not_isCompound h.not_isCompound

theorem normalizeWith_point (p : Option (Position α)) :
    (point p).normalizeWith form = (Except.ok p : Except Failure _).map point := by
  rw [normalizeWith]
  rfl

theorem normalizeWith_lineString (path : Path α) :
    (lineString path).normalizeWith form = (form.path path).map lineString := by
  rw [normalizeWith]
  rfl

theorem normalizeWith_polygon (p : Polygon α) :
    (polygon p).normalizeWith form = (form.polygon p).map polygon := by
  rw [normalizeWith]
  rfl

theorem normalizeParts_eq_mapM (form : PartForm α) (parts : List (Geometry α)) :
    normalizeParts form parts = parts.mapM (normalizeWith form) := by
  induction parts with
  | nil => rfl
  | cons part rest ih => rw [normalizeParts, List.mapM_cons, ih]

theorem normalizeMulti_eq (hg : ∀ parts, g ≠ collection parts) :
    g.normalizeMulti form = if g.isEmpty then form.apply g else
      g.parts.mapM (normalizeWith form) >>= fun normal => g.regroup (sortParts normal) := by
  have hparts : g.parts.mapM (normalizeWith form) = g.parts.mapM form.apply :=
    mapM_congr fun part hpart => (isSingle_of_mem_parts hg hpart).normalizeWith_eq
  rw [normalizeMulti, hparts]

theorem IsCompound.normalizeWith_eq (h : g.IsCompound) :
    g.normalizeWith form = if g.isEmpty then form.empty g else
      g.parts.mapM (normalizeWith form) >>= fun normal => g.regroup (sortParts normal) := by
  cases h with
  | multiPoint points =>
      rw [normalizeWith, normalizeMulti_eq (by simp)]
      rfl
  | multiLineString paths =>
      rw [normalizeWith, normalizeMulti_eq (by simp)]
      rfl
  | multiPolygon polygons =>
      rw [normalizeWith, normalizeMulti_eq (by simp)]
      rfl
  | collection parts =>
      rw [normalizeWith, normalizeParts_eq_mapM]
      rfl

/-- Geometries without positions are not normalized part by part. -/
theorem normalizeWith_of_isEmpty (h : g.isEmpty = true) :
    g.normalizeWith form = form.apply g := by
  by_cases hg : g.IsCompound
  · rw [hg.normalizeWith_eq, if_pos h, hg.apply_eq]
  · exact normalizeWith_of_not_isCompound hg

/-- The normal forms of the parts are the parts of a geometry of the same kind. -/
theorem exists_regrouped (hg : g.IsCompound) {items : List (Geometry α)}
    (h : Rearranged (normalizeWith form) g.parts items) :
    ∃ n, n.parts = items ∧ Regroups (normalizeWith form) g n := by
  cases hg with
  | multiPoint points =>
      obtain ⟨others, rfl⟩ := exists_wrapped normalizeWith_point h
      exact ⟨multiPoint others, rfl, .multiPoint points, .multiPoint others, rfl, h⟩
  | multiLineString paths =>
      obtain ⟨others, rfl⟩ := exists_wrapped normalizeWith_lineString h
      exact ⟨multiLineString others, rfl, .multiLineString paths, .multiLineString others, rfl, h⟩
  | multiPolygon polygons =>
      obtain ⟨others, rfl⟩ := exists_wrapped normalizeWith_polygon h
      exact ⟨multiPolygon others, rfl, .multiPolygon polygons, .multiPolygon others, rfl, h⟩
  | collection parts =>
      exact ⟨collection items, rfl, .collection parts, .collection items, rfl, h⟩

/-- A multi-geometry or collection whose normal parts can be put together. -/
theorem normalizeWith_of_parts (hg : g.IsCompound) (hfilled : g.isEmpty = false)
    {results : List (Geometry α)} (h : g.parts.mapM (normalizeWith form) = .ok results) :
    ∃ n, n.parts = sortParts results ∧ Regroups (normalizeWith form) g n ∧
      g.normalizeWith form = n.regroup n.parts := by
  have hsorted : Rearranged (normalizeWith form) g.parts (sortParts results) :=
    ⟨results, h, sortParts_perm results⟩
  obtain ⟨n, hparts, hn⟩ := exists_regrouped hg hsorted
  refine ⟨n, hparts, hn, ?_⟩
  rw [hg.normalizeWith_eq, if_neg (by simp [hfilled]), h,
    regroup_congr hn.isCompound' hg hn.typeName_eq, hparts]
  rfl

/-- A multi-point or multi-line that has positions is not normalized beside an empty part. -/
theorem normalizeWith_refused
    (hg : (∃ points, g = multiPoint points) ∨ ∃ paths, g = multiLineString paths)
    (hfilled : g.isEmpty = false) {results : List (Geometry α)}
    (h : g.parts.mapM (normalizeWith form) = .ok results)
    (hempty : ∃ part ∈ results, part.isEmpty = true) :
    g.normalizeWith form = .error .emptyPart := by
  have hcompound : g.IsCompound := by
    rcases hg with ⟨points, rfl⟩ | ⟨paths, rfl⟩
    · exact .multiPoint points
    · exact .multiLineString paths
  obtain ⟨n, hparts, hn, hgives⟩ := normalizeWith_of_parts hcompound hfilled h
  rw [hgives]
  refine regroup_parts_refused ?_ ?_
  · have htype := hn.typeName_eq
    rcases hg with ⟨points, rfl⟩ | ⟨paths, rfl⟩
    · cases hn.isCompound' with
      | multiPoint others => exact Or.inl ⟨others, rfl⟩
      | _ => simp [typeName] at htype
    · cases hn.isCompound' with
      | multiLineString others => exact Or.inr ⟨others, rfl⟩
      | _ => simp [typeName] at htype
  · obtain ⟨part, hpart, hnone⟩ := hempty
    exact ⟨part, hparts ▸ (sortParts_perm results).mem_iff.mpr hpart, hnone⟩

end Normal

end Geometry

/-! ## Geometries without positions -/

open Geospatial.Geometry in
/-- Geometries without positions have normal forms of their kinds, with the normal forms of their
parts in descending order of ranks. -/
structure PartForm.SortsEmpty (form : PartForm α) : Prop where
  succeeds : ∀ g : Geometry α, g.IsCompound → g.isEmpty = true →
    (∀ part ∈ g.parts, ∃ n, form.apply part = .ok n) → ∃ n, form.empty g = .ok n
  regroups : ∀ g n : Geometry α, g.IsCompound → g.isEmpty = true → form.empty g = .ok n →
    Regroups form.apply g n
  descends : ∀ g n : Geometry α, g.IsCompound → g.isEmpty = true → form.empty g = .ok n →
    n.parts.Pairwise fun a b => b.rank ≤ a.rank

/-- These normal forms are their own. -/
structure PartForm.SettlesEmpty (form : PartForm α) : Prop extends form.SortsEmpty where
  rests : ∀ g n : Geometry α, g.IsCompound → g.isEmpty = true → form.empty g = .ok n →
    form.empty n = .ok n

namespace Geometry

variable {g : Geometry α}

theorem sortEmptyParts_eq_map (parts : List (Geometry α)) :
    sortEmptyParts parts = parts.map sortEmpty := by
  induction parts with
  | nil => rfl
  | cons part rest ih => rw [sortEmptyParts, List.map_cons, ih]

theorem sortEmpty_collection (parts : List (Geometry α)) :
    (collection parts).sortEmpty = collection
      (Sorting.sortPlain (fun a b => decide (b.rank < a.rank)) (parts.map sortEmpty)) := by
  rw [sortEmpty, sortEmptyParts_eq_map]

theorem sortEmpty_of_not_collection (hg : ∀ parts, g ≠ collection parts) : g.sortEmpty = g := by
  cases g with
  | collection parts => exact absurd rfl (hg parts)
  | _ => rw [sortEmpty]

theorem isCompound_sortEmpty (hg : g.IsCompound) :
    g.sortEmpty.IsCompound ∧ g.sortEmpty.typeName = g.typeName := by
  cases hg with
  | multiPoint points => exact ⟨.multiPoint points, rfl⟩
  | multiLineString paths => exact ⟨.multiLineString paths, rfl⟩
  | multiPolygon polygons => exact ⟨.multiPolygon polygons, rfl⟩
  | collection parts => exact ⟨.collection _, rfl⟩

theorem ranks_descending :
    Sorting.Ranks fun a b : Geometry α => decide (b.rank < a.rank) :=
  Sorting.Ranks.of_key fun a : Geometry α => OrderDual.toDual a.rank

theorem ascends_iff_ranks {parts : List (Geometry α)} :
    Sorting.Ascends (fun a b => decide (b.rank < a.rank)) parts ↔
      parts.Pairwise fun a b => b.rank ≤ a.rank := by
  simp [Sorting.Ascends]

theorem sortEmpty_sortEmpty (g : Geometry α) : g.sortEmpty.sortEmpty = g.sortEmpty := by
  induction g using induction_on_parts with
  | other g hg => rw [sortEmpty_of_not_collection hg, sortEmpty_of_not_collection hg]
  | parts parts ih =>
      rw [sortEmpty_collection, sortEmpty_collection]
      have hsettled : ∀ part ∈ Sorting.sortPlain (fun a b => decide (b.rank < a.rank))
          (parts.map sortEmpty), part.sortEmpty = part := by
        intro part hpart
        rw [(Sorting.sortPlain_perm _ _).mem_iff, List.mem_map] at hpart
        obtain ⟨inner, hinner, rfl⟩ := hpart
        exact ih inner hinner
      rw [List.map_congr_left hsettled, List.map_id']
      exact congrArg collection (Sorting.sortPlain_eq_self (ranks_descending.sortPlain_ascends _))

theorem isEmpty_sortEmpty (g : Geometry α) : g.sortEmpty.isEmpty = g.isEmpty := by
  induction g using induction_on_parts with
  | other g hg => rw [sortEmpty_of_not_collection hg]
  | parts parts ih =>
      rw [sortEmpty_collection, isEmpty, isEmpty, allEmpty_eq_all, allEmpty_eq_all,
        (Sorting.sortPlain_perm _ _).all_eq, List.all_map, Bool.eq_iff_iff, List.all_eq_true,
        List.all_eq_true]
      exact forall₂_congr fun part hpart => by rw [Function.comp_apply, ih part hpart]

theorem parts_sortEmpty (hg : g.IsCompound) :
    g.sortEmpty.parts.Perm (g.parts.map sortEmpty) ∧
      g.sortEmpty.parts.Pairwise fun a b => b.rank ≤ a.rank := by
  by_cases hparts : ∃ parts, g = collection parts
  · obtain ⟨parts, rfl⟩ := hparts
    rw [sortEmpty_collection]
    exact ⟨Sorting.sortPlain_perm _ _, ascends_iff_ranks.mp (ranks_descending.sortPlain_ascends _)⟩
  · have hother : ∀ parts, g ≠ collection parts := fun parts h => hparts ⟨parts, h⟩
    have hsingle : ∀ part ∈ g.parts, part.sortEmpty = part := fun part hpart =>
      sortEmpty_of_not_collection fun inner h => by
        cases h ▸ isSingle_of_mem_parts hother hpart
    rw [sortEmpty_of_not_collection hother, List.map_congr_left hsingle, List.map_id']
    refine ⟨.refl _, List.pairwise_of_forall_mem_list fun a ha b hb => ?_⟩
    cases hg with
    | collection parts => exact absurd rfl (hother parts)
    | _ =>
        obtain ⟨x, -, rfl⟩ := List.mem_map.mp ha
        obtain ⟨y, -, rfl⟩ := List.mem_map.mp hb
        exact le_rfl

end Geometry

open Geospatial.Geometry in
/-- Sorting by ranks gives such normal forms, where that is what the normal form does with empty
single parts too. -/
theorem PartForm.settlesEmpty_of_sortEmpty {form : PartForm α}
    (h : ∀ g : Geometry α, g.isEmpty = true → form.apply g = .ok g.sortEmpty) :
    form.SettlesEmpty := by
  have hempty : ∀ g : Geometry α, g.IsCompound → g.isEmpty = true →
      form.empty g = .ok g.sortEmpty := fun g hg hnone => by rw [← h g hnone, hg.apply_eq]
  have hparts : ∀ g : Geometry α, g.IsCompound → g.isEmpty = true →
      g.parts.mapM form.apply = .ok (g.parts.map sortEmpty) := by
    intro g hg hnone
    rw [hg.isEmpty_eq, List.all_eq_true] at hnone
    exact mapM_ok fun part hpart => h part (hnone part hpart)
  refine ⟨⟨fun g hg hnone _ => ⟨_, hempty g hg hnone⟩, fun g n hg hnone hn => ?_,
    fun g n hg hnone hn => ?_⟩, fun g n hg hnone hn => ?_⟩
  · obtain rfl : g.sortEmpty = n := Except.ok.inj ((hempty g hg hnone).symm.trans hn)
    obtain ⟨hcompound, htype⟩ := isCompound_sortEmpty hg
    exact ⟨hg, hcompound, htype, _, hparts g hg hnone, (parts_sortEmpty hg).1⟩
  · obtain rfl : g.sortEmpty = n := Except.ok.inj ((hempty g hg hnone).symm.trans hn)
    exact (parts_sortEmpty hg).2
  · obtain rfl : g.sortEmpty = n := Except.ok.inj ((hempty g hg hnone).symm.trans hn)
    rw [hempty _ (isCompound_sortEmpty hg).1 (by rw [isEmpty_sortEmpty, hnone]),
      sortEmpty_sortEmpty]

theorem PartForm.planar_settlesEmpty : PartForm.planar.SettlesEmpty := by
  refine settlesEmpty_of_sortEmpty fun g hnone => ?_
  cases g with
  | lineString path =>
      obtain rfl : path = [] := List.isEmpty_iff.mp hnone
      rfl
  | linearRing path =>
      obtain rfl : path = [] := List.isEmpty_iff.mp hnone
      rfl
  | polygon p =>
      have hnormal : p.normal = .ok p := if_pos hnone
      exact congrArg (Except.map Geometry.polygon) hnormal
  | _ => rfl

/-- Single parts stay as they are. -/
def PartForm.asGiven : PartForm α := ⟨.ok, .ok, .ok, fun g => .ok g.sortEmpty⟩

theorem PartForm.asGiven_settlesEmpty : (asGiven : PartForm α).SettlesEmpty :=
  settlesEmpty_of_sortEmpty fun g _ => by cases g <;> rfl

end Geospatial
