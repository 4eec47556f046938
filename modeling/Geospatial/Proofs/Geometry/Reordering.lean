import Geospatial.Proofs.Geometry.Regrouping
import Geospatial.Proofs.Geometry.Rows

/-!
# Normal form and the order of parts

The normal form of a geometry does not depend on the order of the parts of its multi-points and
multi-lines. Those of multi-polygons and collections are told apart by their rows alone, and parts
of which neither precedes the other keep their order: a point and a multi-point at one place, or
parts that lack heights where the others differ.
-/

namespace Geospatial.Geometry

variable {α : Type}

/-! ## Reordering -/

/-- One geometry comes from another by reordering the parts of multi-geometries and collections, at
any depth. -/
inductive Reordered : Geometry α → Geometry α → Prop
  | refl (g : Geometry α) : Reordered g g
  | trans {g h k : Geometry α} : Reordered g h → Reordered h k → Reordered g k
  | points {ps qs : List (Option (Position α))} :
      ps.Perm qs → Reordered (.multiPoint ps) (.multiPoint qs)
  | paths {ps qs : List (Path α)} :
      ps.Perm qs → Reordered (.multiLineString ps) (.multiLineString qs)
  | polygons {ps qs : List (Polygon α)} :
      ps.Perm qs → Reordered (.multiPolygon ps) (.multiPolygon qs)
  | parts {gs hs : List (Geometry α)} : gs.Perm hs → Reordered (.collection gs) (.collection hs)
  | within {g h : Geometry α} (before after : List (Geometry α)) : Reordered g h →
      Reordered (.collection (before ++ g :: after)) (.collection (before ++ h :: after))

theorem Reordered.isEmpty_eq {g h : Geometry α} (hr : Reordered g h) : g.isEmpty = h.isEmpty := by
  induction hr with
  | refl => rfl
  | trans _ _ ih ih' => exact ih.trans ih'
  | points hperm => simp only [isEmpty, hperm.all_eq]
  | paths hperm => simp only [isEmpty, hperm.all_eq]
  | polygons hperm => simp only [isEmpty, hperm.all_eq]
  | parts hperm => simp only [isEmpty, allEmpty_eq_all, hperm.all_eq]
  | within before after _ ih => simp [isEmpty, allEmpty_eq_all, ih]

/-! ## Normal forms of several items -/

section Normals

variable {β γ : Type}

def normals (normal : β → Except Failure γ) (items : List β) : List γ :=
  items.filterMap fun a => (normal a).toOption

/-- Several items have normal forms together when each has one. -/
theorem toOption_mapM (normal : β → Except Failure γ) (items : List β) :
    (items.mapM normal).toOption =
      if items.all fun a => (normal a).toOption.isSome then some (normals normal items)
      else none := by
  induction items with
  | nil => rfl
  | cons a rest ih =>
      rw [List.mapM_cons]
      cases ha : normal a with
      | error failure =>
          have hnone : (normal a).toOption = none := by rw [ha]; rfl
          simp only [List.all_cons, hnone, Option.isSome_none, Bool.false_and]
          rfl
      | ok b =>
          have hsome : (normal a).toOption = some b := by rw [ha]; rfl
          have hrest : (do let bs ← rest.mapM normal; pure (b :: bs)).toOption =
              (rest.mapM normal).toOption.map (b :: ·) := by
            cases rest.mapM normal <;> rfl
          change (do let bs ← rest.mapM normal; pure (b :: bs)).toOption = _
          rw [hrest, ih]
          have hnormals : normals normal (a :: rest) = b :: normals normal rest :=
            List.filterMap_cons_some hsome
          simp only [List.all_cons, hsome, Option.isSome_some, Bool.true_and, hnormals]
          split <;> rfl

/-- Normal forms put together in two ways, where these agree on the normal forms there are. -/
theorem toOption_bind_mapM {δ : Type} {normal : β → Except Failure γ} {items items' : List β}
    {combine combine' : List γ → Except Failure δ}
    (hall : (items.all fun a => (normal a).toOption.isSome) =
      items'.all fun a => (normal a).toOption.isSome)
    (h : (combine (normals normal items)).toOption =
      (combine' (normals normal items')).toOption) :
    (items.mapM normal >>= combine).toOption = (items'.mapM normal >>= combine').toOption := by
  have hbind : ∀ (e : Except Failure (List γ)) (f : List γ → Except Failure δ),
      (e >>= f).toOption = e.toOption.bind fun bs => (f bs).toOption := by
    intro e f
    cases e <;> rfl
  rw [hbind, hbind, toOption_mapM, toOption_mapM, hall]
  split
  · rw [Option.bind_some, Option.bind_some, h]
  · rfl

/-- The results of several items are the normal forms that these have. -/
theorem eq_normals {normal : β → Except Failure γ} {items : List β} {results : List γ}
    (h : items.mapM normal = .ok results) : results = normals normal items := by
  have hoption := toOption_mapM normal items
  rw [h] at hoption
  split at hoption
  · exact Option.some.inj hoption
  · cases hoption

theorem normals_congr {normal normal' : β → Except Failure γ} {items : List β}
    (h : ∀ a ∈ items, normal a = normal' a) : normals normal items = normals normal' items :=
  List.filterMap_congr fun a ha => by rw [h a ha]

theorem all_isSome_congr {normal normal' : β → Except Failure γ} {items : List β}
    (h : ∀ a ∈ items, normal a = normal' a) :
    (items.all fun a => (normal a).toOption.isSome) =
      items.all fun a => (normal' a).toOption.isSome := by
  rw [Bool.eq_iff_iff, List.all_eq_true, List.all_eq_true]
  exact forall₂_congr fun a ha => by rw [h a ha]

theorem normals_map {δ ε : Type} {normal : β → Except Failure γ} (inner : δ → Except Failure ε)
    {wrap : δ → β} (wrap' : ε → γ) (h : ∀ a, normal (wrap a) = (inner a).map wrap')
    (items : List δ) : normals normal (items.map wrap) = (normals inner items).map wrap' := by
  unfold normals
  rw [List.filterMap_map, List.map_filterMap]
  refine List.filterMap_congr fun a _ => ?_
  rw [Function.comp_apply, h]
  cases inner a <;> rfl

end Normals

/-- A geometry without positions has a normal form when each of its parts has one. -/
theorem toOption_isSome_empty {form : PartForm α} (hform : form.SortsEmpty) {g : Geometry α}
    (hg : g.IsCompound) (hempty : g.isEmpty = true) :
    (form.empty g).toOption.isSome =
      g.parts.all fun part => (form.apply part).toOption.isSome := by
  have hsome : ∀ {β : Type} {result : Except Failure β},
      result.toOption.isSome = true ↔ ∃ n, result = .ok n := by
    intro β result
    cases result <;> simp [Except.toOption]
  rw [Bool.eq_iff_iff, List.all_eq_true, hsome]
  constructor
  · rintro ⟨n, hn⟩ part hpart
    obtain ⟨m, -, hm⟩ := (hform.regroups g n hg hempty hn).parts.exists_image hpart
    exact hsome.mpr ⟨m, hm⟩
  · intro hparts
    exact hform.succeeds g hg hempty fun part hpart => hsome.mp (hparts part hpart)

variable [LinearOrder α] [BEq α]

theorem normalizeWith_pair {form : PartForm α} {g h g' h' : Geometry α}
    (hg : g.normalizeWith form = .ok g') (hh : h.normalizeWith form = .ok h')
    (hempty : (collection [g, h]).isEmpty = false) :
    (collection [g, h]).normalizeWith form =
      .ok (.collection (if h'.precedes g' then [h', g'] else [g', h'])) := by
  have hmap : [g, h].mapM (normalizeWith form) = .ok [g', h'] := by
    rw [List.mapM_cons, List.mapM_cons, hg, hh]
    rfl
  have hsort : sortParts [g', h'] = if h'.precedes g' then [h', g'] else [g', h'] :=
    Sorting.sort_pair _ _ _
  rw [(IsCompound.collection [g, h]).normalizeWith_eq, if_neg (by simp [hempty]), parts, hmap,
    ← hsort]
  rfl

/-! ## Parts that are told apart -/

/-- The comparison by which parts are sorted: by rows, or by the ranks of their kinds where none has
a position. -/
def partBelow (empty : Bool) (g h : Geometry α) : Bool :=
  if empty then decide (h.rank < g.rank) else g.precedes h

theorem ascends_partBelow {parts : List (Geometry α)} :
    Sorting.Ascends (partBelow true) parts ↔ parts.Pairwise fun a b => b.rank ≤ a.rank := by
  simp [Sorting.Ascends, partBelow]

mutual

/-- The normal forms of different parts never tie. Those of points do not, nor those of lines that
have heights throughout or not at all. -/
def TellsApart (form : PartForm α) : Geometry α → Prop
  | .multiLineString paths => ∀ path ∈ normals form.path paths, EvenHeights path
  | .multiPolygon polygons =>
    Sorting.NoTies (partBelow (Geometry.multiPolygon polygons).isEmpty)
      ((normals form.polygon polygons).map .polygon)
  | .collection parts =>
    Sorting.NoTies (partBelow (Geometry.collection parts).isEmpty)
        (normals (normalizeWith form) parts) ∧
      TellsPartsApart form parts
  | .point _ => True
  | .lineString _ => True
  | .linearRing _ => True
  | .polygon _ => True
  | .multiPoint _ => True
  | .unknown _ => True

def TellsPartsApart (form : PartForm α) : List (Geometry α) → Prop
  | [] => True
  | part :: rest => TellsApart form part ∧ TellsPartsApart form rest

end

theorem tellsPartsApart_iff {form : PartForm α} {parts : List (Geometry α)} :
    TellsPartsApart form parts ↔ ∀ part ∈ parts, TellsApart form part := by
  induction parts with
  | nil => simp [TellsPartsApart]
  | cons part rest ih => simp [TellsPartsApart, ih]

theorem noTies_of_same {form : PartForm α} {below : Geometry α → Geometry α → Bool}
    {parts : List (Geometry α)} (h : ∀ a ∈ parts, ∀ b ∈ parts, a = b) :
    Sorting.NoTies below (normals (normalizeWith form) parts) := by
  intro n hn m hm _ _
  obtain ⟨a, ha, han⟩ := List.mem_filterMap.mp hn
  obtain ⟨b, hb, hbm⟩ := List.mem_filterMap.mp hm
  rw [h a ha b hb, hbm] at han
  exact (Option.some.inj han).symm

variable [LawfulBEq α]

theorem noTies_points (points : List (Option (Position α))) :
    Sorting.NoTies precedes (points.map point) := by
  have heven : ∀ p : Option (Position α), EvenHeights (point p).positions := by
    intro p
    cases p with
    | none => exact Or.inr (by simp [positions])
    | some p =>
        cases hz : p.z with
        | none => exact Or.inr (by simp [positions, hz])
        | some z => exact Or.inl (by simp [positions, hz])
  intro a ha b hb hab hba
  obtain ⟨p, -, rfl⟩ := List.mem_map.mp ha
  obtain ⟨q, -, rfl⟩ := List.mem_map.mp hb
  have hpositions : p.toList = q.toList :=
    positions_eq_of_not_precedes (heven p) (heven q) hab hba
  cases p <;> cases q <;> simp_all

theorem noTies_paths {paths : List (Path α)} (h : ∀ path ∈ paths, EvenHeights path) :
    Sorting.NoTies precedes (paths.map lineString) := by
  intro a ha b hb hab hba
  obtain ⟨p, hp, rfl⟩ := List.mem_map.mp ha
  obtain ⟨q, hq, rfl⟩ := List.mem_map.mp hb
  have hpositions := positions_eq_of_not_precedes (g := .lineString p) (h := .lineString q)
    (h p hp) (h q hq) hab hba
  exact congrArg lineString hpositions

/-- Different parts of a multi-geometry or collection do not tie where they are sorted. -/
theorem TellsApart.noTies {form : PartForm α} {g : Geometry α} (h : TellsApart form g)
    (hg : g.IsCompound) :
    Sorting.NoTies (partBelow g.isEmpty) (normals (normalizeWith form) g.parts) := by
  cases hg with
  | multiPoint points =>
      cases hempty : (multiPoint points).isEmpty with
      | true =>
          refine noTies_of_same fun a ha b hb => ?_
          rw [isEmpty, List.all_eq_true] at hempty
          obtain ⟨p, hp, rfl⟩ := List.mem_map.mp ha
          obtain ⟨q, hq, rfl⟩ := List.mem_map.mp hb
          rw [Option.isNone_iff_eq_none.mp (hempty p hp),
            Option.isNone_iff_eq_none.mp (hempty q hq)]
      | false =>
          have hnormals : normals (normalizeWith form) (points.map point) = points.map point := by
            rw [normals_map .ok point normalizeWith_point]
            simp [normals, Except.toOption]
          rw [parts, hnormals]
          exact noTies_points points
  | multiLineString paths =>
      cases hempty : (multiLineString paths).isEmpty with
      | true =>
          refine noTies_of_same fun a ha b hb => ?_
          rw [isEmpty, List.all_eq_true] at hempty
          obtain ⟨p, hp, rfl⟩ := List.mem_map.mp ha
          obtain ⟨q, hq, rfl⟩ := List.mem_map.mp hb
          rw [List.isEmpty_iff.mp (hempty p hp), List.isEmpty_iff.mp (hempty q hq)]
      | false =>
          rw [parts, normals_map form.path lineString normalizeWith_lineString]
          exact noTies_paths h
  | multiPolygon polygons =>
      rw [parts, normals_map form.polygon polygon normalizeWith_polygon]
      exact h
  | collection parts => exact h.1

/-! ## Equal normal forms -/

/-- Geometries sorted by their rows come out the same from any order. -/
theorem sortParts_eq_of_perm {parts parts' : List (Geometry α)}
    (hties : Sorting.NoTies precedes parts) (hperm : parts.Perm parts') :
    sortParts parts = sortParts parts' :=
  precedes_strict.sort_eq_of_perm hties hperm

omit [LawfulBEq α] in
/-- Geometries without positions whose parts have the same normal forms, in any order, have the same
one. -/
theorem toOption_empty {form : PartForm α} (hform : form.SortsEmpty) {g h : Geometry α}
    (hg : g.IsCompound) (hh : h.IsCompound) (htype : g.typeName = h.typeName)
    (hgempty : g.isEmpty = true) (hhempty : h.isEmpty = true)
    (hties : Sorting.NoTies (partBelow true) (normals form.apply g.parts))
    (hall : (g.parts.all fun part => (form.apply part).toOption.isSome) =
      h.parts.all fun part => (form.apply part).toOption.isSome)
    (hnormals : (normals form.apply g.parts).Perm (normals form.apply h.parts)) :
    (form.empty g).toOption = (form.empty h).toOption := by
  have hgall := toOption_isSome_empty hform hg hgempty
  rw [hall, ← toOption_isSome_empty hform hh hhempty] at hgall
  cases hn : form.empty g with
  | error failure =>
      cases hm : form.empty h with
      | error other => rfl
      | ok m => simp [hn, hm, Except.toOption] at hgall
  | ok n =>
      cases hm : form.empty h with
      | error failure => simp [hn, hm, Except.toOption] at hgall
      | ok m =>
          obtain ⟨-, hncompound, hntype, results, hresults, hnparts⟩ :=
            hform.regroups g n hg hgempty hn
          obtain ⟨-, hmcompound, hmtype, others, hothers, hmparts⟩ :=
            hform.regroups h m hh hhempty hm
          rw [eq_normals hresults] at hnparts
          rw [eq_normals hothers] at hmparts
          have hsame : n.parts = m.parts :=
            Sorting.eq_of_ascends (hties.perm hnparts.symm)
              (hnparts.trans (hnormals.trans hmparts.symm))
              (ascends_partBelow.mpr (hform.descends g n hg hgempty hn))
              (ascends_partBelow.mpr (hform.descends h m hh hhempty hm))
          rw [hncompound.eq_of_parts hmcompound (hntype.trans (htype.trans hmtype.symm)) hsame]

/-- Geometries of one kind whose parts have the same normal forms, in any order, have the same
one. -/
theorem toOption_compound {form : PartForm α} (hform : form.SortsEmpty) {g h : Geometry α}
    (hg : g.IsCompound) (hh : h.IsCompound) (htype : g.typeName = h.typeName)
    (hempty : g.isEmpty = h.isEmpty)
    (hties : Sorting.NoTies (partBelow g.isEmpty) (normals (normalizeWith form) g.parts))
    (hall : (g.parts.all fun part => (part.normalizeWith form).toOption.isSome) =
      h.parts.all fun part => (part.normalizeWith form).toOption.isSome)
    (hnormals : (normals (normalizeWith form) g.parts).Perm
      (normals (normalizeWith form) h.parts)) :
    (g.normalizeWith form).toOption = (h.normalizeWith form).toOption := by
  rw [hg.normalizeWith_eq, hh.normalizeWith_eq, ← hempty]
  cases hgempty : g.isEmpty with
  | true =>
      have happly : ∀ {k : Geometry α}, k.IsCompound → k.isEmpty = true →
          ∀ part ∈ k.parts, part.normalizeWith form = form.apply part := by
        intro k hk hkempty part hpart
        rw [hk.isEmpty_eq, List.all_eq_true] at hkempty
        exact normalizeWith_of_isEmpty (hkempty part hpart)
      have hgapply := happly hg hgempty
      have hhapply := happly hh (hempty ▸ hgempty)
      rw [hgempty, normals_congr hgapply] at hties
      rw [normals_congr hgapply, normals_congr hhapply] at hnormals
      rw [all_isSome_congr hgapply, all_isSome_congr hhapply] at hall
      exact toOption_empty hform hg hh htype hgempty (hempty ▸ hgempty) hties hall hnormals
  | false =>
      refine toOption_bind_mapM hall ?_
      rw [hgempty] at hties
      rw [regroup_congr hg hh htype, sortParts_eq_of_perm hties hnormals]

/-! ## Normal forms of reordered geometries -/

/-- A reordering keeps the normal form, and that different parts do not tie. -/
theorem Reordered.keeps {form : PartForm α} (hform : form.SortsEmpty) {g h : Geometry α}
    (hr : Reordered g h) (hapart : TellsApart form g) :
    (g.normalizeWith form).toOption = (h.normalizeWith form).toOption ∧ TellsApart form h := by
  -- both at once, as a reordering of a reordering needs its parts told apart
  induction hr with
  | refl g => exact ⟨rfl, hapart⟩
  | trans _ _ ih ih' =>
      obtain ⟨hgh, hmiddle⟩ := ih hapart
      obtain ⟨hhk, hlast⟩ := ih' hmiddle
      exact ⟨hgh.trans hhk, hlast⟩
  | @points ps qs hperm =>
      have hparts : (ps.map point).Perm (qs.map point) := hperm.map _
      refine ⟨?_, hapart⟩
      exact toOption_compound hform (.multiPoint ps) (.multiPoint qs) rfl
        (Reordered.points hperm).isEmpty_eq (hapart.noTies (.multiPoint ps)) hparts.all_eq
        (hparts.filterMap _)
  | @paths ps qs hperm =>
      have hparts : (ps.map lineString).Perm (qs.map lineString) := hperm.map _
      have hnormals : (normals form.path ps).Perm (normals form.path qs) := hperm.filterMap _
      refine ⟨?_, fun path hpath => hapart path (hnormals.mem_iff.mpr hpath)⟩
      exact toOption_compound hform (.multiLineString ps) (.multiLineString qs) rfl
        (Reordered.paths hperm).isEmpty_eq (hapart.noTies (.multiLineString ps)) hparts.all_eq
        (hparts.filterMap _)
  | @polygons ps qs hperm =>
      have hparts : (ps.map polygon).Perm (qs.map polygon) := hperm.map _
      have hnormals : (normals form.polygon ps).Perm (normals form.polygon qs) :=
        hperm.filterMap _
      have hempty := (Reordered.polygons hperm).isEmpty_eq
      have hties := Sorting.NoTies.perm hapart (hnormals.map Geometry.polygon)
      rw [hempty] at hties
      refine ⟨?_, hties⟩
      exact toOption_compound hform (.multiPolygon ps) (.multiPolygon qs) rfl hempty
        (hapart.noTies (.multiPolygon ps)) hparts.all_eq (hparts.filterMap _)
  | @parts gs hs hperm =>
      obtain ⟨hties, hparts⟩ := hapart
      rw [tellsPartsApart_iff] at hparts
      have hempty := (Reordered.parts hperm).isEmpty_eq
      have hnormals : (normals (normalizeWith form) gs).Perm (normals (normalizeWith form) hs) :=
        hperm.filterMap _
      refine ⟨?_, hempty ▸ hties.perm hnormals, tellsPartsApart_iff.mpr fun part hpart =>
        hparts part (hperm.mem_iff.mpr hpart)⟩
      exact toOption_compound hform (.collection gs) (.collection hs) rfl hempty hties
        hperm.all_eq hnormals
  | @within g h before after hgh ih =>
      obtain ⟨hties, hparts⟩ := hapart
      rw [tellsPartsApart_iff] at hparts
      obtain ⟨hsame, hlast⟩ := ih (hparts g (by simp))
      have hempty := (Reordered.within before after hgh).isEmpty_eq
      have hnormals : normals (normalizeWith form) (before ++ g :: after) =
          normals (normalizeWith form) (before ++ h :: after) := by
        simp [normals, List.filterMap_cons, hsame]
      refine ⟨?_, hempty ▸ hnormals ▸ hties, tellsPartsApart_iff.mpr fun part hpart => ?_⟩
      · exact toOption_compound hform (.collection _) (.collection _) rfl hempty hties
          (by simp [Geometry.parts, hsame]) (.of_eq hnormals)
      · rcases List.mem_append.mp hpart with hpart | hpart
        · exact hparts part (by simp [hpart])
        · rcases List.mem_cons.mp hpart with rfl | hpart
          · exact hlast
          · exact hparts part (by simp [hpart])

/-- Where different parts do not tie, the normal form does not depend on their order: either both
geometries have the same one or neither has one. -/
theorem normalizeWith_reordered (form : PartForm α) (hform : form.SortsEmpty) (g h : Geometry α)
    (hapart : TellsApart form g) (hr : Reordered g h) :
    (g.normalizeWith form).toOption = (h.normalizeWith form).toOption :=
  (hr.keeps hform hapart).1

/-- A multi-point, and a collection in which one point has a height, in two orders. -/
theorem normalizeWith_reordered_nested :
    (PartForm.asGiven : PartForm ℚ).SortsEmpty ∧
    TellsApart .asGiven (.collection [.multiPoint [some (⟨0, 0, none⟩ : Position ℚ)],
      .collection [.point (some ⟨5, 5, some 3⟩), .point (some ⟨4, 4, none⟩)]]) ∧
    Reordered
      (.collection [.multiPoint [some (⟨0, 0, none⟩ : Position ℚ)],
        .collection [.point (some ⟨5, 5, some 3⟩), .point (some ⟨4, 4, none⟩)]])
      (.collection [.collection [.point (some ⟨4, 4, none⟩), .point (some ⟨5, 5, some 3⟩)],
        .multiPoint [some ⟨0, 0, none⟩]]) ∧
    ((Geometry.collection [.multiPoint [some (⟨0, 0, none⟩ : Position ℚ)],
        .collection [.point (some ⟨5, 5, some 3⟩), .point (some ⟨4, 4, none⟩)]]).normalizeWith
          .asGiven).toOption =
      ((Geometry.collection [.collection [.point (some (⟨4, 4, none⟩ : Position ℚ)),
          .point (some ⟨5, 5, some 3⟩)],
        .multiPoint [some ⟨0, 0, none⟩]]).normalizeWith .asGiven).toOption := by
  have hsorts : (PartForm.asGiven : PartForm ℚ).SortsEmpty :=
    PartForm.asGiven_settlesEmpty.toSortsEmpty
  have hswap : Reordered
      (.collection [.point (some ⟨5, 5, some 3⟩), .point (some (⟨4, 4, none⟩ : Position ℚ))])
      (.collection [.point (some ⟨4, 4, none⟩), .point (some ⟨5, 5, some 3⟩)]) :=
    .parts (.swap _ _ _)
  have hreordered := (Reordered.within [.multiPoint [some ⟨0, 0, none⟩]] [] hswap).trans
    (.parts (.swap _ _ _))
  have hpair : (Geometry.collection [.point (some ⟨5, 5, some 3⟩),
      .point (some (⟨4, 4, none⟩ : Position ℚ))]).normalizeWith .asGiven =
        .ok (.collection [.point (some ⟨4, 4, none⟩), .point (some ⟨5, 5, some 3⟩)]) := by
    rw [normalizeWith_pair rfl rfl rfl, if_pos (by decide +kernel)]
  have hapart : TellsApart .asGiven (.collection [.multiPoint [some (⟨0, 0, none⟩ : Position ℚ)],
      .collection [.point (some ⟨5, 5, some 3⟩), .point (some ⟨4, 4, none⟩)]]) := by
    refine ⟨?_, trivial, ⟨?_, trivial, trivial, trivial⟩, trivial⟩
    · have hnormals : normals (normalizeWith .asGiven)
          [.multiPoint [some (⟨0, 0, none⟩ : Position ℚ)],
            .collection [.point (some ⟨5, 5, some 3⟩), .point (some ⟨4, 4, none⟩)]] =
          [.multiPoint [some ⟨0, 0, none⟩],
            .collection [.point (some ⟨4, 4, none⟩), .point (some ⟨5, 5, some 3⟩)]] := by
        simp only [normals, List.filterMap_cons, hpair]
        rfl
      rw [hnormals]
      exact Sorting.noTies_pair (by decide +kernel)
    · refine Sorting.NoTies.perm (Sorting.noTies_pair ?_) (.swap _ _ _)
      decide +kernel
  exact ⟨hsorts, hapart, hreordered, normalizeWith_reordered _ hsorts _ _ hapart hreordered⟩

/-- A point and a multi-point at one place keep their order. -/
theorem normalizeWith_ties_keep_order :
    Reordered
      (.collection [.point (some ⟨0, 0, none⟩), .multiPoint [some (⟨0, 0, none⟩ : Position ℚ)]])
      (.collection [.multiPoint [some ⟨0, 0, none⟩], .point (some ⟨0, 0, none⟩)]) ∧
    ((Geometry.collection [.point (some ⟨0, 0, none⟩),
        .multiPoint [some (⟨0, 0, none⟩ : Position ℚ)]]).normalizeWith .asGiven).toOption ≠
      ((Geometry.collection [.multiPoint [some (⟨0, 0, none⟩ : Position ℚ)],
        .point (some ⟨0, 0, none⟩)]).normalizeWith .asGiven).toOption := by
  refine ⟨.parts (.swap _ _ _), ?_⟩
  rw [normalizeWith_pair rfl rfl rfl, normalizeWith_pair rfl rfl rfl, if_neg (by decide +kernel),
    if_neg (by decide +kernel)]
  simp [Except.toOption, ofPoints]

end Geospatial.Geometry
