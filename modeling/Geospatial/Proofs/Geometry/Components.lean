import Geospatial.Geometry.Components
import Mathlib.Data.List.Basic

/-!
# Components

The components of a geometry are single parts with positions, and such a part is its own only
component. They are of the family of the geometry, unless it is mixed. In a geometry that can be
built an area without a shell has no positions, so that the positions of the geometry are those of
its components, one after the other, and it is empty when it has no component.
-/

namespace Geospatial

section Results

variable {β γ : Type} {f : β → Except Failure γ} {items : List β}

theorem bind_eq_ok_iff {x : Except Failure β} {c : γ} :
    x >>= f = .ok c ↔ ∃ b, x = .ok b ∧ f b = .ok c := by
  cases x <;> simp [bind, Except.bind]

/-- Results that look the same are both failures, or both successes that look the same. -/
theorem results_of_map_eq {x y : Except Failure β} {f : β → γ} (h : x.map f = y.map f) :
    (∃ e, x = .error e ∧ y = .error e) ∨ ∃ a b, x = .ok a ∧ y = .ok b ∧ f a = f b := by
  cases x with
  | error e =>
      cases y with
      | error e' => exact Or.inl ⟨e, rfl, congrArg Except.error (Except.error.inj h).symm⟩
      | ok b => cases h
  | ok a =>
      cases y with
      | error e => cases h
      | ok b => exact Or.inr ⟨a, b, rfl, rfl, Except.ok.inj h⟩

/-- A step that has no effect on any item has none on all of them. -/
theorem mapM_eq_pure {m : Type → Type} [Monad m] [LawfulMonad m] {f : β → m γ} {g : β → γ}
    (h : ∀ a ∈ items, f a = pure (g a)) : items.mapM f = pure (items.map g) := by
  induction items with
  | nil => rw [List.mapM_nil, List.map_nil]
  | cons a rest ih =>
      rw [List.mapM_cons, h a List.mem_cons_self, ih fun b hb => h b (List.mem_cons_of_mem _ hb),
        pure_bind, pure_bind, List.map_cons]

/-- A step that succeeds with every item succeeds with all of them. -/
theorem mapM_ok {g : β → γ} (h : ∀ a ∈ items, f a = .ok (g a)) :
    items.mapM f = .ok (items.map g) :=
  mapM_eq_pure h

/-- A step that fails in one way only fails so with all items when it does with one. -/
theorem mapM_error {e : Failure} (h : ∀ a ∈ items, f a = .error e ∨ ∃ b, f a = .ok b)
    (hfails : ∃ a ∈ items, f a = .error e) : items.mapM f = .error e := by
  induction items with
  | nil => simp at hfails
  | cons a rest ih =>
      rw [List.mapM_cons]
      rcases h a List.mem_cons_self with ha | ⟨b, ha⟩
      · rw [ha]
        rfl
      · obtain ⟨c, hc, hcfails⟩ := hfails
        rcases List.mem_cons.mp hc with rfl | hc
        · rw [ha] at hcfails
          cases hcfails
        · rw [ha, ih (fun d hd => h d (List.mem_cons_of_mem _ hd)) ⟨c, hc, hcfails⟩]
          rfl

theorem mapM_congr {g : β → Except Failure γ} (h : ∀ a ∈ items, f a = g a) :
    items.mapM f = items.mapM g := by
  induction items with
  | nil => rfl
  | cons a rest ih =>
      rw [List.mapM_cons, List.mapM_cons, h a List.mem_cons_self,
        ih fun b hb => h b (List.mem_cons_of_mem _ hb)]

theorem mapM_map_result {δ : Type} (g : γ → δ) (items : List β) :
    (items.mapM fun a => (f a).map g) = (items.mapM f).map (List.map g) := by
  induction items with
  | nil => rfl
  | cons a rest ih =>
      rw [List.mapM_cons, List.mapM_cons, ih]
      cases f a with
      | error e => rfl
      | ok b => cases rest.mapM f <;> rfl

theorem mapM_cons_eq_ok_iff {a : β} {results : List γ} :
    (a :: items).mapM f = .ok results ↔
      ∃ b, f a = .ok b ∧ ∃ rest, items.mapM f = .ok rest ∧ results = b :: rest := by
  rw [List.mapM_cons, bind_eq_ok_iff]
  refine exists_congr fun b => and_congr_right fun _ => ?_
  rw [bind_eq_ok_iff]
  refine exists_congr fun rest => and_congr_right fun _ => ?_
  change Except.ok (b :: rest) = Except.ok results ↔ _
  rw [Except.ok.injEq, eq_comm]

theorem exists_result_of_mem {results : List γ} (h : items.mapM f = .ok results) {a : β}
    (ha : a ∈ items) : ∃ b ∈ results, f a = .ok b := by
  induction items generalizing results with
  | nil => cases ha
  | cons first rest ih =>
      obtain ⟨b, hb, others, hothers, rfl⟩ := mapM_cons_eq_ok_iff.mp h
      rcases List.mem_cons.mp ha with rfl | ha
      · exact ⟨b, List.mem_cons_self, hb⟩
      · obtain ⟨c, hc, hac⟩ := ih hothers ha
        exact ⟨c, List.mem_cons_of_mem _ hc, hac⟩

theorem exists_item_of_mem {results : List γ} (h : items.mapM f = .ok results) {b : γ}
    (hb : b ∈ results) : ∃ a ∈ items, f a = .ok b := by
  induction items generalizing results with
  | nil =>
      cases h
      cases hb
  | cons first rest ih =>
      obtain ⟨c, hc, others, hothers, rfl⟩ := mapM_cons_eq_ok_iff.mp h
      rcases List.mem_cons.mp hb with rfl | hb
      · exact ⟨first, List.mem_cons_self, hc⟩
      · obtain ⟨a, ha, hab⟩ := ih hothers hb
        exact ⟨a, List.mem_cons_of_mem _ ha, hab⟩

end Results

/-- The families of a list that is not mixed are all the same. -/
theorem Family.eq_shared {fs : List Family} {f : Family} (hf : f ∈ fs) (h : shared fs ≠ mixed) :
    f = shared fs := by
  cases fs with
  | nil => cases hf
  | cons first rest =>
      by_cases hall : rest.all (· == first)
      · rw [shared, if_pos hall]
        rcases List.mem_cons.mp hf with rfl | hrest
        · rfl
        · simpa using List.all_eq_true.mp hall f hrest
      · rw [shared, if_neg hall] at h
        exact absurd rfl h

namespace Geometry

variable {α : Type}

theorem readable_eq {g : Geometry α} (h : g.isUnknown = false) : g.readable = .ok g := by
  unfold readable
  rw [h]
  rfl

theorem hasHeight_of_mem_evenPositions [Div α] [OfNat α 0] {g : Geometry α} {p : Position α}
    (hp : p ∈ g.evenPositions) : p.hasHeight = g.hasHeight := by
  unfold evenPositions at hp
  split at hp
  · rename_i hheight
    obtain ⟨q, -, rfl⟩ := List.mem_map.mp hp
    rw [hheight]
    rfl
  · rename_i hheight
    rw [Bool.not_eq_true] at hheight
    rw [hheight]
    exact Bool.eq_false_iff.mpr (List.any_eq_false.mp hheight p hp)

theorem length_evenPositions [Div α] [OfNat α 0] (g : Geometry α) :
    g.evenPositions.length = g.positions.length := by
  unfold evenPositions
  split
  · exact List.length_map _
  · rfl

theorem filterMap_map_id {β γ : Type} (f : β → γ) (items : List (Option β)) :
    (items.map (Option.map f)).filterMap id = (items.filterMap id).map f := by
  rw [List.filterMap_map, List.map_filterMap]
  rfl

@[simp] theorem positions_ofPoints (points : List (Position α)) :
    (ofPoints points).positions = points := by
  simp [ofPoints, positions, List.filterMap_map]

theorem components_ofPoints (points : List (Position α)) :
    (ofPoints points).components = points.map fun p => point (some p) := by
  simp [ofPoints, components, List.filterMap_map]

/-! ## Parts of a collection -/

theorem componentsOfParts_eq_flatMap (parts : List (Geometry α)) :
    componentsOfParts parts = parts.flatMap components := by
  induction parts with
  | nil => rfl
  | cons part rest ih => rw [componentsOfParts, ih, List.flatMap_cons]

theorem positionsOfParts_eq_flatMap (parts : List (Geometry α)) :
    positionsOfParts parts = parts.flatMap positions := by
  induction parts with
  | nil => rfl
  | cons part rest ih => rw [positionsOfParts, ih, List.flatMap_cons]

theorem allEmpty_eq_all (parts : List (Geometry α)) : allEmpty parts = parts.all isEmpty := by
  induction parts with
  | nil => rfl
  | cons part rest ih => rw [allEmpty, ih, List.all_cons]

@[simp] theorem components_collection (parts : List (Geometry α)) :
    (collection parts).components = parts.flatMap components := by
  rw [components, componentsOfParts_eq_flatMap]

@[simp] theorem positions_collection (parts : List (Geometry α)) :
    (collection parts).positions = parts.flatMap positions := by
  rw [positions, positionsOfParts_eq_flatMap]

/-- What holds of all geometries but collections, and of a collection when it holds of its parts,
holds of all geometries. -/
theorem induction_on_parts {motive : Geometry α → Prop} (g : Geometry α)
    (other : ∀ g : Geometry α, (∀ parts, g ≠ collection parts) → motive g)
    (parts : ∀ parts, (∀ part ∈ parts, motive part) → motive (collection parts)) : motive g := by
  match g with
  | collection items => exact parts items fun part _ => induction_on_parts part other parts
  | point _ | lineString _ | linearRing _ | polygon _ | multiPoint _ | multiLineString _
  | multiPolygon _ | unknown _ => exact other _ (by simp)
termination_by sizeOf g

/-! ## Single parts -/

inductive IsComponent : Geometry α → Prop
  | point (p : Position α) : IsComponent (.point (some p))
  | lineString {path : Path α} : path ≠ [] → IsComponent (.lineString path)
  | linearRing {path : Path α} : path ≠ [] → IsComponent (.linearRing path)
  | polygon {p : Polygon α} : p.shell ≠ [] → IsComponent (.polygon p)

inductive ComponentOf : Geometry α → Geometry α → Prop
  | itself {c : Geometry α} : c.IsComponent → ComponentOf c c
  | multiPoint {points : List (Option (Position α))} {p : Position α} :
      some p ∈ points → ComponentOf (.point (some p)) (.multiPoint points)
  | multiLineString {paths : List (Path α)} {path : Path α} :
      path ∈ paths → path ≠ [] → ComponentOf (.lineString path) (.multiLineString paths)
  | multiPolygon {polygons : List (Polygon α)} {p : Polygon α} :
      p ∈ polygons → p.shell ≠ [] → ComponentOf (.polygon p) (.multiPolygon polygons)
  | collection {parts : List (Geometry α)} {part c : Geometry α} :
      part ∈ parts → ComponentOf c part → ComponentOf c (.collection parts)

/-- The components of a geometry are its single parts that have a position. -/
theorem componentOf_of_mem {g c : Geometry α} (h : c ∈ g.components) : ComponentOf c g := by
  induction g using induction_on_parts with
  | parts items ih =>
      rw [components_collection] at h
      obtain ⟨part, hpart, hc⟩ := List.mem_flatMap.mp h
      exact .collection hpart (ih part hpart hc)
  | other g hg =>
      cases g with
      | collection parts => exact absurd rfl (hg parts)
      | unknown name => cases h
      | point p =>
          cases p with
          | none => cases h
          | some p =>
              obtain rfl := List.mem_singleton.mp h
              exact .itself (.point p)
      | lineString path =>
          obtain ⟨hpath, rfl⟩ : path ≠ [] ∧ c = lineString path := by simpa [components] using h
          exact .itself (.lineString hpath)
      | linearRing path =>
          obtain ⟨hpath, rfl⟩ : path ≠ [] ∧ c = linearRing path := by simpa [components] using h
          exact .itself (.linearRing hpath)
      | polygon p =>
          obtain ⟨hshell, rfl⟩ : p.shell ≠ [] ∧ c = polygon p := by
            simpa [components, Polygon.isEmpty] using h
          exact .itself (.polygon hshell)
      | multiPoint points =>
          obtain ⟨p, hp, rfl⟩ := List.mem_map.mp h
          exact .multiPoint (by simpa using hp)
      | multiLineString paths =>
          obtain ⟨path, hpath, rfl⟩ := List.mem_map.mp h
          obtain ⟨hmem, hne⟩ := List.mem_filter.mp hpath
          exact .multiLineString hmem (by simpa using hne)
      | multiPolygon polygons =>
          obtain ⟨p, hp, rfl⟩ := List.mem_map.mp h
          obtain ⟨hmem, hne⟩ := List.mem_filter.mp hp
          exact .multiPolygon hmem (by simpa [Polygon.isEmpty] using hne)

theorem isComponent_of_mem {g c : Geometry α} (h : c ∈ g.components) : c.IsComponent := by
  replace h := componentOf_of_mem h
  induction h with
  | itself hc => exact hc
  | multiPoint _ => exact .point _
  | multiLineString _ hne => exact .lineString hne
  | multiPolygon _ hne => exact .polygon hne
  | collection _ _ ih => exact ih

/-- The positions of a component are positions of the geometry. -/
theorem positions_subset {g c : Geometry α} (h : c ∈ g.components) :
    c.positions ⊆ g.positions := by
  replace h := componentOf_of_mem h
  induction h with
  | itself _ => exact List.Subset.refl _
  | multiPoint hp => simpa [positions] using hp
  | multiLineString hpath _ => exact fun q hq => List.mem_flatten_of_mem hpath hq
  | multiPolygon hp _ => exact fun q hq => List.mem_flatMap.mpr ⟨_, hp, hq⟩
  | collection hpart _ ih =>
      rw [positions_collection]
      exact fun q hq => List.mem_flatMap.mpr ⟨_, hpart, ih hq⟩

namespace IsComponent

variable {c : Geometry α}

/-- A component is its own only component. -/
theorem components_eq (h : c.IsComponent) : c.components = [c] := by
  cases h with
  | point p => rfl
  | lineString hpath => simpa [components] using hpath
  | linearRing hpath => simpa [components] using hpath
  | polygon hshell => simpa [components, Polygon.isEmpty] using hshell

theorem isUnknown_eq (h : c.IsComponent) : c.isUnknown = false := by cases h <;> rfl

theorem positions_ne_nil (h : c.IsComponent) : c.positions ≠ [] := by
  cases h with
  | point p => simp [positions]
  | lineString hpath => exact hpath
  | linearRing hpath => exact hpath
  | polygon hshell => simp [positions, Polygon.positions, hshell]

end IsComponent

/-! ## Families -/

theorem families_eq_mapM (parts : List (Geometry α)) : families parts = parts.mapM family := by
  induction parts with
  | nil => rfl
  | cons part rest ih => rw [families, ih, List.mapM_cons]

theorem families_of_collection {parts : List (Geometry α)} {f : Family}
    (h : (collection parts).family = .ok f) :
    ∃ fs, parts.mapM family = .ok fs ∧ Family.shared fs = f := by
  rw [family, families_eq_mapM] at h
  cases hfs : parts.mapM family with
  | error e =>
      rw [hfs] at h
      cases h
  | ok fs =>
      rw [hfs] at h
      exact ⟨fs, rfl, Except.ok.inj h⟩

/-- The components of a geometry are of its family, unless it is mixed. -/
theorem family_of_mem_components {g c : Geometry α} {f : Family} (h : g.family = .ok f)
    (hf : f ≠ .mixed) (hc : c ∈ g.components) : c.family = .ok f := by
  replace hc := componentOf_of_mem hc
  induction hc with
  | itself _ => exact h
  | multiPoint _ => exact h
  | multiLineString _ _ => exact h
  | multiPolygon _ _ => exact h
  | collection hpart _ ih =>
      obtain ⟨fs, hfs, rfl⟩ := families_of_collection h
      obtain ⟨f, hmem, hfamily⟩ := exists_result_of_mem hfs hpart
      rw [Family.eq_shared hmem hf] at hfamily
      exact ih hfamily

theorem IsComponent.of_puntal {c : Geometry α} (hc : c.IsComponent)
    (h : c.family = .ok .puntal) : ∃ p, c = .point (some p) := by
  cases hc with
  | point p => exact ⟨p, rfl⟩
  | lineString _ => cases h
  | linearRing _ => cases h
  | polygon _ => cases h

theorem IsComponent.of_lineal {c : Geometry α} (hc : c.IsComponent)
    (h : c.family = .ok .lineal) : ∃ path, c = .lineString path ∨ c = .linearRing path := by
  cases hc with
  | point _ => cases h
  | @lineString path _ => exact ⟨path, Or.inl rfl⟩
  | @linearRing path _ => exact ⟨path, Or.inr rfl⟩
  | polygon _ => cases h

theorem IsComponent.of_polygonal {c : Geometry α} (hc : c.IsComponent)
    (h : c.family = .ok .polygonal) : ∃ p : Polygon α, c = .polygon p ∧ p.shell ≠ [] := by
  cases hc with
  | point _ => cases h
  | lineString _ => cases h
  | linearRing _ => cases h
  | @polygon p hshell => exact ⟨p, rfl, hshell⟩

/-! ## Geometries that can be built -/

/-- A geometry as it can be built: its parts are of known kinds, and an area without a shell has no
positions. -/
inductive Formed : Geometry α → Prop
  | point (p : Option (Position α)) : Formed (.point p)
  | lineString (path : Path α) : Formed (.lineString path)
  | linearRing (path : Path α) : Formed (.linearRing path)
  | polygon {p : Polygon α} : (p.isEmpty = true → p.positions = []) → Formed (.polygon p)
  | multiPoint (points : List (Option (Position α))) : Formed (.multiPoint points)
  | multiLineString (paths : List (Path α)) : Formed (.multiLineString paths)
  | multiPolygon {polygons : List (Polygon α)} :
      (∀ p ∈ polygons, p.isEmpty = true → p.positions = []) → Formed (.multiPolygon polygons)
  | collection {parts : List (Geometry α)} :
      (∀ part ∈ parts, Formed part) → Formed (.collection parts)

theorem flatMap_filter_of_nil {β γ : Type} {f : β → List γ} {keep : β → Bool} {items : List β}
    (h : ∀ a ∈ items, keep a = false → f a = []) :
    (items.filter keep).flatMap f = items.flatMap f := by
  induction items with
  | nil => rfl
  | cons a rest ih =>
      have hrest := ih fun b hb => h b (List.mem_cons_of_mem _ hb)
      cases ha : keep a with
      | true => rw [List.filter_cons_of_pos ha, List.flatMap_cons, List.flatMap_cons, hrest]
      | false =>
          rw [List.filter_cons_of_neg (by simp [ha]), List.flatMap_cons,
            h a List.mem_cons_self ha, List.nil_append, hrest]

namespace Formed

variable {g : Geometry α}

theorem isUnknown_eq (h : g.Formed) : g.isUnknown = false := by cases h <;> rfl

/-- The positions of a geometry are those of its components. -/
theorem positions_eq (h : g.Formed) : g.positions = g.components.flatMap positions := by
  induction h with
  | point p => cases p <;> rfl
  | lineString path => cases path <;> simp [components, positions]
  | linearRing path => cases path <;> simp [components, positions]
  | @polygon p hp =>
      by_cases hempty : p.isEmpty
      · simp [components, positions, hempty, hp hempty]
      · simp [components, positions, hempty]
  | multiPoint points => simp [components, positions, List.flatMap_map]
  | multiLineString paths =>
      simp only [components, List.flatMap_map, positions]
      rw [flatMap_filter_of_nil (by simp), List.flatMap_id']
  | multiPolygon hpolygons =>
      simp only [components, List.flatMap_map, positions]
      rw [flatMap_filter_of_nil (by simpa using hpolygons)]
  | @collection parts hparts ih =>
      rw [components_collection, positions_collection, List.flatMap_assoc]
      exact List.flatMap_congr ih

/-- A geometry is empty when it has no component. -/
theorem isEmpty_iff (h : g.Formed) : g.isEmpty = true ↔ g.components = [] := by
  induction h with
  | point p => cases p <;> simp [isEmpty, components]
  | lineString path => simp [isEmpty, components]
  | linearRing path => simp [isEmpty, components]
  | polygon hp => simp [isEmpty, components]
  | multiPoint points => simp [isEmpty, components]
  | multiLineString paths => simp [isEmpty, components]
  | multiPolygon hpolygons => simp [isEmpty, components]
  | @collection parts hparts ih =>
      rw [isEmpty, allEmpty_eq_all, List.all_eq_true, components_collection,
        List.flatMap_eq_nil_iff]
      exact forall₂_congr ih

theorem exists_family (h : g.Formed) : ∃ f, g.family = .ok f := by
  induction h with
  | @collection parts hparts ih =>
      choose! f hf using ih
      rw [family, families_eq_mapM, mapM_ok hf]
      exact ⟨_, rfl⟩
  | _ => exact ⟨_, rfl⟩

end Formed

/-- A geometry as it can be built, each line of which joins at least two positions. -/
structure Drawn (g : Geometry α) : Prop where
  formed : g.Formed
  joins : ∀ c ∈ g.components, c.family = .ok .lineal → 2 ≤ c.positions.length

/-- Where all parts are of one family and that is not of lines, there is no line to draw. -/
theorem Formed.drawn {g : Geometry α} {f : Family} (h : g.Formed) (hf : g.family = .ok f)
    (hmixed : f ≠ .mixed) (hlineal : f ≠ .lineal) : g.Drawn := by
  refine ⟨h, fun c hc hline => absurd ?_ hlineal⟩
  rw [family_of_mem_components hf hmixed hc] at hline
  exact Except.ok.inj hline

theorem drawn_collection {parts : List (Geometry α)} (h : ∀ part ∈ parts, part.Drawn) :
    (collection parts).Drawn := by
  refine ⟨.collection fun part hpart => (h part hpart).formed, fun c hc hline => ?_⟩
  rw [components_collection] at hc
  obtain ⟨part, hpart, hc⟩ := List.mem_flatMap.mp hc
  exact (h part hpart).joins c hc hline

end Geometry

end Geospatial
