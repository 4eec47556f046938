import Geospatial.Proofs.Geometry.Singles

/-!
# Families and components

A family that is not mixed is that of all components of the geometry. Where no part is empty, at any
depth, the components tell the family of a collection: it is the one that they share, and mixed when
there is no component or two of them differ. A point, line, ring, area or multi-geometry has the
family of its kind also when it is empty and has no component.
-/

namespace Geospatial.Geometry

variable {α : Type} {g : Geometry α} {f : Family}

/-! ## Parts -/

def Filled (g : Geometry α) : Prop := ∀ part, PartOf part g → part.isEmpty = false

theorem Filled.part (h : g.Filled) {part : Geometry α} (hpart : part ∈ g.parts) :
    part.isEmpty = false ∧ part.Filled :=
  ⟨h part (.direct hpart), fun inner hinner => h inner (.nested hpart hinner)⟩

theorem Formed.components_ne_nil (hg : g.Formed) (h : g.isEmpty = false) : g.components ≠ [] := by
  intro hnil
  rw [hg.isEmpty_iff.mpr hnil] at h
  cases h

/-! ## Families -/

/-- Only collections are mixed. -/
theorem family_ne_mixed (hg : ∀ parts, g ≠ collection parts) (h : g.family = .ok f) :
    f ≠ .mixed := by
  rintro rfl
  cases g with
  | collection parts => exact hg parts rfl
  | _ => cases h

theorem IsComponent.exists_family {c : Geometry α} (h : c.IsComponent) :
    ∃ f ≠ Family.mixed, c.family = .ok f := by
  cases h with
  | point p => exact ⟨.puntal, by decide, rfl⟩
  | lineString _ => exact ⟨.lineal, by decide, rfl⟩
  | linearRing _ => exact ⟨.lineal, by decide, rfl⟩
  | polygon _ => exact ⟨.polygonal, by decide, rfl⟩

theorem family_of_parts {parts : List (Geometry α)} (hne : parts ≠ []) (hf : f ≠ .mixed)
    (h : ∀ part ∈ parts, part.family = .ok f) : (collection parts).family = .ok f := by
  rw [family, families_eq_mapM, mapM_ok h]
  refine congrArg Except.ok ((Family.shared_eq_iff hf).mpr ⟨?_, fun k hk => ?_⟩)
  · simpa using hne
  · obtain ⟨part, -, rfl⟩ := List.mem_map.mp hk
    rfl

/-- The family that all components share is that of the geometry. -/
theorem Formed.family_of_components (hg : g.Formed) (hfilled : g.Filled) (hf : f ≠ .mixed)
    (hne : g.components ≠ []) (hall : ∀ c ∈ g.components, c.family = .ok f) :
    g.family = .ok f := by
  induction g using induction_on_parts with
  | other g hother =>
      obtain ⟨k, hk⟩ := hg.exists_family
      obtain ⟨c, hc⟩ := List.exists_mem_of_ne_nil _ hne
      have hsame := family_of_mem_components hk (family_ne_mixed hother hk) hc
      rw [hk, ← hsame, hall c hc]
  | parts parts ih =>
      cases hg with
      | collection hparts =>
          rw [components_collection] at hne hall
          refine family_of_parts (fun hnil => hne (by rw [hnil]; rfl)) hf fun part hpart => ?_
          obtain ⟨hempty, hinner⟩ := hfilled.part (g := Geometry.collection parts) hpart
          exact ih part hpart (hparts part hpart) hinner
            ((hparts part hpart).components_ne_nil hempty)
            fun c hc => hall c (List.mem_flatMap.mpr ⟨part, hpart, hc⟩)

/-- A collection of a family that is not mixed has a component, where no part is empty. -/
theorem Formed.components_of_family (hg : g.Formed) (hfilled : g.Filled)
    (hkind : g.isEmpty = true → ∃ parts, g = .collection parts) (hf : f ≠ .mixed)
    (h : g.family = .ok f) : g.components ≠ [] := by
  cases hempty : g.isEmpty with
  | false => exact hg.components_ne_nil hempty
  | true =>
      obtain ⟨parts, rfl⟩ := hkind hempty
      obtain ⟨fs, hfs, hshared⟩ := families_of_collection h
      obtain ⟨hne, -⟩ := (Family.shared_eq_iff hf).mp hshared
      obtain ⟨k, hk⟩ := List.exists_mem_of_ne_nil _ hne
      obtain ⟨part, hpart, -⟩ := exists_item_of_mem hfs hk
      rw [isEmpty, allEmpty_eq_all, List.all_eq_true] at hempty
      have := hempty part hpart
      rw [(hfilled.part (g := Geometry.collection parts) hpart).1] at this
      cases this

section Filled

variable (hg : g.Formed) (hfilled : g.Filled)
  (hkind : g.isEmpty = true → ∃ parts, g = .collection parts)

include hg hfilled hkind

theorem Formed.family_iff (hf : f ≠ .mixed) :
    g.family = .ok f ↔ g.components ≠ [] ∧ ∀ c ∈ g.components, c.family = .ok f := by
  constructor
  · intro h
    exact ⟨hg.components_of_family hfilled hkind hf h,
      fun c hc => family_of_mem_components h hf hc⟩
  · rintro ⟨hne, hall⟩
    exact hg.family_of_components hfilled hf hne hall

theorem Formed.mixed_iff :
    g.family = .ok .mixed ↔
      g.components = [] ∨ ∃ c ∈ g.components, ∃ d ∈ g.components, c.family ≠ d.family := by
  constructor
  · intro hmixed
    by_contra hnot
    obtain ⟨hne, hsame⟩ := not_or.mp hnot
    obtain ⟨c, hc⟩ := List.exists_mem_of_ne_nil _ hne
    obtain ⟨f, hf, hcf⟩ := (isComponent_of_mem hc).exists_family
    have hall : ∀ d ∈ g.components, d.family = .ok f := by
      intro d hd
      by_contra hdf
      exact hsame ⟨c, hc, d, hd, fun heq => hdf (heq ▸ hcf)⟩
    have hshared := (hg.family_iff hfilled hkind hf).mpr ⟨hne, hall⟩
    rw [hmixed] at hshared
    exact hf (Except.ok.inj hshared).symm
  · intro h
    obtain ⟨f, hfamily⟩ := hg.exists_family
    by_cases hf : f = .mixed
    · rw [hfamily, hf]
    · obtain ⟨hne, hall⟩ := (hg.family_iff hfilled hkind hf).mp hfamily
      rcases h with hnil | ⟨c, hc, d, hd, hdiffer⟩
      · exact absurd hnil hne
      · rw [hall c hc, hall d hd] at hdiffer
        exact absurd rfl hdiffer

end Filled

/-- How the family of a geometry and those of its components go together. -/
structure Classified (g : Geometry α) : Prop where
  exists_family : ∃ f, g.family = .ok f
  /-- A family that is not mixed is that of all components. -/
  uniform : ∀ f ≠ Family.mixed, g.family = .ok f → ∀ c ∈ g.components, c.family = .ok f
  /-- Where no part is empty, the components tell the family, unless the geometry is itself empty
  and no collection. -/
  family_iff : g.Filled → (g.isEmpty = true → ∃ parts, g = .collection parts) →
    ∀ f ≠ Family.mixed, (g.family = .ok f ↔
      g.components ≠ [] ∧ ∀ c ∈ g.components, c.family = .ok f)
  mixed_iff : g.Filled → (g.isEmpty = true → ∃ parts, g = .collection parts) →
    (g.family = .ok .mixed ↔
      g.components = [] ∨ ∃ c ∈ g.components, ∃ d ∈ g.components, c.family ≠ d.family)

/-- The family of a geometry of known kinds agrees with the families of its components. -/
theorem family_classified (g : Geometry α) (hg : g.Formed) : Classified g where
  exists_family := hg.exists_family
  uniform _ hf h _ hc := family_of_mem_components h hf hc
  family_iff hfilled hkind _ hf := hg.family_iff hfilled hkind hf
  mixed_iff hfilled hkind := hg.mixed_iff hfilled hkind

/-! ## A nested outline, and no points -/

theorem filled_of_parts (h : ∀ part ∈ g.parts, part.isEmpty = false ∧ part.Filled) :
    g.Filled := by
  intro inner hinner
  cases hinner with
  | direct hpart => exact (h _ hpart).1
  | nested hpart hinner => exact (h _ hpart).2 inner hinner

theorem filled_of_single (h : g.IsSingle) : g.Filled :=
  filled_of_parts fun part hpart => by cases h <;> cases hpart

def outline : Geometry Float :=
  .collection [
    .lineString [⟨5, 0, none⟩, ⟨6, 1, none⟩],
    .collection [
      .linearRing [⟨0, 0, none⟩, ⟨4, 0, none⟩, ⟨0, 4, none⟩, ⟨0, 0, none⟩],
      .multiLineString [[⟨1, 1, none⟩, ⟨2, 1, none⟩]]]]

theorem outline_formed : outline.Formed := by
  refine .collection fun part hpart => ?_
  rcases List.mem_pair.mp hpart with rfl | rfl
  · exact .lineString _
  · refine .collection fun inner hinner => ?_
    rcases List.mem_pair.mp hinner with rfl | rfl
    · exact .linearRing _
    · exact .multiLineString _

theorem outline_filled : outline.Filled := by
  refine filled_of_parts fun part hpart => ?_
  rcases List.mem_pair.mp hpart with rfl | rfl
  · exact ⟨rfl, filled_of_single (.lineString _)⟩
  · refine ⟨rfl, filled_of_parts fun inner hinner => ?_⟩
    rcases List.mem_pair.mp hinner with rfl | rfl
    · exact ⟨rfl, filled_of_single (.linearRing _)⟩
    · refine ⟨rfl, filled_of_parts fun line hline => ?_⟩
      obtain rfl := List.mem_singleton.mp hline
      exact ⟨rfl, filled_of_single (.lineString _)⟩

/-- All components of the outline are lines, so that it is lineal. -/
theorem family_classified_of_outline :
    outline.Formed ∧ outline.Filled ∧ Classified outline ∧ outline.family = .ok .lineal := by
  have hclassified := family_classified outline outline_formed
  refine ⟨outline_formed, outline_filled, hclassified, ?_⟩
  refine (hclassified.family_iff outline_filled (fun h => by cases h) .lineal (by decide)).mpr ?_
  simp [outline, components, componentsOfParts, family]

/-- A multi-point without points has no part that is empty and no component, and is not mixed. -/
theorem family_without_components :
    (multiPoint [] : Geometry Float).Formed ∧ (multiPoint [] : Geometry Float).Filled ∧
      (multiPoint [] : Geometry Float).components = [] ∧
      (multiPoint [] : Geometry Float).family = .ok .puntal ∧
      ¬((multiPoint [] : Geometry Float).family = .ok .mixed ↔
        (multiPoint [] : Geometry Float).components = [] ∨
          ∃ c ∈ (multiPoint [] : Geometry Float).components,
            ∃ d ∈ (multiPoint [] : Geometry Float).components, c.family ≠ d.family) := by
  refine ⟨.multiPoint [], ?_, rfl, rfl, fun hiff => ?_⟩
  · exact filled_of_parts fun part hpart => by cases hpart
  · cases hiff.mpr (Or.inl rfl)

end Geospatial.Geometry
