import Geospatial.Proofs.Geometry.Components

/-!
# Single parts

A geometry has its positions and components from its single parts, and is empty when all of them
are. Where the single parts of one geometry are results for those of another, in any order, so are
the components.
-/

namespace Geospatial

section Results

variable {β γ δ : Type} {f : β → Except Failure γ} {items : List β}

theorem ok_of_toOption {x : Except Failure β} {b : β} (h : x.toOption = some b) : x = .ok b := by
  cases x with
  | error e => cases h
  | ok a => exact congrArg Except.ok (Option.some.inj h)

/-- What is found in results of items is what is found in the items. -/
theorem mapM_of_results {g : γ → Except Failure δ} {found : β → Except Failure δ}
    {results : List γ} (h : items.mapM f = .ok results)
    (hfound : ∀ a ∈ items, ∀ b, f a = .ok b → g b = found a) :
    results.mapM g = items.mapM found := by
  induction items generalizing results with
  | nil =>
      cases h
      rfl
  | cons a rest ih =>
      obtain ⟨b, hb, others, hothers, rfl⟩ := mapM_cons_eq_ok_iff.mp h
      rw [List.mapM_cons, List.mapM_cons, hfound a List.mem_cons_self b hb,
        ih hothers fun c hc => hfound c (List.mem_cons_of_mem _ hc)]

theorem mapM_append_ok {others : List β} {results more : List γ} (h : items.mapM f = .ok results)
    (hmore : others.mapM f = .ok more) : (items ++ others).mapM f = .ok (results ++ more) := by
  rw [List.mapM_append, h, hmore]
  rfl

theorem mapM_perm {items' : List β} (hperm : items.Perm items') {results : List γ}
    (h : items.mapM f = .ok results) :
    ∃ results', items'.mapM f = .ok results' ∧ results'.Perm results := by
  induction hperm generalizing results with
  | nil => exact ⟨results, h, .refl _⟩
  | cons a _ ih =>
      obtain ⟨b, hb, rest, hrest, rfl⟩ := mapM_cons_eq_ok_iff.mp h
      obtain ⟨rest', hrest', hperm⟩ := ih hrest
      exact ⟨b :: rest', mapM_cons_eq_ok_iff.mpr ⟨b, hb, rest', hrest', rfl⟩, hperm.cons b⟩
  | swap a a' items =>
      obtain ⟨b, hb, _, htail, rfl⟩ := mapM_cons_eq_ok_iff.mp h
      obtain ⟨b', hb', rest, hrest, rfl⟩ := mapM_cons_eq_ok_iff.mp htail
      exact ⟨b' :: b :: rest, mapM_cons_eq_ok_iff.mpr ⟨b', hb', _,
        mapM_cons_eq_ok_iff.mpr ⟨b, hb, rest, hrest, rfl⟩, rfl⟩, .swap _ _ _⟩
  | trans _ _ ih ih' =>
      obtain ⟨middle, hmiddle, hperm⟩ := ih h
      obtain ⟨last, hlast, hperm'⟩ := ih' hmiddle
      exact ⟨last, hlast, hperm'.trans hperm⟩

/-- Where each result is its own result, so are all of them, in the order they are put in. -/
theorem exists_settled {f : β → Except Failure β} {order : List β → List β}
    (horder : ∀ results, (order results).Perm results)
    (h : ∀ a ∈ items, ∃ b, f a = .ok b ∧ f b = .ok b) :
    ∃ results, items.mapM f = .ok results ∧ (order results).mapM f = .ok (order results) := by
  choose! result hresult hsettled using h
  refine ⟨items.map result, mapM_ok hresult, ?_⟩
  rw [mapM_ok (g := id) fun b hb => ?_, List.map_id]
  obtain ⟨a, ha, rfl⟩ := List.mem_map.mp ((horder _).mem_iff.mp hb)
  exact hsettled a ha

/-- The images are the results of the items, in any order. -/
def Rearranged (f : β → Except Failure γ) (items : List β) (images : List γ) : Prop :=
  ∃ results, items.mapM f = .ok results ∧ images.Perm results

namespace Rearranged

variable {images : List γ}

theorem singleton {a : β} {b : γ} (h : f a = .ok b) : Rearranged f [a] [b] :=
  ⟨[b], mapM_cons_eq_ok_iff.mpr ⟨b, h, [], rfl, rfl⟩, .refl _⟩

theorem of_perm {images' : List γ} (h : Rearranged f items images) (hperm : images'.Perm images) :
    Rearranged f items images' := by
  obtain ⟨results, hresults, himages⟩ := h
  exact ⟨results, hresults, hperm.trans himages⟩

theorem exists_item (h : Rearranged f items images) {b : γ} (hb : b ∈ images) :
    ∃ a ∈ items, f a = .ok b := by
  obtain ⟨results, hresults, hperm⟩ := h
  exact exists_item_of_mem hresults (hperm.mem_iff.mp hb)

theorem exists_image (h : Rearranged f items images) {a : β} (ha : a ∈ items) :
    ∃ b ∈ images, f a = .ok b := by
  obtain ⟨results, hresults, hperm⟩ := h
  obtain ⟨b, hb, hab⟩ := exists_result_of_mem hresults ha
  exact ⟨b, hperm.mem_iff.mpr hb, hab⟩

theorem all_eq {p : β → Bool} {q : γ → Bool} (h : Rearranged f items images)
    (hpq : ∀ a ∈ items, ∀ b, f a = .ok b → q b = p a) : images.all q = items.all p := by
  rw [Bool.eq_iff_iff, List.all_eq_true, List.all_eq_true]
  constructor
  · intro hq a ha
    obtain ⟨b, hb, hab⟩ := h.exists_image ha
    rw [← hpq a ha b hab]
    exact hq b hb
  · intro hp b hb
    obtain ⟨a, ha, hab⟩ := h.exists_item hb
    rw [hpq a ha b hab]
    exact hp a ha

/-- Where the contents of each result are those of its item rearranged, so are all contents. -/
theorem flatMap {β' γ' : Type} {f' : β' → Except Failure γ'} {content : β → List β'}
    {content' : γ → List γ'} (h : Rearranged f items images)
    (hcontent : ∀ a ∈ items, ∀ b, f a = .ok b → Rearranged f' (content a) (content' b)) :
    Rearranged f' (items.flatMap content) (images.flatMap content') := by
  obtain ⟨results, hresults, hperm⟩ := h
  refine of_perm ?_ (hperm.flatMap_right _)
  clear hperm
  induction items generalizing results with
  | nil =>
      cases hresults
      exact ⟨[], rfl, .nil⟩
  | cons a rest ih =>
      obtain ⟨b, hb, others, hothers, rfl⟩ := mapM_cons_eq_ok_iff.mp hresults
      obtain ⟨found, hfound, hperm⟩ := hcontent a List.mem_cons_self b hb
      obtain ⟨more, hmore, hperm'⟩ :=
        ih (fun c hc => hcontent c (List.mem_cons_of_mem _ hc)) others hothers
      exact ⟨found ++ more, mapM_append_ok hfound hmore, hperm.append hperm'⟩

theorem map {β' γ' : Type} {f' : β' → Except Failure γ'} {wrap : β → β'} {wrap' : γ → γ'}
    (h : Rearranged f items images)
    (hwrap : ∀ a ∈ items, ∀ b, f a = .ok b → f' (wrap a) = .ok (wrap' b)) :
    Rearranged f' (items.map wrap) (images.map wrap') := by
  rw [List.map_eq_flatMap, List.map_eq_flatMap]
  exact h.flatMap fun a ha b hab => .singleton (hwrap a ha b hab)

end Rearranged

end Results

/-! ## Families of rearranged parts -/

namespace Family

theorem shared_eq_iff {fs : List Family} {f : Family} (hf : f ≠ mixed) :
    shared fs = f ↔ fs ≠ [] ∧ ∀ g ∈ fs, g = f := by
  cases fs with
  | nil => simp [shared, hf.symm]
  | cons first rest =>
      by_cases hall : rest.all (· == first)
      · rw [shared, if_pos hall]
        have hrest : ∀ g ∈ rest, g = first := by simpa using List.all_eq_true.mp hall
        refine ⟨fun h => ⟨List.cons_ne_nil _ _, fun g hg => ?_⟩, fun h => h.2 _ List.mem_cons_self⟩
        rcases List.mem_cons.mp hg with rfl | hg
        · exact h
        · exact (hrest g hg).trans h
      · rw [shared, if_neg hall]
        refine ⟨fun h => absurd h.symm hf, fun h => absurd ?_ hall⟩
        rw [List.all_eq_true]
        intro g hg
        rw [h.2 g (List.mem_cons_of_mem _ hg), h.2 first List.mem_cons_self]
        exact beq_self_eq_true f

/-- The family that several share does not depend on their order. -/
theorem shared_perm {fs fs' : List Family} (h : fs.Perm fs') : shared fs = shared fs' := by
  by_cases hmixed : shared fs = mixed
  · by_contra hne
    rw [hmixed] at hne
    obtain ⟨hnil, hall⟩ := (shared_eq_iff (Ne.symm hne)).mp rfl
    refine hne (hmixed.symm.trans ((shared_eq_iff (Ne.symm hne)).mpr ⟨?_, fun g hg => ?_⟩))
    · exact fun hfs => hnil (hfs ▸ h).symm.eq_nil
    · exact hall g (h.mem_iff.mp hg)
  · obtain ⟨hnil, hall⟩ := (shared_eq_iff hmixed).mp rfl
    refine ((shared_eq_iff hmixed).mpr ⟨?_, fun g hg => ?_⟩).symm
    · exact fun hfs => hnil (hfs ▸ h).eq_nil
    · exact hall g (h.mem_iff.mpr hg)

end Family

namespace Geometry

section Parts

variable {α : Type} {g : Geometry α}

/-! ## Parts -/

/-- A geometry that has no parts; it may be empty. -/
inductive IsSingle : Geometry α → Prop
  | point (p : Option (Position α)) : IsSingle (.point p)
  | lineString (path : Path α) : IsSingle (.lineString path)
  | linearRing (path : Path α) : IsSingle (.linearRing path)
  | polygon (p : Polygon α) : IsSingle (.polygon p)

inductive IsCompound : Geometry α → Prop
  | multiPoint (points : List (Option (Position α))) : IsCompound (.multiPoint points)
  | multiLineString (paths : List (Path α)) : IsCompound (.multiLineString paths)
  | multiPolygon (polygons : List (Polygon α)) : IsCompound (.multiPolygon polygons)
  | collection (parts : List (Geometry α)) : IsCompound (.collection parts)

inductive PartOf : Geometry α → Geometry α → Prop
  | direct {part g : Geometry α} : part ∈ g.parts → PartOf part g
  | nested {inner part g : Geometry α} : part ∈ g.parts → PartOf inner part → PartOf inner g

/-- Only the parts of collections may have parts. -/
theorem isSingle_of_mem_parts {part : Geometry α} (hg : ∀ parts, g ≠ collection parts)
    (h : part ∈ g.parts) : part.IsSingle := by
  cases g with
  | multiPoint points =>
      obtain ⟨p, -, rfl⟩ := List.mem_map.mp h
      exact .point p
  | multiLineString paths =>
      obtain ⟨path, -, rfl⟩ := List.mem_map.mp h
      exact .lineString path
  | multiPolygon polygons =>
      obtain ⟨p, -, rfl⟩ := List.mem_map.mp h
      exact .polygon p
  | collection parts => exact absurd rfl (hg parts)
  | _ => cases h

theorem IsSingle.not_isCompound (h : g.IsSingle) : ¬g.IsCompound := by
  cases h <;> rintro ⟨⟩

theorem Formed.isSingle_or_isCompound (h : g.Formed) : g.IsSingle ∨ g.IsCompound := by
  cases h with
  | point p => exact Or.inl (.point p)
  | lineString path => exact Or.inl (.lineString path)
  | linearRing path => exact Or.inl (.linearRing path)
  | @polygon p _ => exact Or.inl (.polygon p)
  | multiPoint points => exact Or.inr (.multiPoint points)
  | multiLineString paths => exact Or.inr (.multiLineString paths)
  | @multiPolygon polygons _ => exact Or.inr (.multiPolygon polygons)
  | @collection parts _ => exact Or.inr (.collection parts)

theorem Formed.part {part : Geometry α} (h : g.Formed) (hpart : part ∈ g.parts) :
    part.Formed := by
  cases h with
  | multiPoint points =>
      obtain ⟨p, -, rfl⟩ := List.mem_map.mp hpart
      exact .point p
  | multiLineString paths =>
      obtain ⟨path, -, rfl⟩ := List.mem_map.mp hpart
      exact .lineString path
  | multiPolygon hpolygons =>
      obtain ⟨p, hp, rfl⟩ := List.mem_map.mp hpart
      exact .polygon (hpolygons p hp)
  | collection hparts => exact hparts part hpart
  | _ => cases hpart

/-- What holds of geometries without parts, and of a geometry when it holds of its parts, holds of
all geometries. -/
theorem induction_on_compounds {motive : Geometry α → Prop} (g : Geometry α)
    (other : ∀ g : Geometry α, ¬g.IsCompound → motive g)
    (compound : ∀ g : Geometry α, g.IsCompound → (∀ part ∈ g.parts, motive part) → motive g) :
    motive g := by
  induction g using induction_on_parts with
  | parts items ih => exact compound _ (.collection items) ih
  | other g hg =>
      by_cases hc : g.IsCompound
      · exact compound g hc fun part hpart =>
          other part (isSingle_of_mem_parts hg hpart).not_isCompound
      · exact other g hc

namespace IsCompound

theorem components_eq (h : g.IsCompound) : g.components = g.parts.flatMap components := by
  cases h with
  | multiPoint points =>
      simp only [components, parts, List.flatMap_map]
      induction points with
      | nil => rfl
      | cons p rest ih => cases p <;> simp_all
  | multiLineString paths =>
      simp only [components, parts, List.flatMap_map]
      induction paths with
      | nil => rfl
      | cons path rest ih => cases path <;> simp_all
  | multiPolygon polygons =>
      simp only [components, parts, List.flatMap_map]
      induction polygons with
      | nil => rfl
      | cons p rest ih => cases hp : p.isEmpty <;> simp_all
  | collection parts => exact components_collection parts

theorem positions_eq (h : g.IsCompound) : g.positions = g.parts.flatMap positions := by
  cases h with
  | multiPoint points =>
      simp only [positions, parts, List.flatMap_map]
      induction points with
      | nil => rfl
      | cons p rest ih => cases p <;> simp_all
  | multiLineString paths => simp [positions, parts, List.flatMap_map]
  | multiPolygon polygons => simp [positions, parts, List.flatMap_map]
  | collection parts => exact positions_collection parts

theorem isEmpty_eq (h : g.IsCompound) : g.isEmpty = g.parts.all isEmpty := by
  cases h with
  | multiPoint points => simp [isEmpty, parts, List.all_map, Function.comp_def]
  | multiLineString paths => simp [isEmpty, parts, List.all_map, Function.comp_def]
  | multiPolygon polygons => simp [isEmpty, parts, List.all_map, Function.comp_def]
  | collection parts => exact allEmpty_eq_all parts

/-- A geometry is told by its kind and its parts. -/
theorem eq_of_parts {h : Geometry α} (hg : g.IsCompound) (hh : h.IsCompound)
    (htype : g.typeName = h.typeName) (hparts : g.parts = h.parts) : g = h := by
  have hinj : ∀ {β : Type} {wrap : β → Geometry α}, (∀ a b, wrap a = wrap b → a = b) →
      ∀ {as bs : List β}, as.map wrap = bs.map wrap → as = bs :=
    fun hwrap _ _ heq => List.map_injective_iff.mpr (fun a b => hwrap a b) heq
  cases hg with
  | multiPoint points =>
      cases hh with
      | multiPoint others => rw [hinj (fun _ _ => Geometry.point.inj) hparts]
      | _ => simp [typeName] at htype
  | multiLineString paths =>
      cases hh with
      | multiLineString others => rw [hinj (fun _ _ => Geometry.lineString.inj) hparts]
      | _ => simp [typeName] at htype
  | multiPolygon polygons =>
      cases hh with
      | multiPolygon others => rw [hinj (fun _ _ => Geometry.polygon.inj) hparts]
      | _ => simp [typeName] at htype
  | collection parts =>
      cases hh with
      | collection others => exact congrArg Geometry.collection hparts
      | _ => simp [typeName] at htype

end IsCompound

/-! ## Single parts -/

mutual

def singles : Geometry α → List (Geometry α)
  | multiPoint points => points.map point
  | multiLineString paths => paths.map lineString
  | multiPolygon polygons => polygons.map polygon
  | collection parts => singlesOfParts parts
  | point p => [point p]
  | lineString path => [lineString path]
  | linearRing path => [linearRing path]
  | polygon p => [polygon p]
  | unknown name => [unknown name]

def singlesOfParts : List (Geometry α) → List (Geometry α)
  | [] => []
  | part :: rest => singles part ++ singlesOfParts rest

end

theorem singlesOfParts_eq_flatMap (parts : List (Geometry α)) :
    singlesOfParts parts = parts.flatMap singles := by
  induction parts with
  | nil => rfl
  | cons part rest ih => rw [singlesOfParts, ih, List.flatMap_cons]

theorem singles_of_not_isCompound (h : ¬g.IsCompound) : g.singles = [g] := by
  cases g with
  | multiPoint points => exact absurd (.multiPoint points) h
  | multiLineString paths => exact absurd (.multiLineString paths) h
  | multiPolygon polygons => exact absurd (.multiPolygon polygons) h
  | collection parts => exact absurd (.collection parts) h
  | _ => rfl

theorem IsCompound.singles_eq (h : g.IsCompound) : g.singles = g.parts.flatMap singles := by
  cases h with
  | multiPoint points =>
      rw [singles, parts, List.flatMap_map]
      exact List.map_eq_flatMap
  | multiLineString paths =>
      rw [singles, parts, List.flatMap_map]
      exact List.map_eq_flatMap
  | multiPolygon polygons =>
      rw [singles, parts, List.flatMap_map]
      exact List.map_eq_flatMap
  | collection parts => exact singlesOfParts_eq_flatMap parts

namespace IsSingle

variable {s : Geometry α}

theorem singles_eq (h : s.IsSingle) : s.singles = [s] := by cases h <;> rfl

theorem components_eq (h : s.IsSingle) : s.components = if s.isEmpty then [] else [s] := by
  cases h with
  | point p => cases p <;> rfl
  | lineString path => rfl
  | linearRing path => rfl
  | polygon p => rfl

end IsSingle

theorem isSingle_of_mem {s : Geometry α} (h : g.Formed) (hs : s ∈ g.singles) : s.IsSingle := by
  induction g using induction_on_compounds with
  | other g hg =>
      rw [singles_of_not_isCompound hg] at hs
      obtain rfl := List.mem_singleton.mp hs
      exact h.isSingle_or_isCompound.resolve_right hg
  | compound g hg ih =>
      rw [hg.singles_eq] at hs
      obtain ⟨part, hpart, hs⟩ := List.mem_flatMap.mp hs
      exact ih part hpart (h.part hpart) hs

/-- Contents that are read off the single parts one by one. -/
theorem components_eq_flatMap_singles (g : Geometry α) :
    g.components = g.singles.flatMap components := by
  induction g using induction_on_compounds with
  | other g hg => rw [singles_of_not_isCompound hg, List.flatMap_singleton]
  | compound g hg ih =>
      rw [hg.components_eq, hg.singles_eq, List.flatMap_assoc]
      exact List.flatMap_congr ih

theorem positions_eq_flatMap_singles (g : Geometry α) :
    g.positions = g.singles.flatMap positions := by
  induction g using induction_on_compounds with
  | other g hg => rw [singles_of_not_isCompound hg, List.flatMap_singleton]
  | compound g hg ih =>
      rw [hg.positions_eq, hg.singles_eq, List.flatMap_assoc]
      exact List.flatMap_congr ih

theorem isEmpty_eq_all_singles (g : Geometry α) : g.isEmpty = g.singles.all isEmpty := by
  induction g using induction_on_compounds with
  | other g hg => simp [singles_of_not_isCompound hg]
  | compound g hg ih =>
      rw [hg.isEmpty_eq, hg.singles_eq, List.all_flatMap, Bool.eq_iff_iff, List.all_eq_true,
        List.all_eq_true]
      exact forall₂_congr fun part hpart => by rw [ih part hpart]

end Parts

end Geometry

end Geospatial
