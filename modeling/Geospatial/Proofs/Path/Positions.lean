import Geospatial.Path.Cut
import Geospatial.Proofs.Geometry.Rows

/-!
# The positions of pieces

Whatever the numbers, the pieces of a path are made of its positions and of cuts, and a cut has a
height when the ends of its segment have heights. So the pieces of a path that has heights
throughout have them throughout, and those of one without heights have none. The points at which it
is cut matter by their places only, and by the cuts made at them.
-/

namespace Geospatial.Path

variable {α : Type}

theorem thin_sublist [Sub α] [LE α] [DecidableLE α] (tolerance total : α) (last : Option α)
    (found : List (Cut α)) : (thin tolerance total last found).Sublist found := by
  fun_induction thin tolerance total last found with
  | case1 => exact List.Sublist.refl _
  | case2 last cut rest _ ih => exact ih.cons cut
  | case3 cut rest _ arc _ ih => exact ih.cons cut
  | case4 cut rest _ arc _ ih => exact ih.cons_cons cut
  | case5 cut rest _ ih => exact ih.cons_cons cut

/-- Thinning looks at arc lengths only. -/
theorem thin_map [Sub α] [LE α] [DecidableLE α] {tolerance total : α} {last : Option α}
    {f : Cut α → Cut α} (hf : ∀ cut, (f cut).arc = cut.arc) (found : List (Cut α)) :
    thin tolerance total last (found.map f) = (thin tolerance total last found).map f := by
  fun_induction thin tolerance total last found with
  | case1 => simp [thin]
  | case2 last cut rest hends ih => simp [thin, hf, hends, ih]
  | case3 cut rest hends arc hnear ih => simp [thin, hf, hends, hnear, ih]
  | case4 cut rest hends arc hnear ih => simp [thin, hf, hends, hnear, ih]
  | case5 cut rest hends ih => simp [thin, hf, hends, ih]

/-- A walk makes pieces of what it began with, the positions that it passes and the cuts. -/
theorem mem_walk [Sub α] [Neg α] [OfNat α 0] [LT α] [LE α] [DecidableLT α] [DecidableLE α]
    {tolerance : α} {current piece : Path α} {rest : List (α × Position α)} {found : List (Cut α)}
    (hpiece : piece ∈ walk tolerance current rest found) {q : Position α} (hq : q ∈ piece) :
    q ∈ current ∨ q ∈ rest.map Prod.snd ∨ q ∈ found.map Cut.place := by
  fun_induction walk tolerance current rest found with
  | case1 current found =>
      rw [List.mem_singleton.mp hpiece] at hq
      exact Or.inl hq
  | case2 current arc p rest ih =>
      have hlater := ih hpiece
      rw [List.map_cons, List.mem_cons]
      rw [List.mem_append, List.mem_singleton] at hlater
      tauto
  | case3 current arc p rest cut later _ ih =>
      rw [List.map_cons, List.map_cons, List.mem_cons, List.mem_cons]
      rcases List.mem_cons.mp hpiece with rfl | hpiece
      · rw [List.mem_append, List.mem_singleton] at hq
        tauto
      · have hlater := ih hpiece
        rw [List.mem_singleton, List.map_cons, List.mem_cons] at hlater
        tauto
  | case4 current arc p rest cut later _ _ ih =>
      rw [List.map_cons, List.map_cons, List.mem_cons, List.mem_cons]
      rcases List.mem_cons.mp hpiece with rfl | hpiece
      · rw [List.mem_append, List.mem_singleton] at hq
        tauto
      · have hlater := ih hpiece
        rw [List.mem_singleton] at hlater
        tauto
  | case5 current arc p rest cut later _ _ ih =>
      have hlater := ih hpiece
      rw [List.map_cons, List.mem_cons]
      rw [List.mem_append, List.mem_singleton] at hlater
      tauto

theorem hasHeight_cutPosition [Add α] [Sub α] [Mul α] {a b : Position α} {tall : Bool}
    (ha : a.hasHeight = tall) (hb : b.hasHeight = tall) (p : Position α) (t : α) :
    (cutPosition p a b t).hasHeight = tall := by
  subst hb
  cases hza : a.z with
  | none => simpa [cutPosition, Position.hasHeight, Position.flat, hza] using ha
  | some za =>
      cases hzb : b.z with
      | none => simp [cutPosition, Position.hasHeight, Position.flat, hza, hzb]
      | some zb => simp [cutPosition, Position.hasHeight, hza, hzb]

theorem cutPosition_congr [Add α] [Sub α] [Mul α] {p q : Position α} (start stop : Position α)
    (t : α) (h : p.x = q.x ∧ p.y = q.y) :
    cutPosition p start stop t = cutPosition q start stop t := by
  unfold cutPosition Position.flat
  rw [h.1, h.2]

variable [Add α] [Sub α] [Mul α] [Div α] [Neg α] [OfNat α 0] [OfNat α 1] [LT α] [LE α]
  [DecidableLT α] [DecidableLE α] [BEq α] [Root α]

variable {path piece : Path α} {points : List (Position α)} {tolerance : α}

/-- A point is put on a segment of the path. -/
theorem place_of_locateOnPath {p : Position α} {sum : α} {cut : Cut α}
    (h : locateOnPath p tolerance sum path = some cut) :
    ∃ a ∈ path, ∃ b ∈ path, ∃ t, cut.place = cutPosition p a b t := by
  induction path generalizing sum with
  | nil => cases h
  | cons start rest ih =>
      cases rest with
      | nil => cases h
      | cons stop rest =>
          rw [locateOnPath] at h
          cases hlocate : locate p start stop tolerance with
          | some t =>
              simp only [hlocate] at h
              cases h
              exact ⟨start, by simp, stop, by simp, t, rfl⟩
          | none =>
              simp only [hlocate] at h
              obtain ⟨a, ha, b, hb, t, hplace⟩ := ih h
              exact ⟨a, List.mem_cons_of_mem _ ha, b, List.mem_cons_of_mem _ hb, t, hplace⟩

theorem mem_located {cut : Cut α} : cut ∈ located path points tolerance ↔
    ∃ p ∈ points, locateOnPath p tolerance 0 path = some cut := List.mem_filterMap

theorem mem_located_of_mem_cuts {cut : Cut α} (h : cut ∈ cuts path points tolerance) :
    cut ∈ located path points tolerance :=
  (Sorting.sort_perm _ _).subset ((thin_sublist _ _ _ _).subset h)

theorem place_of_mem_cuts {cut : Cut α} (h : cut ∈ cuts path points tolerance) :
    ∃ a ∈ path, ∃ b ∈ path, ∃ p t, cut.place = cutPosition p a b t := by
  obtain ⟨p, -, hcut⟩ := mem_located.mp (mem_located_of_mem_cuts h)
  obtain ⟨a, ha, b, hb, t, hplace⟩ := place_of_locateOnPath hcut
  exact ⟨a, ha, b, hb, p, t, hplace⟩

theorem mem_piece (hpiece : piece ∈ splitAt path points tolerance) {q : Position α}
    (hq : q ∈ piece) :
    q ∈ path ∨ ∃ a ∈ path, ∃ b ∈ path, ∃ p t, q = cutPosition p a b t := by
  simp only [splitAt] at hpiece
  split_ifs at hpiece
  · rw [List.mem_singleton.mp hpiece] at hq
    exact Or.inl hq
  · rw [List.mem_singleton.mp hpiece] at hq
    exact Or.inl hq
  · rw [List.mem_filter, piecesAt] at hpiece
    split at hpiece
    case h_1 => cases hpiece.1
    case h_2 arc start rest hvertices =>
      have hposition : ∀ v ∈ (arc, start) :: rest, v.2 ∈ path := by
        rw [← hvertices]
        exact fun v hv => (List.of_mem_zip hv).2
      rcases mem_walk hpiece.1 hq with hq | hq | hq
      · rw [List.mem_singleton.mp hq]
        exact Or.inl (hposition _ List.mem_cons_self)
      · obtain ⟨v, hv, rfl⟩ := List.mem_map.mp hq
        exact Or.inl (hposition v (List.mem_cons_of_mem _ hv))
      · obtain ⟨cut, hcut, rfl⟩ := List.mem_map.mp hq
        exact Or.inr (place_of_mem_cuts hcut)

/-- Pieces of a path have heights as its positions have. -/
theorem hasHeight_of_mem_splitAt {tall : Bool} (hpath : ∀ p ∈ path, p.hasHeight = tall)
    (hpiece : piece ∈ splitAt path points tolerance) {q : Position α} (hq : q ∈ piece) :
    q.hasHeight = tall := by
  rcases mem_piece hpiece hq with hq | ⟨a, ha, b, hb, p, t, rfl⟩
  · exact hpath q hq
  · exact hasHeight_cutPosition (hpath a ha) (hpath b hb) p t

theorem even_of_mem_splitAt (heven : EvenHeights path)
    (hpiece : piece ∈ splitAt path points tolerance) : EvenHeights piece := by
  rcases heven with h | h
  · have htall : ∀ p ∈ path, p.hasHeight = true := fun p hp =>
      Option.isSome_iff_ne_none.mpr (h p hp)
    exact Or.inl fun q hq => Option.isSome_iff_ne_none.mp (hasHeight_of_mem_splitAt htall hpiece hq)
  · have hflat : ∀ p ∈ path, p.hasHeight = false := fun p hp => by
      rw [Position.hasHeight, h p hp]
      rfl
    refine Or.inr fun q hq => ?_
    simpa [Position.hasHeight] using hasHeight_of_mem_splitAt hflat hpiece hq

/-! ## Points at one place -/

section SamePoint

variable {p q : Position α}

theorem locate_congr (start stop : Position α) (tolerance : α) (h : p.x = q.x ∧ p.y = q.y) :
    locate p start stop tolerance = locate q start stop tolerance := by
  unfold locate nearest distance dominantFraction
  rw [h.1, h.2]

/-- Where a point is located depends on its place only. -/
theorem locateOnPath_congr (tolerance sum : α) (path : Path α) (h : p.x = q.x ∧ p.y = q.y) :
    locateOnPath p tolerance sum path = locateOnPath q tolerance sum path := by
  induction path generalizing sum with
  | nil => rfl
  | cons a rest ih =>
      cases rest with
      | nil => rfl
      | cons b rest =>
          simp only [locateOnPath, locate_congr a b tolerance h, cutPosition_congr a b _ h, ih]

end SamePoint

/-! ## Paths without cuts -/

section NoCuts

variable (path : Path α) (points : List (Position α)) (tolerance : α)

theorem cuts_of_no_points : cuts path [] tolerance = [] := by
  simp [cuts, located, Sorting.sort, Sorting.leadingRun, thin]

theorem cuts_of_short (h : path.length < 2) : cuts path points tolerance = [] := by
  have hnone : ∀ p, locateOnPath p tolerance 0 path = none := by
    intro p
    match path, h with
    | [], _ => rfl
    | [a], _ => rfl
  simp [cuts, located, hnone, Sorting.sort, Sorting.leadingRun, thin]

theorem splitAt_of_no_cuts (h : cuts path points tolerance = []) :
    splitAt path points tolerance = [path] := by
  simp [splitAt, h]

theorem splitAt_of_cuts (h : cuts path points tolerance ≠ []) :
    splitAt path points tolerance =
      (piecesAt path (cuts path points tolerance) tolerance).filter hasLength := by
  have hcond : ¬(points.isEmpty ∨ path.length < 2) := by
    rintro (hpoints | hshort)
    · rw [List.isEmpty_iff.mp hpoints] at h
      exact h (cuts_of_no_points path tolerance)
    · exact h (cuts_of_short path points tolerance hshort)
  have hempty : ¬(cuts path points tolerance).isEmpty := by simpa using h
  simp only [splitAt, if_neg hcond, if_neg hempty]

/-- The pieces of a path depend on its cuts only. -/
theorem splitAt_congr_cuts {others : List (Position α)}
    (h : cuts path points tolerance = cuts path others tolerance) :
    splitAt path points tolerance = splitAt path others tolerance := by
  by_cases hnil : cuts path points tolerance = []
  · rw [splitAt_of_no_cuts _ _ _ hnil, splitAt_of_no_cuts _ _ _ (h ▸ hnil)]
  · rw [splitAt_of_cuts _ _ _ hnil, splitAt_of_cuts _ _ _ (h ▸ hnil), h]

end NoCuts

theorem ne_nil_of_mem_splitAt (hne : path ≠ []) (hpiece : piece ∈ splitAt path points tolerance) :
    piece ≠ [] := by
  by_cases hcuts : cuts path points tolerance = []
  · rw [splitAt_of_no_cuts _ _ _ hcuts, List.mem_singleton] at hpiece
    rwa [hpiece]
  · rw [splitAt_of_cuts _ _ _ hcuts] at hpiece
    have hlength := (List.mem_filter.mp hpiece).2
    rintro rfl
    simp [hasLength] at hlength

end Geospatial.Path
