import Geospatial.Proofs.Path.Locate
import Geospatial.Proofs.Path.Positions

/-!
# The cuts that are kept

A point is located on the first segment that it lies on, at an arc length between those of its ends.
Of the located cuts, put in order, those are kept that stand off both ends of the path and the cut
kept before them by more than the tolerance.
-/

namespace Geospatial.Path

/-! ## Located points -/

def IsSegment (path : List (ℝ × Position ℝ)) (i : Nat) (start stop : ℝ × Position ℝ) : Prop :=
  path[i]? = some start ∧ path[i + 1]? = some stop

noncomputable def cutOn (p : Position ℝ) (start stop : ℝ × Position ℝ) (t : ℝ) : Cut ℝ :=
  ⟨start.1 + t * (stop.1 - start.1), cutPosition p start.2 stop.2 t⟩

/-- A point lies on segment `i` of a path and on none before it, and is cut there. -/
structure LocatedAt (path : List (ℝ × Position ℝ)) (tolerance : ℝ) (p : Position ℝ) (i : Nat)
    (cut : Cut ℝ) : Prop where
  here : ∃ start stop t, IsSegment path i start stop ∧
    locate p start.2 stop.2 tolerance = some t ∧ cut = cutOn p start stop t
  notBefore : ∀ j < i, ∀ start stop, IsSegment path j start stop →
    locate p start.2 stop.2 tolerance = none

theorem samePlace_cutPosition (p start stop : Position ℝ) (t : ℝ) :
    SamePlace (cutPosition p start stop t) p := by
  unfold cutPosition
  split
  · exact ⟨rfl, rfl⟩
  · exact ⟨rfl, rfl⟩

theorem cutPosition_of_heights {p start stop : Position ℝ} {a b : ℝ} (t : ℝ)
    (ha : start.z = some a) (hb : stop.z = some b) :
    cutPosition p start stop t = ⟨p.x, p.y, some (a + t * (b - a))⟩ := by
  simp [cutPosition, ha, hb]

theorem isSegment_zero {u v start stop : ℝ × Position ℝ} {path : List (ℝ × Position ℝ)} :
    IsSegment (u :: v :: path) 0 start stop ↔ u = start ∧ v = stop := by
  simp [IsSegment]

theorem LocatedAt.zero_iff {u v : ℝ × Position ℝ} {path : List (ℝ × Position ℝ)} {tolerance : ℝ}
    {p : Position ℝ} {cut : Cut ℝ} :
    LocatedAt (u :: v :: path) tolerance p 0 cut ↔
      ∃ t, locate p u.2 v.2 tolerance = some t ∧ cut = cutOn p u v t := by
  constructor
  · rintro ⟨⟨start, stop, t, hseg, hloc, hcut⟩, -⟩
    obtain ⟨rfl, rfl⟩ := isSegment_zero.mp hseg
    exact ⟨t, hloc, hcut⟩
  · rintro ⟨t, hloc, hcut⟩
    exact ⟨⟨u, v, t, isSegment_zero.mpr ⟨rfl, rfl⟩, hloc, hcut⟩,
      fun j hj => absurd hj (Nat.not_lt_zero j)⟩

theorem LocatedAt.succ_iff {u v : ℝ × Position ℝ} {path : List (ℝ × Position ℝ)} {tolerance : ℝ}
    {p : Position ℝ} {i : Nat} {cut : Cut ℝ} :
    LocatedAt (u :: v :: path) tolerance p (i + 1) cut ↔
      locate p u.2 v.2 tolerance = none ∧ LocatedAt (v :: path) tolerance p i cut := by
  constructor
  · rintro ⟨⟨start, stop, t, hseg, hloc, hcut⟩, hbefore⟩
    refine ⟨hbefore 0 (Nat.succ_pos i) u v (isSegment_zero.mpr ⟨rfl, rfl⟩), ?_⟩
    exact ⟨⟨start, stop, t, hseg, hloc, hcut⟩,
      fun j hj start stop h => hbefore (j + 1) (Nat.succ_lt_succ hj) start stop h⟩
  · rintro ⟨hnone, ⟨start, stop, t, hseg, hloc, hcut⟩, hbefore⟩
    refine ⟨⟨start, stop, t, hseg, hloc, hcut⟩, fun j hj start stop h => ?_⟩
    cases j with
    | zero =>
        obtain ⟨rfl, rfl⟩ := isSegment_zero.mp h
        exact hnone
    | succ j => exact hbefore j (Nat.lt_of_succ_lt_succ hj) start stop h

/-- A point is located on the first segment of a path, or else on the rest of it. -/
theorem exists_locatedAt_cons {u v : ℝ × Position ℝ} {path : List (ℝ × Position ℝ)}
    {tolerance : ℝ} {p : Position ℝ} {cut : Cut ℝ} :
    (∃ i, LocatedAt (u :: v :: path) tolerance p i cut) ↔
      (∃ t, locate p u.2 v.2 tolerance = some t ∧ cut = cutOn p u v t) ∨
        (locate p u.2 v.2 tolerance = none ∧ ∃ i, LocatedAt (v :: path) tolerance p i cut) := by
  constructor
  · rintro ⟨i, hi⟩
    cases i with
    | zero => exact Or.inl (LocatedAt.zero_iff.mp hi)
    | succ i =>
        obtain ⟨hnone, hi⟩ := LocatedAt.succ_iff.mp hi
        exact Or.inr ⟨hnone, i, hi⟩
  · rintro (hfirst | ⟨hnone, i, hi⟩)
    · exact ⟨0, LocatedAt.zero_iff.mpr hfirst⟩
    · exact ⟨i + 1, LocatedAt.succ_iff.mpr ⟨hnone, hi⟩⟩

theorem not_locatedAt_of_short {path : List (ℝ × Position ℝ)} (h : path.length < 2)
    {tolerance : ℝ} {p : Position ℝ} {i : Nat} {cut : Cut ℝ} :
    ¬LocatedAt path tolerance p i cut := by
  rintro ⟨⟨start, stop, t, ⟨-, hstop⟩, -⟩, -⟩
  obtain ⟨hlt, -⟩ := List.getElem?_eq_some_iff.mp hstop
  omega

theorem locateOnPath_of_some {p a b : Position ℝ} {tolerance t : ℝ} (sum : ℝ) (rest : Path ℝ)
    (h : locate p a b tolerance = some t) :
    locateOnPath p tolerance sum (a :: b :: rest) =
      some (cutOn p (sum, a) (sum + distance a b, b) t) := by
  simp [locateOnPath, h, cutOn]

theorem locateOnPath_of_none {p a b : Position ℝ} {tolerance : ℝ} (sum : ℝ) (rest : Path ℝ)
    (h : locate p a b tolerance = none) :
    locateOnPath p tolerance sum (a :: b :: rest) =
      locateOnPath p tolerance (sum + distance a b) (b :: rest) := by
  simp [locateOnPath, h]

theorem locateOnPath_eq_some_iff {p : Position ℝ} {tolerance sum : ℝ} {path : Path ℝ}
    {cut : Cut ℝ} :
    locateOnPath p tolerance sum path = some cut ↔
      ∃ i, LocatedAt (verticesFrom sum path) tolerance p i cut := by
  induction path generalizing sum with
  | nil => simp [locateOnPath, not_locatedAt_of_short]
  | cons a rest ih =>
      cases rest with
      | nil => simp [locateOnPath, not_locatedAt_of_short]
      | cons b rest =>
          obtain ⟨later, hlater⟩ := verticesFrom_eq_cons (sum + distance a b) b rest
          specialize @ih (sum + distance a b)
          rw [hlater] at ih
          rw [verticesFrom_cons_cons, hlater, exists_locatedAt_cons, ← ih]
          cases hloc : locate p a b tolerance with
          | some t =>
              rw [locateOnPath_of_some sum rest hloc]
              simp [eq_comm]
          | none =>
              rw [locateOnPath_of_none sum rest hloc]
              simp

theorem mem_located_iff {path : Path ℝ} {points : List (Position ℝ)} {tolerance : ℝ}
    {cut : Cut ℝ} :
    cut ∈ located path points tolerance ↔
      ∃ p ∈ points, ∃ i, LocatedAt (vertices path) tolerance p i cut := by
  simp only [mem_located, locateOnPath_eq_some_iff, verticesFrom_zero]

/-! ## Segments of a path -/

theorem IsSegment.unique {path : List (ℝ × Position ℝ)} {i : Nat}
    {start stop start' stop' : ℝ × Position ℝ} (h : IsSegment path i start stop)
    (h' : IsSegment path i start' stop') : start = start' ∧ stop = stop' :=
  ⟨Option.some.inj (h.1.symm.trans h'.1), Option.some.inj (h.2.symm.trans h'.2)⟩

theorem IsSegment.follows {path : Path ℝ} {i : Nat} {start stop : ℝ × Position ℝ}
    (h : IsSegment (vertices path) i start stop) : Follows start stop := by
  obtain ⟨hi, rfl⟩ := List.getElem?_eq_some_iff.mp h.1
  obtain ⟨hnext, rfl⟩ := List.getElem?_eq_some_iff.mp h.2
  exact (vertices_isChain path).getElem i hnext

/-- An earlier segment ends no later than a later one begins. -/
theorem IsSegment.stop_le_start {path : Path ℝ} {i j : Nat}
    {start stop start' stop' : ℝ × Position ℝ} (h : IsSegment (vertices path) i start stop)
    (h' : IsSegment (vertices path) j start' stop') (hij : i < j) : stop.1 ≤ start'.1 := by
  obtain ⟨hnext, rfl⟩ := List.getElem?_eq_some_iff.mp h.2
  obtain ⟨hj, rfl⟩ := List.getElem?_eq_some_iff.mp h'.1
  rcases Nat.eq_or_lt_of_le (Nat.succ_le_of_lt hij) with rfl | hlt
  · exact le_rfl
  · exact List.pairwise_iff_getElem.mp (vertices_pairwise path) _ _ hnext hj hlt

theorem IsSegment.cutOn_mem {path : Path ℝ} {i : Nat} {start stop : ℝ × Position ℝ}
    (h : IsSegment (vertices path) i start stop) {p : Position ℝ} {tolerance t : ℝ}
    (hloc : locate p start.2 stop.2 tolerance = some t) :
    start.1 ≤ (cutOn p start stop t).arc ∧ (cutOn p start stop t).arc ≤ stop.1 := by
  obtain ⟨-, rfl⟩ := locate_eq_some_iff.mp hloc
  obtain ⟨h0, h1⟩ := dominantFraction_mem_unit p start.2 stop.2
  have hgap : 0 ≤ stop.1 - start.1 := sub_nonneg.mpr h.follows.le
  have hmul := mul_le_mul_of_nonneg_right h1 hgap
  have hpos := mul_nonneg h0 hgap
  constructor
  · simp only [cutOn]
    linarith
  · simp only [cutOn]
    linarith

/-- A located cut lies between the arc lengths of the ends of its segment. -/
theorem LocatedAt.arc_mem {path : Path ℝ} {tolerance : ℝ} {p : Position ℝ} {i : Nat}
    {cut : Cut ℝ} (h : LocatedAt (vertices path) tolerance p i cut) {start stop : ℝ × Position ℝ}
    (hseg : IsSegment (vertices path) i start stop) :
    start.1 ≤ cut.arc ∧ cut.arc ≤ stop.1 := by
  obtain ⟨start', stop', t, hseg', hloc, rfl⟩ := h.here
  obtain ⟨rfl, rfl⟩ := hseg'.unique hseg
  exact hseg.cutOn_mem hloc

/-- A cut whose arc length is between those of the ends of a segment is located on it. -/
theorem LocatedAt.eq_of_between {path : Path ℝ} {tolerance : ℝ} {p : Position ℝ} {i j : Nat}
    {cut : Cut ℝ} (h : LocatedAt (vertices path) tolerance p i cut) {start stop : ℝ × Position ℝ}
    (hseg : IsSegment (vertices path) j start stop) (hstart : start.1 < cut.arc)
    (hstop : cut.arc < stop.1) : i = j := by
  obtain ⟨start', stop', t, hseg', -⟩ := h.here
  obtain ⟨hlo, hhi⟩ := h.arc_mem hseg'
  rcases Nat.lt_trichotomy i j with hij | rfl | hij
  · have := hseg'.stop_le_start hseg hij
    linarith
  · rfl
  · have := hseg.stop_le_start hseg' hij
    linarith

/-! ## Thinning -/

/-- A cut is kept when it stands off both ends of the path and the last cut that was kept. -/
def Keeps (tolerance total : ℝ) (last : Option ℝ) (cut : Cut ℝ) : Prop :=
  tolerance < cut.arc ∧ cut.arc < total - tolerance ∧ ∀ arc ∈ last, tolerance < cut.arc - arc

theorem thin_of_keeps {tolerance total : ℝ} {last : Option ℝ} {cut : Cut ℝ}
    (rest : List (Cut ℝ)) (h : Keeps tolerance total last cut) :
    thin tolerance total last (cut :: rest) =
      cut :: thin tolerance total (some cut.arc) rest := by
  obtain ⟨hstart, hend, hlast⟩ := h
  have hfar : ¬(cut.arc ≤ tolerance ∨ total - tolerance ≤ cut.arc) := by
    rintro (h | h)
    · exact not_le.mpr hstart h
    · exact not_le.mpr hend h
  cases last with
  | none => rw [thin, if_neg hfar]
  | some arc => rw [thin, if_neg hfar, if_neg (not_le.mpr (hlast arc rfl))]

theorem thin_of_not_keeps {tolerance total : ℝ} {last : Option ℝ} {cut : Cut ℝ}
    (rest : List (Cut ℝ)) (h : ¬Keeps tolerance total last cut) :
    thin tolerance total last (cut :: rest) = thin tolerance total last rest := by
  by_cases hfar : cut.arc ≤ tolerance ∨ total - tolerance ≤ cut.arc
  · cases last with
    | none => rw [thin, if_pos hfar]
    | some arc => rw [thin, if_pos hfar]
  · obtain ⟨hstart, hend⟩ := not_or.mp hfar
    cases last with
    | none =>
        refine absurd ⟨not_le.mp hstart, not_le.mp hend, fun arc harc => ?_⟩ h
        exact absurd harc (Option.not_mem_none arc)
    | some arc =>
        have hnear : cut.arc - arc ≤ tolerance := by
          by_contra hgap
          refine h ⟨not_le.mp hstart, not_le.mp hend, fun other hother => ?_⟩
          cases hother
          exact not_le.mp hgap
        rw [thin, if_neg hfar, if_pos hnear]

def Apart (tolerance : ℝ) (c d : Cut ℝ) : Prop := tolerance < d.arc - c.arc

theorem mem_thin {tolerance total : ℝ} {last : Option ℝ} {cuts : List (Cut ℝ)} {cut : Cut ℝ}
    (htol : 0 ≤ tolerance) (h : cut ∈ thin tolerance total last cuts) :
    Keeps tolerance total last cut := by
  induction cuts generalizing last with
  | nil => simp [thin] at h
  | cons first rest ih =>
      by_cases hkeeps : Keeps tolerance total last first
      · rw [thin_of_keeps rest hkeeps] at h
        rcases List.mem_cons.mp h with rfl | h
        · exact hkeeps
        · obtain ⟨hstart, hend, hlast⟩ := ih h
          refine ⟨hstart, hend, fun arc harc => ?_⟩
          have hgap := hlast first.arc rfl
          have hfirst := hkeeps.2.2 arc harc
          linarith
      · rw [thin_of_not_keeps rest hkeeps] at h
        exact ih h

theorem thin_pairwise {tolerance : ℝ} (total : ℝ) (htol : 0 ≤ tolerance) (last : Option ℝ)
    (cuts : List (Cut ℝ)) : (thin tolerance total last cuts).Pairwise (Apart tolerance) := by
  induction cuts generalizing last with
  | nil => simp [thin]
  | cons first rest ih =>
      by_cases hkeeps : Keeps tolerance total last first
      · rw [thin_of_keeps rest hkeeps]
        refine List.pairwise_cons.mpr ⟨fun cut hcut => ?_, ih _⟩
        exact (mem_thin htol hcut).2.2 first.arc rfl
      · rw [thin_of_not_keeps rest hkeeps]
        exact ih _

/-- A cut that is dropped is near an end of the path or near a cut that was kept before it. -/
theorem thin_covers {tolerance : ℝ} (total : ℝ) (last : Option ℝ) {cuts : List (Cut ℝ)}
    {cut : Cut ℝ} (htol : 0 ≤ tolerance) (hsorted : cuts.Pairwise fun c d => c.arc ≤ d.arc)
    (h : cut ∈ cuts) :
    cut.arc ≤ tolerance ∨ total - tolerance ≤ cut.arc ∨
      (∃ arc ∈ last, cut.arc - arc ≤ tolerance) ∨
      ∃ kept ∈ thin tolerance total last cuts, |cut.arc - kept.arc| ≤ tolerance := by
  induction cuts generalizing last with
  | nil => cases h
  | cons first rest ih =>
      obtain ⟨hle, hrest⟩ := List.pairwise_cons.mp hsorted
      by_cases hkeeps : Keeps tolerance total last first
      · rw [thin_of_keeps rest hkeeps]
        rcases List.mem_cons.mp h with rfl | hmem
        · refine Or.inr (Or.inr (Or.inr ⟨cut, List.mem_cons_self, ?_⟩))
          simpa using htol
        · rcases ih (some first.arc) hrest hmem with h | h | ⟨arc, harc, h⟩ | ⟨k, hk, h⟩
          · exact Or.inl h
          · exact Or.inr (Or.inl h)
          · cases harc
            refine Or.inr (Or.inr (Or.inr ⟨first, List.mem_cons_self, ?_⟩))
            rwa [abs_of_nonneg (sub_nonneg.mpr (hle cut hmem))]
          · exact Or.inr (Or.inr (Or.inr ⟨k, List.mem_cons_of_mem _ hk, h⟩))
      · rw [thin_of_not_keeps rest hkeeps]
        rcases List.mem_cons.mp h with rfl | hmem
        · by_contra hnone
          obtain ⟨hstart, hend, hlast, -⟩ := by simpa only [not_or] using hnone
          refine hkeeps ⟨not_le.mp hstart, not_le.mp hend, fun arc harc => ?_⟩
          by_contra hgap
          exact hlast ⟨arc, harc, not_lt.mp hgap⟩
        · exact ih last hrest hmem

/-! ## The cuts of a path -/

theorem lengthsFrom_getLast? (sum : ℝ) (path : Path ℝ) :
    (lengthsFrom sum path).getLast?.getD sum = sum + totalLength path := by
  induction path generalizing sum with
  | nil => simp [lengthsFrom, totalLength]
  | cons p rest ih =>
      cases rest with
      | nil => simp [lengthsFrom, totalLength]
      | cons q rest =>
          have hne : lengthsFrom (sum + distance p q) (q :: rest) ≠ [] := by
            intro h
            have := length_lengthsFrom (sum + distance p q) (q :: rest)
            rw [h] at this
            cases this
          have hih := ih (sum + distance p q)
          rw [List.getLast?_eq_some_getLast hne, Option.getD_some] at hih
          simp only [lengthsFrom, totalLength]
          rw [List.getLast?_cons_of_ne_nil hne, List.getLast?_eq_some_getLast hne,
            Option.getD_some, hih, add_assoc]

theorem lengths_getLast? (path : Path ℝ) :
    (lengths path).getLast?.getD 0 = totalLength path := by
  rw [lengths, lengthsFrom_getLast?, zero_add]

theorem vertices_head? {path : Path ℝ} {v : ℝ × Position ℝ} (h : v ∈ (vertices path).head?) :
    v.1 = 0 := by
  cases path with
  | nil => cases h
  | cons p rest =>
      obtain ⟨later, hlater⟩ := verticesFrom_eq_cons 0 p rest
      rw [← verticesFrom_zero, hlater] at h
      cases h
      rfl

theorem vertices_getLast? {path : Path ℝ} {v : ℝ × Position ℝ}
    (h : v ∈ (vertices path).getLast?) : v.1 = totalLength path := by
  rw [← lengths_getLast?, ← map_fst_vertices, List.getLast?_map, h]
  rfl

/-- The arc lengths of a path lie between zero and its length. -/
theorem vertices_bounds {path : Path ℝ} {v : ℝ × Position ℝ} (h : v ∈ vertices path) :
    0 ≤ v.1 ∧ v.1 ≤ totalLength path := by
  have hsorted := vertices_pairwise path
  have hend := vertices_getLast? (List.getLast?_eq_some_getLast (List.ne_nil_of_mem h))
  constructor
  · cases hrest : vertices path with
    | nil => simp [hrest] at h
    | cons u rest =>
        have hfirst : u.1 = 0 := vertices_head? (by rw [hrest]; rfl)
        rw [hrest] at h hsorted
        rcases List.mem_cons.mp h with rfl | h
        · exact hfirst.ge
        · exact hfirst.ge.trans ((List.pairwise_cons.mp hsorted).1 v h)
  · rw [← hend]
    exact hsorted.rel_getLast_of_rel_getLast_getLast h le_rfl

/-- A point is located between the start and the end of the path. -/
theorem LocatedAt.arc_mem_path {path : Path ℝ} {tolerance : ℝ} {p : Position ℝ} {i : Nat}
    {cut : Cut ℝ} (h : LocatedAt (vertices path) tolerance p i cut) :
    0 ≤ cut.arc ∧ cut.arc ≤ totalLength path := by
  obtain ⟨start, stop, t, hseg, -⟩ := h.here
  obtain ⟨hlo, hhi⟩ := h.arc_mem hseg
  have hstart := (vertices_bounds (List.mem_of_getElem? hseg.1)).1
  have hstop := (vertices_bounds (List.mem_of_getElem? hseg.2)).2
  exact ⟨hstart.trans hlo, hhi.trans hstop⟩

theorem arc_ranks : Sorting.Ranks fun a b : Cut ℝ => decide (a.arc < b.arc) :=
  Sorting.Ranks.of_key Cut.arc

section Cuts

variable {path : Path ℝ} {points : List (Position ℝ)} {tolerance : ℝ}

theorem mem_cuts_located {cut : Cut ℝ} (h : cut ∈ cuts path points tolerance) :
    ∃ p ∈ points, ∃ i, LocatedAt (vertices path) tolerance p i cut :=
  mem_located_iff.mp (mem_located_of_mem_cuts h)

theorem mem_cuts_bounds {cut : Cut ℝ} (htol : 0 ≤ tolerance)
    (h : cut ∈ cuts path points tolerance) :
    tolerance < cut.arc ∧ cut.arc < totalLength path - tolerance := by
  obtain ⟨hstart, hend, -⟩ := mem_thin htol h
  rw [lengths_getLast?] at hend
  exact ⟨hstart, hend⟩

theorem cuts_pairwise (htol : 0 ≤ tolerance) :
    (cuts path points tolerance).Pairwise (Apart tolerance) :=
  thin_pairwise _ htol _ _

theorem cuts_ascend (htol : 0 ≤ tolerance) :
    (cuts path points tolerance).Pairwise fun c d => c.arc < d.arc := by
  refine (cuts_pairwise htol).imp fun {c d} hgap => ?_
  unfold Apart at hgap
  linarith

/-- Every located point is near an end of the path or near a cut that is kept. -/
theorem cuts_cover {p : Position ℝ} {i : Nat} {cut : Cut ℝ} (htol : 0 ≤ tolerance)
    (hp : p ∈ points) (h : LocatedAt (vertices path) tolerance p i cut) :
    cut.arc ≤ tolerance ∨ totalLength path - tolerance ≤ cut.arc ∨
      ∃ kept ∈ cuts path points tolerance, |cut.arc - kept.arc| ≤ tolerance := by
  have hmem : cut ∈ Sorting.sort (fun a b => decide (a.arc < b.arc))
      (located path points tolerance) :=
    (Sorting.sort_perm _ _).mem_iff.mpr (mem_located_iff.mpr ⟨p, hp, i, h⟩)
  have hsorted : (Sorting.sort (fun a b => decide (a.arc < b.arc))
      (located path points tolerance)).Pairwise fun c d => c.arc ≤ d.arc :=
    (arc_ranks.sort_ascends (located path points tolerance)).imp fun h => by simpa using h
  rcases thin_covers ((lengths path).getLast?.getD 0) none htol hsorted hmem
    with h | h | ⟨arc, harc, -⟩ | h
  · exact Or.inl h
  · rw [lengths_getLast?] at h
    exact Or.inr (Or.inl h)
  · cases harc
  · exact Or.inr (Or.inr h)

def OffEnds (path : Path ℝ) (tolerance : ℝ) (cut : Cut ℝ) : Prop :=
  tolerance < cut.arc ∧ cut.arc < totalLength path - tolerance

/-- Where points located within the tolerance of one another are one cut, all cuts off the ends of
the path are kept. -/
theorem mem_cuts_iff {cut : Cut ℝ} (htol : 0 ≤ tolerance)
    (hone : ∀ p ∈ points, ∀ q ∈ points, ∀ c d, locateOnPath p tolerance 0 path = some c →
      locateOnPath q tolerance 0 path = some d → OffEnds path tolerance c →
      OffEnds path tolerance d → |c.arc - d.arc| ≤ tolerance → c = d) :
    cut ∈ cuts path points tolerance ↔
      (∃ p ∈ points, locateOnPath p tolerance 0 path = some cut) ∧ OffEnds path tolerance cut := by
  simp only [locateOnPath_eq_some_iff, verticesFrom_zero] at hone ⊢
  constructor
  · intro h
    obtain ⟨p, hp, hloc⟩ := mem_cuts_located h
    exact ⟨⟨p, hp, hloc⟩, mem_cuts_bounds htol h⟩
  · rintro ⟨⟨p, hp, i, hloc⟩, hoff⟩
    rcases cuts_cover htol hp hloc with h | h | ⟨kept, hkept, hnear⟩
    · exact absurd h (not_le.mpr hoff.1)
    · exact absurd h (not_le.mpr hoff.2)
    · obtain ⟨q, hq, hqloc⟩ := mem_cuts_located hkept
      rwa [hone p hp q hq cut kept ⟨i, hloc⟩ hqloc hoff (mem_cuts_bounds htol hkept) hnear]

/-- Cuts that ascend are determined by which they are. -/
theorem cuts_eq_of_mem_iff {found : List (Cut ℝ)} (htol : 0 ≤ tolerance)
    (hfound : found.Pairwise fun c d => c.arc < d.arc)
    (h : ∀ cut, cut ∈ cuts path points tolerance ↔ cut ∈ found) :
    cuts path points tolerance = found := by
  have hirrefl : Std.Irrefl fun c d : Cut ℝ => c.arc < d.arc := ⟨fun c => lt_irrefl c.arc⟩
  have hantisymm : Std.Antisymm fun c d : Cut ℝ => c.arc < d.arc :=
    ⟨fun c d hcd hdc => absurd hdc hcd.asymm⟩
  exact (cuts_ascend htol).eq_of_mem_iff hfound h

end Cuts

end Geospatial.Path
