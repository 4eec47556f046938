import Geospatial.Proofs.Path.Passing
import Geospatial.Proofs.Path.Stops

/-!
# A path from its end

Taken from its end a path has the same length and the same segments, its arc lengths are those left
to the end, and a point that lies on one of its segments lies there at the same place. The runs of
the stops taken from the last one are the runs, each from its last stop.
-/

namespace Geospatial.Path

/-! ## Segments from their ends -/

theorem cutPosition_reverse (p a b : Position ℝ) (t : ℝ) :
    cutPosition p b a (1 - t) = cutPosition p a b t := by
  cases ha : a.z with
  | none =>
      cases hb : b.z with
      | none => simp [cutPosition, ha, hb]
      | some zb => simp [cutPosition, ha, hb]
  | some za =>
      cases hb : b.z with
      | none => simp [cutPosition, ha, hb]
      | some zb =>
          simp only [cutPosition, ha, hb, Position.mk.injEq, Option.some.injEq, true_and]
          ring

/-! ## Paths from their ends -/

theorem totalLength_reverse (path : Path ℝ) : totalLength path.reverse = totalLength path := by
  induction path with
  | nil => rfl
  | cons a rest ih =>
      cases rest with
      | nil => rfl
      | cons b rest =>
          rw [List.reverse_cons, List.reverse_cons, totalLength_concat, ← List.reverse_cons, ih,
            totalLength_cons_cons, distance_comm b a, add_comm]

theorem vertices_cons_cons (a b : Position ℝ) (rest : Path ℝ) :
    vertices (a :: b :: rest) =
      (0, a) :: (vertices (b :: rest)).map fun v => (distance a b + v.1, v.2) := by
  have hrest := verticesFrom_shift (distance a b) 0 (b :: rest)
  rw [add_zero] at hrest
  rw [← verticesFrom_zero, verticesFrom_cons_cons, zero_add, hrest, verticesFrom_zero]

theorem vertices_reverse (path : Path ℝ) :
    vertices path.reverse =
      (vertices path).reverse.map fun v => (totalLength path - v.1, v.2) := by
  induction path with
  | nil => rfl
  | cons a rest ih =>
      cases rest with
      | nil => simp [← verticesFrom_zero, totalLength]
      | cons b rest =>
          have hlast : totalLength ((b :: rest).reverse ++ [a]) = totalLength (a :: b :: rest) := by
            rw [← List.reverse_cons, totalLength_reverse]
          have hshift : ∀ v : ℝ × Position ℝ, totalLength (b :: rest) - v.1 =
              totalLength (a :: b :: rest) - (distance a b + v.1) := by
            intro v
            rw [totalLength_cons_cons]
            ring
          rw [List.reverse_cons, vertices_append, hlast, ih, vertices_cons_cons]
          simp [← verticesFrom_zero, hshift, Function.comp_def]

/-! ## Places from the end -/

/-- A point is located on a segment of a path, not only on the first one that it lies on. -/
def LiesAt (path : Path ℝ) (tolerance : ℝ) (p : Position ℝ) (cut : Cut ℝ) : Prop :=
  ∃ i start stop t, IsSegment (vertices path) i start stop ∧
    locate p start.2 stop.2 tolerance = some t ∧ cut = cutOn p start stop t

def Cut.mirror (total : ℝ) (cut : Cut ℝ) : Cut ℝ := { cut with arc := total - cut.arc }

@[simp] theorem Cut.mirror_arc (total : ℝ) (cut : Cut ℝ) :
    (cut.mirror total).arc = total - cut.arc := rfl

@[simp] theorem Cut.mirror_place (total : ℝ) (cut : Cut ℝ) :
    (cut.mirror total).place = cut.place := rfl

@[simp] theorem Cut.mirror_mirror (total : ℝ) (cut : Cut ℝ) :
    (cut.mirror total).mirror total = cut := by
  simp [Cut.mirror]

theorem Cut.mirror_involutive (total : ℝ) : Function.Involutive (Cut.mirror total) :=
  Cut.mirror_mirror total

section Places

variable {path : Path ℝ} {tolerance : ℝ} {p : Position ℝ} {cut : Cut ℝ}

theorem liesAt_of_located (h : locateOnPath p tolerance 0 path = some cut) :
    LiesAt path tolerance p cut := by
  obtain ⟨i, hi⟩ := locateOnPath_eq_some_iff.mp h
  obtain ⟨start, stop, t, hseg, hloc, hcut⟩ := hi.here
  exact ⟨i, start, stop, t, hseg, hloc, hcut⟩

theorem LiesAt.located (h : LiesAt path tolerance p cut) :
    ∃ first, locateOnPath p tolerance 0 path = some first := by
  classical
  have hsome : ∃ i start stop t, IsSegment (vertices path) i start stop ∧
      locate p start.2 stop.2 tolerance = some t := by
    obtain ⟨i, start, stop, t, hseg, hloc, -⟩ := h
    exact ⟨i, start, stop, t, hseg, hloc⟩
  obtain ⟨start, stop, t, hseg, hloc⟩ := Nat.find_spec hsome
  refine ⟨cutOn p start stop t, locateOnPath_eq_some_iff.mpr ⟨Nat.find hsome, ?_⟩⟩
  refine ⟨⟨start, stop, t, hseg, hloc, rfl⟩, fun j hj start' stop' hseg' => ?_⟩
  cases hloc' : locate p start'.2 stop'.2 tolerance with
  | none => rfl
  | some u => exact absurd ⟨start', stop', u, hseg', hloc'⟩ (Nat.find_min hsome hj)

theorem IsSegment.reverse {items : List (ℝ × Position ℝ)} {i : Nat} {u v : ℝ × Position ℝ}
    (h : IsSegment items i u v) : IsSegment items.reverse (items.length - 2 - i) v u := by
  obtain ⟨hu, hv⟩ := h
  obtain ⟨hlt, -⟩ := List.getElem?_eq_some_iff.mp hv
  constructor
  · rw [List.getElem?_reverse (by omega), ← hv]
    congr 1
    omega
  · rw [List.getElem?_reverse (by omega), ← hu]
    congr 1
    omega

theorem IsSegment.distinct (hpath : path.IsChain fun p q => ¬SamePlace p q) {i : Nat}
    {u v : ℝ × Position ℝ} (h : IsSegment (vertices path) i u v) : ¬SamePlace u.2 v.2 := by
  rw [← map_snd_vertices path, List.isChain_map] at hpath
  obtain ⟨hi, rfl⟩ := List.getElem?_eq_some_iff.mp h.1
  obtain ⟨hnext, rfl⟩ := List.getElem?_eq_some_iff.mp h.2
  exact hpath.getElem i hnext

/-- A point lies from the end of a path where it lies from its start. -/
theorem LiesAt.mirror (hpath : path.IsChain fun p q => ¬SamePlace p q)
    (h : LiesAt path tolerance p cut) :
    LiesAt path.reverse tolerance p (cut.mirror (totalLength path)) := by
  obtain ⟨i, start, stop, t, hseg, hloc, rfl⟩ := h
  have hreverse := hseg.reverse
  refine ⟨(vertices path).length - 2 - i, (totalLength path - stop.1, stop.2),
    (totalLength path - start.1, start.2), 1 - t, ?_, ?_, ?_⟩
  · rw [vertices_reverse]
    constructor
    · rw [List.getElem?_map, hreverse.1, Option.map_some]
    · rw [List.getElem?_map, hreverse.2, Option.map_some]
  · rw [locate_reverse p tolerance (hseg.distinct hpath), hloc, Option.map_some]
  · simp only [cutOn, Cut.mirror, cutPosition_reverse, Cut.mk.injEq, and_true]
    ring

end Places

/-! ## Runs from the last stop -/

section Runs

variable {α : Type}

theorem runsFrom_concat {current later last : List (Stop α)} {made : List (List (Stop α))}
    (s : Stop α) (h : runsFrom current later = made ++ [last]) :
    runsFrom current (later ++ [s]) =
      made ++ if s.cut?.isSome then [last ++ [s], [s]] else [last ++ [s]] := by
  induction later generalizing current made with
  | nil =>
      have hends : [] ++ [current] = made ++ [last] := h
      obtain ⟨rfl, hlast⟩ := List.append_inj' hends rfl
      obtain rfl := (List.cons.inj hlast).1
      simp [runsFrom]
  | cons a later ih =>
      rw [List.cons_append, runsFrom]
      rw [runsFrom] at h
      by_cases ha : a.cut?.isSome
      · rw [if_pos ha] at h ⊢
        cases made with
        | nil => exact absurd (List.cons.inj h).2 (runsFrom_ne_nil _ _)
        | cons first made =>
            obtain ⟨rfl, hrest⟩ := List.cons.inj h
            rw [ih hrest, List.cons_append]
      · rw [if_neg ha] at h ⊢
        exact ih h

theorem runsFrom_cons (s : Stop α) {current later first : List (Stop α)}
    {more : List (List (Stop α))} (h : runsFrom current later = first :: more) :
    runsFrom (s :: current) later = (s :: first) :: more := by
  induction later generalizing current with
  | nil =>
      obtain ⟨rfl, rfl⟩ := List.cons.inj h
      rfl
  | cons a later ih =>
      rw [runsFrom] at h ⊢
      by_cases ha : a.cut?.isSome
      · rw [if_pos ha] at h ⊢
        obtain ⟨rfl, rfl⟩ := List.cons.inj h
        rfl
      · rw [if_neg ha] at h ⊢
        exact ih h

/-- The runs from the last stop are the runs taken from their ends, and one more at a first stop
that is cut. -/
theorem runs_reverse_cons (s : Stop α) (later : List (Stop α))
    (hlast : ∀ t ∈ (s :: later).getLast?, t.cut? = none) :
    runs (s :: later).reverse = ((runs (s :: later)).map List.reverse).reverse ++
      if s.cut?.isSome then [[s]] else [] := by
  induction later generalizing s with
  | nil =>
      have hs : s.cut? = none := hlast s rfl
      simp [runs, runsFrom, hs]
  | cons t later ih =>
      rw [List.getLast?_cons_cons] at hlast
      have hrest := ih t hlast
      obtain ⟨u, front, hfront⟩ : ∃ u front, (t :: later).reverse = u :: front :=
        List.exists_cons_of_ne_nil (by simp)
      rw [hfront] at hrest
      obtain ⟨more, rest, hruns⟩ := runsFrom_eq_cons [t] later
      rw [List.reverse_cons, hfront, List.cons_append]
      by_cases ht : t.cut?.isSome
      · have hwhole : runs (s :: t :: later) = [s, t] :: runs (t :: later) :=
          runsFrom_of_cut [s] later ht
        rw [if_pos ht] at hrest
        rw [runs, runsFrom_concat s hrest, hwhole]
        split <;> simp
      · have hwhole : runs (s :: t :: later) = (s :: t :: more) :: rest := by
          rw [runs, runsFrom_of_no_cut [s] later (by simpa using ht)]
          exact runsFrom_cons s hruns
        have hfirst : runs (t :: later) = (t :: more) :: rest := hruns
        rw [if_neg ht, List.append_nil, hfirst, List.map_cons, List.reverse_cons] at hrest
        rw [runs, runsFrom_concat s hrest, hwhole]
        split <;> simp

/-- Where the ends are not cut, the runs from the last stop are the runs taken from their ends. -/
theorem runs_reverse {stops : List (Stop α)} (hhead : ∀ s ∈ stops.head?, s.cut? = none)
    (hlast : ∀ s ∈ stops.getLast?, s.cut? = none) :
    runs stops.reverse = ((runs stops).map List.reverse).reverse := by
  cases stops with
  | nil => rfl
  | cons s later =>
      rw [runs_reverse_cons s later hlast, hhead s rfl]
      simp

theorem runsFrom_map {f : Stop α → Stop α} (hf : ∀ s, (f s).cut?.isSome = s.cut?.isSome)
    (current later : List (Stop α)) :
    runsFrom (current.map f) (later.map f) = (runsFrom current later).map (List.map f) := by
  induction later generalizing current with
  | nil => rfl
  | cons s later ih =>
      have hstep : current.map f ++ [f s] = (current ++ [s]).map f := by simp
      rw [List.map_cons, runsFrom, runsFrom, hf, hstep]
      split
      · rw [List.map_cons, ← ih, List.map_singleton]
      · exact ih (current ++ [s])

theorem runs_map {f : Stop α → Stop α} (hf : ∀ s, (f s).cut?.isSome = s.cut?.isSome)
    (stops : List (Stop α)) : runs (stops.map f) = (runs stops).map (List.map f) := by
  cases stops with
  | nil => rfl
  | cons s later => exact runsFrom_map hf [s] later

end Runs

/-! ## Stops from the end -/

def Stop.mirror (total : ℝ) : Stop ℝ → Stop ℝ
  | .vertex arc place cut => .vertex (total - arc) place (cut.map (Cut.mirror total))
  | .inserted cut => .inserted (cut.mirror total)

namespace Stop

@[simp] theorem mirror_arc (total : ℝ) (s : Stop ℝ) : (s.mirror total).arc = total - s.arc := by
  cases s <;> rfl

@[simp] theorem mirror_place (total : ℝ) (s : Stop ℝ) : (s.mirror total).place = s.place := by
  cases s <;> rfl

@[simp] theorem mirror_cut? (total : ℝ) (s : Stop ℝ) :
    (s.mirror total).cut? = s.cut?.map (Cut.mirror total) := by
  cases s <;> rfl

@[simp] theorem mirror_mirror (total : ℝ) (s : Stop ℝ) : (s.mirror total).mirror total = s := by
  cases s with
  | vertex arc place cut => cases cut <;> simp [mirror]
  | inserted cut => simp [mirror]

end Stop

end Geospatial.Path
