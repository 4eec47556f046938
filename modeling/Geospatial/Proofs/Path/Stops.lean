import Geospatial.Proofs.Path.Cuts

/-!
# Stops on the way along a path

The walk that cuts a path passes its positions and its cuts in one order. Each stop on the way is a
position, where a cut may be made, or a cut inserted between two positions. The pieces are the runs
of stops from one cut to the next, the stop at a cut shared by both.
-/

namespace Geospatial.Path

inductive Stop (α : Type) where
  /-- A position of the path at its arc length, with the cut that is made at it. -/
  | vertex (arc : α) (place : Position α) (cut : Option (Cut α))
  /-- A cut between two positions. -/
  | inserted (cut : Cut α)

namespace Stop

variable {α : Type}

def arc : Stop α → α
  | vertex arc _ _ => arc
  | inserted cut => cut.arc

def place : Stop α → Position α
  | vertex _ place _ => place
  | inserted cut => cut.place

def cut? : Stop α → Option (Cut α)
  | vertex _ _ cut => cut
  | inserted cut => some cut

def vertex? : Stop α → Option (α × Position α)
  | vertex arc place _ => some (arc, place)
  | inserted _ => none

@[simp] theorem arc_vertex (a : α) (p : Position α) (c : Option (Cut α)) :
    (vertex a p c).arc = a := rfl

@[simp] theorem arc_inserted (c : Cut α) : (inserted c).arc = c.arc := rfl

@[simp] theorem place_vertex (a : α) (p : Position α) (c : Option (Cut α)) :
    (vertex a p c).place = p := rfl

@[simp] theorem place_inserted (c : Cut α) : (inserted c).place = c.place := rfl

@[simp] theorem cut?_vertex (a : α) (p : Position α) (c : Option (Cut α)) :
    (vertex a p c).cut? = c := rfl

@[simp] theorem cut?_inserted (c : Cut α) : (inserted c).cut? = some c := rfl

@[simp] theorem vertex?_vertex (a : α) (p : Position α) (c : Option (Cut α)) :
    (vertex a p c).vertex? = some (a, p) := rfl

@[simp] theorem vertex?_inserted (c : Cut α) : (inserted c).vertex? = none := rfl

theorem place_of_vertex? {s : Stop α} {v : α × Position α} (h : s.vertex? = some v) :
    s.place = v.2 := by
  cases s with
  | vertex arc place cut =>
      cases h
      rfl
  | inserted cut => cases h

theorem arc_of_vertex? {s : Stop α} {v : α × Position α} (h : s.vertex? = some v) :
    s.arc = v.1 := by
  cases s with
  | vertex arc place cut =>
      cases h
      rfl
  | inserted cut => cases h

end Stop

/-! ## Runs between cuts -/

section Runs

variable {α : Type}

/-- The runs of stops from one cut to the next; `current` is the run begun at the last cut. -/
def runsFrom (current : List (Stop α)) : List (Stop α) → List (List (Stop α))
  | [] => [current]
  | s :: later =>
    if s.cut?.isSome then (current ++ [s]) :: runsFrom [s] later
    else runsFrom (current ++ [s]) later

def runs : List (Stop α) → List (List (Stop α))
  | [] => [[]]
  | s :: later => runsFrom [s] later

/-- Pieces put together again, the stop where one ends and the next begins taken once. -/
def joined {β : Type} : List (List β) → List β
  | [] => []
  | first :: later => first ++ later.flatMap List.tail

theorem runsFrom_of_cut {s : Stop α} (current later : List (Stop α)) (h : s.cut?.isSome) :
    runsFrom current (s :: later) = (current ++ [s]) :: runsFrom [s] later := by
  rw [runsFrom, if_pos h]

theorem runsFrom_of_no_cut {s : Stop α} (current later : List (Stop α)) (h : s.cut? = none) :
    runsFrom current (s :: later) = runsFrom (current ++ [s]) later := by
  rw [runsFrom, if_neg (by simp [h])]

theorem runsFrom_of_no_cuts (current : List (Stop α)) {later : List (Stop α)}
    (h : ∀ s ∈ later, s.cut? = none) : runsFrom current later = [current ++ later] := by
  induction later generalizing current with
  | nil => simp [runsFrom]
  | cons s later ih =>
      rw [runsFrom_of_no_cut current later (h s List.mem_cons_self),
        ih _ fun t ht => h t (List.mem_cons_of_mem _ ht)]
      simp

theorem length_runsFrom (current later : List (Stop α)) :
    (runsFrom current later).length = (later.filterMap Stop.cut?).length + 1 := by
  induction later generalizing current with
  | nil => rfl
  | cons s later ih =>
      cases h : s.cut? with
      | some c =>
          rw [runsFrom_of_cut current later (by simp [h]), List.length_cons, ih,
            List.filterMap_cons_some h, List.length_cons]
      | none => rw [runsFrom_of_no_cut current later h, ih, List.filterMap_cons_none h]

theorem runsFrom_ne_nil (current later : List (Stop α)) : runsFrom current later ≠ [] := by
  intro h
  have := length_runsFrom current later
  rw [h] at this
  cases this

/-- The first run begins as the current one. -/
theorem runsFrom_eq_cons (current later : List (Stop α)) :
    ∃ more rest, runsFrom current later = (current ++ more) :: rest := by
  induction later generalizing current with
  | nil => exact ⟨[], [], by simp [runsFrom]⟩
  | cons s later ih =>
      cases h : s.cut? with
      | some c => exact ⟨[s], _, runsFrom_of_cut current later (by simp [h])⟩
      | none =>
          obtain ⟨more, rest, hrest⟩ := ih (current ++ [s])
          exact ⟨s :: more, rest, by rw [runsFrom_of_no_cut current later h, hrest]; simp⟩

theorem flatMap_tail_runsFrom {current : List (Stop α)} (later : List (Stop α))
    (h : current ≠ []) :
    (runsFrom current later).flatMap List.tail = current.tail ++ later := by
  induction later generalizing current with
  | nil => simp [runsFrom]
  | cons s later ih =>
      have htail : (current ++ [s]).tail = current.tail ++ [s] := by
        rw [List.tail_append_of_ne_nil h]
      cases hcut : s.cut? with
      | some c =>
          rw [runsFrom_of_cut current later (by simp [hcut]), List.flatMap_cons,
            ih (List.cons_ne_nil s []), htail]
          simp
      | none => rw [runsFrom_of_no_cut current later hcut, ih (by simp), htail]; simp

theorem joined_runsFrom (s : Stop α) (later : List (Stop α)) :
    joined (runsFrom [s] later) = s :: later := by
  have hflat := flatMap_tail_runsFrom later (List.cons_ne_nil s [])
  obtain ⟨more, rest, hrest⟩ := runsFrom_eq_cons [s] later
  rw [hrest] at hflat ⊢
  simpa [joined] using hflat

theorem joined_runs (stops : List (Stop α)) : joined (runs stops) = stops := by
  cases stops with
  | nil => rfl
  | cons s later => exact joined_runsFrom s later

/-- Every run is a stretch of the stops. -/
theorem infix_of_mem_runsFrom {current later run : List (Stop α)}
    (h : run ∈ runsFrom current later) : run <:+: current ++ later := by
  induction later generalizing current with
  | nil =>
      rw [runsFrom, List.mem_singleton] at h
      subst h
      simp
  | cons s later ih =>
      cases hcut : s.cut? with
      | some c =>
          rw [runsFrom_of_cut current later (by simp [hcut])] at h
          rcases List.mem_cons.mp h with rfl | h
          · exact ⟨[], later, by simp⟩
          · exact (ih h).trans ⟨current, [], by simp⟩
      | none =>
          rw [runsFrom_of_no_cut current later hcut] at h
          simpa using ih h

theorem infix_of_mem_runs {stops run : List (Stop α)} (h : run ∈ runs stops) :
    run <:+: stops := by
  cases stops with
  | nil =>
      rw [runs, List.mem_singleton] at h
      subst h
      simp
  | cons s later => exact infix_of_mem_runsFrom h

/-- What holds from every stop to the next holds in every run. -/
theorem isChain_of_mem_runs {R : Stop α → Stop α → Prop} {stops run : List (Stop α)}
    (h : stops.IsChain R) (hrun : run ∈ runs stops) : run.IsChain R := by
  obtain ⟨before, after, rfl⟩ := infix_of_mem_runs hrun
  exact h.left_of_append.right_of_append

/-- A run ends at the stop at which the next one begins, and a cut is made there. -/
def Meets (first second : List (Stop α)) : Prop :=
  ∃ s, first.getLast? = some s ∧ second.head? = some s ∧ s.cut?.isSome

theorem runsFrom_isChain (current later : List (Stop α)) :
    (runsFrom current later).IsChain Meets := by
  induction later generalizing current with
  | nil => simp [runsFrom]
  | cons s later ih =>
      cases hcut : s.cut? with
      | some c =>
          have hrest := ih [s]
          obtain ⟨more, rest, hruns⟩ := runsFrom_eq_cons [s] later
          rw [runsFrom_of_cut current later (by simp [hcut])]
          rw [hruns] at hrest ⊢
          exact List.isChain_cons_cons.mpr ⟨⟨s, by simp, by simp, by simp [hcut]⟩, hrest⟩
      | none =>
          rw [runsFrom_of_no_cut current later hcut]
          exact ih _

theorem runs_isChain (stops : List (Stop α)) : (runs stops).IsChain Meets := by
  cases stops with
  | nil => simp [runs]
  | cons s later => exact runsFrom_isChain [s] later

theorem getLast?_runsFrom (current later : List (Stop α)) :
    ∃ run, (runsFrom current later).getLast? = some run ∧
      (current ≠ [] → run.getLast? = (current ++ later).getLast?) := by
  induction later generalizing current with
  | nil => exact ⟨current, by simp [runsFrom], by simp⟩
  | cons s later ih =>
      cases hcut : s.cut? with
      | some c =>
          obtain ⟨run, hrun, hlast⟩ := ih [s]
          refine ⟨run, ?_, fun _ => ?_⟩
          · rw [runsFrom_of_cut current later (by simp [hcut]),
              List.getLast?_cons_of_ne_nil (runsFrom_ne_nil _ _), hrun]
          · rw [hlast (List.cons_ne_nil s []),
              List.getLast?_append_of_ne_nil current (List.cons_ne_nil s later)]
            rfl
      | none =>
          obtain ⟨run, hrun, hlast⟩ := ih (current ++ [s])
          refine ⟨run, ?_, fun _ => ?_⟩
          · rw [runsFrom_of_no_cut current later hcut, hrun]
          · rw [hlast (by simp)]
            simp

/-! A path begins with its first run and ends with its last one. -/

theorem runs_ne_nil (stops : List (Stop α)) : runs stops ≠ [] := by
  cases stops with
  | nil => exact List.cons_ne_nil _ _
  | cons s later => exact runsFrom_ne_nil [s] later

theorem length_runs {stops : List (Stop α)} (h : ∀ s ∈ stops.head?, s.cut? = none) :
    (runs stops).length = (stops.filterMap Stop.cut?).length + 1 := by
  cases stops with
  | nil => rfl
  | cons s later => rw [runs, length_runsFrom, List.filterMap_cons_none (h s rfl)]

theorem head?_runs (stops : List (Stop α)) :
    ∃ run, (runs stops).head? = some run ∧ run.head? = stops.head? := by
  cases stops with
  | nil => exact ⟨[], rfl, rfl⟩
  | cons s later =>
      obtain ⟨more, rest, hrest⟩ := runsFrom_eq_cons [s] later
      refine ⟨[s] ++ more, ?_, rfl⟩
      rw [runs, hrest, List.head?_cons]

theorem getLast?_runs (stops : List (Stop α)) :
    ∃ run, (runs stops).getLast? = some run ∧ run.getLast? = stops.getLast? := by
  cases stops with
  | nil => exact ⟨[], rfl, rfl⟩
  | cons s later =>
      obtain ⟨run, hrun, hlast⟩ := getLast?_runsFrom [s] later
      exact ⟨run, hrun, hlast (List.cons_ne_nil s [])⟩

/-- Where the last stop is not cut, every run has two stops at least. -/
theorem two_le_length_of_mem_runsFrom {current later run : List (Stop α)} (hne : current ≠ [])
    (hlen : later = [] → 2 ≤ current.length)
    (hlast : ∀ s, later.getLast? = some s → s.cut? = none) (h : run ∈ runsFrom current later) :
    2 ≤ run.length := by
  induction later generalizing current with
  | nil =>
      rw [runsFrom, List.mem_singleton] at h
      subst h
      exact hlen rfl
  | cons s later ih =>
      have hlonger : 2 ≤ (current ++ [s]).length := by
        have := List.length_pos_iff.mpr hne
        rw [List.length_append, List.length_singleton]
        omega
      have hlater : ∀ t, later.getLast? = some t → t.cut? = none := by
        intro t ht
        refine hlast t ?_
        rw [List.getLast?_cons, ht, Option.getD_some]
      cases hcut : s.cut? with
      | some c =>
          rw [runsFrom_of_cut current later (by simp [hcut])] at h
          rcases List.mem_cons.mp h with rfl | h
          · exact hlonger
          · refine ih (List.cons_ne_nil s []) (fun hnil => ?_) hlater h
            subst hnil
            have := hlast s (by simp)
            rw [hcut] at this
            cases this
      | none =>
          rw [runsFrom_of_no_cut current later hcut] at h
          exact ih (by simp) (fun _ => hlonger) hlater h

end Runs

/-! ## The stops of the walk -/

section Walk

variable {α : Type} [Sub α] [Neg α] [OfNat α 0] [LT α] [LE α] [DecidableLT α] [DecidableLE α]

/-- The stops of the walk over the remaining positions and the remaining cuts. -/
def stopsFrom (tolerance : α) : List (α × Position α) → List (Cut α) → List (Stop α)
  | [], _ => []
  | (arc, p) :: rest, [] => .vertex arc p none :: stopsFrom tolerance rest []
  | (arc, p) :: rest, cut :: later =>
    if cut.arc < arc - tolerance then
      .inserted cut :: stopsFrom tolerance ((arc, p) :: rest) later
    else if magnitude (cut.arc - arc) ≤ tolerance then
      .vertex arc p (some cut) :: stopsFrom tolerance rest later
    else .vertex arc p none :: stopsFrom tolerance rest (cut :: later)
termination_by rest cuts => rest.length + cuts.length

/-- The walk gives the places of the runs of its stops. -/
theorem walk_eq_runsFrom (tolerance : α) (current : List (Stop α))
    (rest : List (α × Position α)) (cuts : List (Cut α)) :
    walk tolerance (current.map Stop.place) rest cuts =
      (runsFrom current (stopsFrom tolerance rest cuts)).map (List.map Stop.place) := by
  fun_induction stopsFrom tolerance rest cuts generalizing current with
  | case1 cuts => simp [walk, runsFrom]
  | case2 arc p rest ih =>
      rw [walk, runsFrom_of_no_cut _ _ rfl, ← ih]
      simp
  | case3 arc p rest cut later hbefore ih =>
      rw [walk, if_pos hbefore, runsFrom_of_cut _ _ rfl, List.map_cons, ← ih]
      simp
  | case4 arc p rest cut later hbefore hat ih =>
      rw [walk, if_neg hbefore, if_pos hat, runsFrom_of_cut _ _ rfl, List.map_cons, ← ih]
      simp
  | case5 arc p rest cut later hbefore hat ih =>
      rw [walk, if_neg hbefore, if_neg hat, runsFrom_of_no_cut _ _ rfl, ← ih]
      simp

/-- The walk passes every position once and in order. -/
theorem filterMap_vertex?_stopsFrom (tolerance : α) (rest : List (α × Position α))
    (cuts : List (Cut α)) : (stopsFrom tolerance rest cuts).filterMap Stop.vertex? = rest := by
  fun_induction stopsFrom tolerance rest cuts with
  | case1 cuts => rfl
  | case2 arc p rest ih => simpa using ih
  | case3 arc p rest cut later hbefore ih =>
      rw [List.filterMap_cons_none (Stop.vertex?_inserted cut), ih]
  | case4 arc p rest cut later hbefore hat ih => simpa using ih
  | case5 arc p rest cut later hbefore hat ih => simpa using ih

theorem stopsFrom_ne_nil {tolerance : α} {v : α × Position α} {rest : List (α × Position α)}
    {cuts : List (Cut α)} : stopsFrom tolerance (v :: rest) cuts ≠ [] := by
  intro h
  have := filterMap_vertex?_stopsFrom tolerance (v :: rest) cuts
  rw [h] at this
  cases this

/-- Without cuts only the positions are passed. -/
theorem stopsFrom_nil (tolerance : α) (rest : List (α × Position α)) :
    stopsFrom tolerance rest [] = rest.map fun v => .vertex v.1 v.2 none := by
  induction rest with
  | nil => simp [stopsFrom]
  | cons v rest ih => rw [stopsFrom, ih, List.map_cons]

end Walk

section Path

variable {α : Type} [Add α] [Sub α] [Mul α] [Neg α] [OfNat α 0] [LT α] [LE α] [DecidableLT α]
  [DecidableLE α] [Root α]

/-- The stops on the way along a path. No cut is made at its first position. -/
def stops (path : Path α) (cuts : List (Cut α)) (tolerance : α) : List (Stop α) :=
  match vertices path with
  | [] => []
  | (arc, start) :: rest => .vertex arc start none :: stopsFrom tolerance rest cuts

theorem stops_of_vertices {path : Path α} {arc : α} {start : Position α}
    {rest : List (α × Position α)} (cuts : List (Cut α)) (tolerance : α)
    (h : vertices path = (arc, start) :: rest) :
    stops path cuts tolerance = .vertex arc start none :: stopsFrom tolerance rest cuts := by
  simp [stops, h]

/-- Without cuts the stops are the positions. -/
theorem stops_of_no_cuts (path : Path α) (tolerance : α) :
    stops path [] tolerance = (vertices path).map fun v => .vertex v.1 v.2 none := by
  cases h : vertices path with
  | nil => simp [stops, h]
  | cons v rest => rw [stops_of_vertices [] tolerance h, stopsFrom_nil, List.map_cons]

theorem head?_stops (path : Path α) (cuts : List (Cut α)) (tolerance : α) :
    (stops path cuts tolerance).head? =
      (vertices path).head?.map fun v => .vertex v.1 v.2 none := by
  cases h : vertices path with
  | nil => simp [stops, h]
  | cons v rest =>
      rw [stops_of_vertices cuts tolerance h, List.head?_cons, List.head?_cons, Option.map_some]

theorem head_stops_uncut {path : Path α} {cuts : List (Cut α)} {tolerance : α} :
    ∀ s ∈ (stops path cuts tolerance).head?, s.cut? = none := by
  intro s hs
  rw [head?_stops] at hs
  obtain ⟨v, -, rfl⟩ := Option.map_eq_some_iff.mp hs
  rfl

/-- The pieces of a path are the places of the runs of its stops. -/
theorem piecesAt_eq_runs {path : Path α} (cuts : List (Cut α)) (tolerance : α)
    (h : vertices path ≠ []) :
    piecesAt path cuts tolerance =
      (runs (stops path cuts tolerance)).map (List.map Stop.place) := by
  obtain ⟨⟨arc, start⟩, rest, hrest⟩ := List.exists_cons_of_ne_nil h
  have hwalk := walk_eq_runsFrom tolerance [.vertex arc start none] rest cuts
  rw [stops_of_vertices cuts tolerance hrest]
  unfold piecesAt
  rw [vertices] at hrest
  rw [hrest]
  exact hwalk

theorem filterMap_vertex?_stops (path : Path α) (cuts : List (Cut α)) (tolerance : α) :
    (stops path cuts tolerance).filterMap Stop.vertex? = vertices path := by
  cases h : vertices path with
  | nil => simp [stops, h]
  | cons v rest =>
      rw [stops_of_vertices cuts tolerance h]
      simp [filterMap_vertex?_stopsFrom]

end Path

end Geospatial.Path
