import Geospatial.Proofs.Path.Stops

/-!
# The walk along a path

While the walk is under way, the cuts to come stand ahead of the last position that was passed, more
than the tolerance apart, and before the end of the path. So a cut within the tolerance of a
position is the only one left there, each cut is made on the segment that it was located on, and
none is left over at the end.
-/

namespace Geospatial.Path

/-- A cut that is between the ends of a segment was located on it. -/
theorem LocatedAt.between {path : Path ℝ} {tolerance : ℝ} {p : Position ℝ} {i : Nat} {cut : Cut ℝ}
    (h : LocatedAt (vertices path) tolerance p i cut) :
    (vertices path).IsChain fun u v => u.1 < cut.arc → cut.arc < v.1 →
      ∃ t, locate p u.2 v.2 tolerance = some t ∧ cut = cutOn p u v t := by
  refine List.isChain_iff_getElem.mpr fun j hj hstart hstop => ?_
  have hseg : IsSegment (vertices path) j (vertices path)[j] (vertices path)[j + 1] :=
    ⟨List.getElem?_eq_getElem _, List.getElem?_eq_getElem hj⟩
  obtain rfl := h.eq_of_between hseg hstart hstop
  obtain ⟨start, stop, t, hseg', hloc, hcut⟩ := h.here
  obtain ⟨rfl, rfl⟩ := hseg'.unique hseg
  exact ⟨t, hloc, hcut⟩

def Sited (cut : Cut ℝ) (u v : ℝ × Position ℝ) : Prop :=
  u.1 < cut.arc → cut.arc < v.1 →
    cut.arc = u.1 + dominantFraction cut.place u.2 v.2 * (v.1 - u.1)

theorem LocatedAt.sited {path : Path ℝ} {tolerance : ℝ} {p : Position ℝ} {i : Nat} {cut : Cut ℝ}
    (h : LocatedAt (vertices path) tolerance p i cut) : (vertices path).IsChain (Sited cut) := by
  refine h.between.imp fun u v hbetween hstart hstop => ?_
  obtain ⟨t, hloc, rfl⟩ := hbetween hstart hstop
  obtain ⟨-, ht⟩ := locate_eq_some_iff.mp hloc
  have hplace : SamePlace (cutOn p u v t).place p := samePlace_cutPosition _ _ _ _
  rw [dominantFraction_congr _ _ hplace, ht]
  rfl

/-! ## The invariant -/

/-- The walk under way: `u` is the last position passed, `rest` and `cuts` are to come. -/
structure Underway (tolerance : ℝ) (u : ℝ × Position ℝ) (rest : List (ℝ × Position ℝ))
    (cuts : List (Cut ℝ)) : Prop where
  follows : (u :: rest).IsChain Follows
  apart : cuts.Pairwise (Apart tolerance)
  ahead : ∀ cut ∈ cuts, u.1 < cut.arc
  inside : ∀ cut ∈ cuts, ∀ v ∈ (u :: rest).getLast?, cut.arc < v.1 - tolerance
  sited : ∀ cut ∈ cuts, (u :: rest).IsChain (Sited cut)

namespace Underway

variable {tolerance : ℝ} {u v : ℝ × Position ℝ} {rest : List (ℝ × Position ℝ)} {cut : Cut ℝ}
  {cuts : List (Cut ℝ)}

/-- No cut is left over at the end. -/
theorem cuts_eq_nil (h : Underway tolerance u [] cuts) (htol : 0 ≤ tolerance) : cuts = [] := by
  rw [List.eq_nil_iff_forall_not_mem]
  intro cut hcut
  have hahead := h.ahead cut hcut
  have hinside := h.inside cut hcut u (by simp)
  linarith

/-- A cut is inserted. -/
theorem insert (h : Underway tolerance u rest (cut :: cuts)) : Underway tolerance u rest cuts where
  follows := h.follows
  apart := (List.pairwise_cons.mp h.apart).2
  ahead c hc := h.ahead c (List.mem_cons_of_mem _ hc)
  inside c hc := h.inside c (List.mem_cons_of_mem _ hc)
  sited c hc := h.sited c (List.mem_cons_of_mem _ hc)

/-- A position is passed that the cuts to come stand ahead of. -/
theorem pass (h : Underway tolerance u (v :: rest) cuts) (hahead : ∀ c ∈ cuts, v.1 < c.arc) :
    Underway tolerance v rest cuts where
  follows := h.follows.tail
  apart := h.apart
  ahead := hahead
  inside c hc w hw := h.inside c hc w (by
    rw [List.getLast?_cons_cons]
    exact hw)
  sited c hc := (h.sited c hc).tail

/-- A position is passed without a cut, the next cut being off it by more than the tolerance. -/
theorem pass_off (h : Underway tolerance u (v :: rest) (cut :: cuts)) (htol : 0 ≤ tolerance)
    (hbefore : ¬cut.arc < v.1 - tolerance) (hat : ¬magnitude (cut.arc - v.1) ≤ tolerance) :
    Underway tolerance v rest (cut :: cuts) := by
  have hcut : v.1 < cut.arc := by
    by_contra hle
    apply hat
    rw [magnitude_eq_abs, abs_of_nonpos (by linarith)]
    linarith
  refine h.pass fun c hc => ?_
  rcases List.mem_cons.mp hc with rfl | hc
  · exact hcut
  · have hgap := (List.pairwise_cons.mp h.apart).1 c hc
    unfold Apart at hgap
    linarith

/-- A position is passed where a cut is made; the cuts after it are beyond the position. -/
theorem pass_at (h : Underway tolerance u (v :: rest) (cut :: cuts))
    (hat : magnitude (cut.arc - v.1) ≤ tolerance) : Underway tolerance v rest cuts := by
  refine h.insert.pass fun c hc => ?_
  rw [magnitude_eq_abs] at hat
  have hgap := (List.pairwise_cons.mp h.apart).1 c hc
  unfold Apart at hgap
  linarith [(abs_le.mp hat).1]

end Underway

/-- The walk under way at the first position of a path. -/
theorem underway_start {path : Path ℝ} (points : List (Position ℝ)) {tolerance : ℝ}
    {u : ℝ × Position ℝ} {rest : List (ℝ × Position ℝ)} (htol : 0 ≤ tolerance)
    (hpath : vertices path = u :: rest) :
    Underway tolerance u rest (cuts path points tolerance) where
  follows := hpath ▸ vertices_isChain path
  apart := cuts_pairwise htol
  ahead cut hcut := by
    have hhead : u ∈ (vertices path).head? := by simp [hpath]
    have hzero := vertices_head? hhead
    linarith [(mem_cuts_bounds htol hcut).1]
  inside cut hcut v hv := by
    have htotal : v.1 = totalLength path := vertices_getLast? (hpath ▸ hv)
    linarith [(mem_cuts_bounds htol hcut).2]
  sited cut hcut := by
    obtain ⟨p, -, i, h⟩ := mem_cuts_located hcut
    exact hpath ▸ h.sited

/-! ## What the walk makes of the cuts -/

/-- Every cut is made once and in order. -/
theorem filterMap_cut?_stopsFrom {tolerance : ℝ} {u : ℝ × Position ℝ}
    {rest : List (ℝ × Position ℝ)} {cuts : List (Cut ℝ)} (h : Underway tolerance u rest cuts)
    (htol : 0 ≤ tolerance) : (stopsFrom tolerance rest cuts).filterMap Stop.cut? = cuts := by
  fun_induction stopsFrom tolerance rest cuts generalizing u with
  | case1 cuts => rw [h.cuts_eq_nil htol]; rfl
  | case2 arc p rest ih =>
      rw [List.filterMap_cons_none (Stop.cut?_vertex arc p none)]
      exact ih (h.pass fun c hc => absurd hc List.not_mem_nil)
  | case3 arc p rest cut later hbefore ih =>
      rw [List.filterMap_cons_some (Stop.cut?_inserted cut), ih h.insert]
  | case4 arc p rest cut later hbefore hat ih =>
      rw [List.filterMap_cons_some (Stop.cut?_vertex arc p (some cut)), ih (h.pass_at hat)]
  | case5 arc p rest cut later hbefore hat ih =>
      rw [List.filterMap_cons_none (Stop.cut?_vertex arc p none)]
      exact ih (h.pass_off htol hbefore hat)

/-- A cut is inserted between two positions only if it is beyond the first of them, and before the
second by more than the tolerance. -/
theorem inserted_between {tolerance : ℝ} {u : ℝ × Position ℝ} {rest : List (ℝ × Position ℝ)}
    {cuts : List (Cut ℝ)} {before after : List (Stop ℝ)} {cut : Cut ℝ}
    (h : Underway tolerance u rest cuts) (htol : 0 ≤ tolerance)
    (hstops : stopsFrom tolerance rest cuts = before ++ .inserted cut :: after) :
    ∃ start stop, IsSegment (u :: rest) (before.filterMap Stop.vertex?).length start stop ∧
      start.1 < cut.arc ∧ cut.arc < stop.1 - tolerance := by
  fun_induction stopsFrom tolerance rest cuts generalizing u before with
  | case1 cuts => simp at hstops
  | case2 arc p rest ih =>
      obtain ⟨before, rfl, hrest⟩ := List.cons_eq_append_iff.mp hstops |>.resolve_left (by simp)
      exact ih (h.pass fun c hc => absurd hc List.not_mem_nil) hrest
  | case3 arc p rest next later hbefore ih =>
      rcases List.cons_eq_append_iff.mp hstops with ⟨rfl, hcut⟩ | ⟨before, rfl, hrest⟩
      · obtain rfl : cut = next := by simpa using (List.cons.inj hcut).1
        exact ⟨u, (arc, p), isSegment_zero.mpr ⟨rfl, rfl⟩, h.ahead _ List.mem_cons_self, hbefore⟩
      · rw [List.filterMap_cons_none (Stop.vertex?_inserted next)]
        exact ih h.insert hrest
  | case4 arc p rest next later hbefore hat ih =>
      obtain ⟨before, rfl, hrest⟩ := List.cons_eq_append_iff.mp hstops |>.resolve_left (by simp)
      exact ih (h.pass_at hat) hrest
  | case5 arc p rest next later hbefore hat ih =>
      obtain ⟨before, rfl, hrest⟩ := List.cons_eq_append_iff.mp hstops |>.resolve_left (by simp)
      exact ih (h.pass_off htol hbefore hat) hrest

/-- A cut is made at a position only within the tolerance of it. -/
theorem cut_near_vertex {tolerance arc : ℝ} {place : Position ℝ} {cut : Cut ℝ}
    {rest : List (ℝ × Position ℝ)} {cuts : List (Cut ℝ)}
    (h : .vertex arc place (some cut) ∈ stopsFrom tolerance rest cuts) :
    |cut.arc - arc| ≤ tolerance := by
  fun_induction stopsFrom tolerance rest cuts with
  | case1 cuts => cases h
  | case2 a p rest ih =>
      rcases List.mem_cons.mp h with h | h
      · cases h
      · exact ih h
  | case3 a p rest next later hbefore ih =>
      rcases List.mem_cons.mp h with h | h
      · cases h
      · exact ih h
  | case4 a p rest next later hbefore hat ih =>
      rcases List.mem_cons.mp h with h | h
      · cases h
        rwa [magnitude_eq_abs] at hat
      · exact ih h
  | case5 a p rest next later hbefore hat ih =>
      rcases List.mem_cons.mp h with h | h
      · cases h
      · exact ih h

/-- No cut is made at the last stop. -/
theorem stopsFrom_last_uncut {tolerance : ℝ} {u : ℝ × Position ℝ} {rest : List (ℝ × Position ℝ)}
    {cuts : List (Cut ℝ)} {s : Stop ℝ} (h : Underway tolerance u rest cuts) (htol : 0 ≤ tolerance)
    (hs : (stopsFrom tolerance rest cuts).getLast? = some s) : s.cut? = none := by
  fun_induction stopsFrom tolerance rest cuts generalizing u with
  | case1 cuts => cases hs
  | case2 arc p rest ih =>
      rw [List.getLast?_cons] at hs
      cases hlast : (stopsFrom tolerance rest []).getLast? with
      | none =>
          rw [hlast] at hs
          cases hs
          rfl
      | some t =>
          rw [hlast] at hs
          cases hs
          exact ih (h.pass fun c hc => absurd hc List.not_mem_nil) hlast
  | case3 arc p rest cut later hbefore ih =>
      refine ih h.insert ?_
      rwa [List.getLast?_cons_of_ne_nil stopsFrom_ne_nil] at hs
  | case4 arc p rest cut later hbefore hat ih =>
      cases rest with
      | nil =>
          -- at the end of the path the cut would have been inserted
          exact absurd (h.inside cut List.mem_cons_self (arc, p) rfl) hbefore
      | cons w rest =>
          refine ih (h.pass_at hat) ?_
          rwa [List.getLast?_cons_of_ne_nil stopsFrom_ne_nil] at hs
  | case5 arc p rest cut later hbefore hat ih =>
      cases rest with
      | nil => exact absurd (h.inside cut List.mem_cons_self (arc, p) rfl) hbefore
      | cons w rest =>
          refine ih (h.pass_off htol hbefore hat) ?_
          rwa [List.getLast?_cons_of_ne_nil stopsFrom_ne_nil] at hs

/-! ## From stop to stop -/

/-- From one stop to the next arc lengths do not fall, and they rise exactly where the places
differ; they always rise from or to an inserted cut. -/
structure Advances (s t : Stop ℝ) : Prop where
  le : s.arc ≤ t.arc
  eq_iff : s.arc = t.arc ↔ SamePlace s.place t.place
  vertices : s.arc = t.arc → s.vertex?.isSome ∧ t.vertex?.isSome

/-- A stop on the segment from `u` to `v`, before its end unless it is the position `u`. -/
structure OnSegment (u v : ℝ × Position ℝ) (s : Stop ℝ) : Prop where
  start_le : u.1 ≤ s.arc
  fraction : s.arc = u.1 + dominantFraction s.place u.2 v.2 * (v.1 - u.1)
  stop : s.vertex? = some u ∨ s.arc < v.1

theorem onSegment_start {u v : ℝ × Position ℝ} (cut : Option (Cut ℝ)) :
    OnSegment u v (.vertex u.1 u.2 cut) where
  start_le := le_rfl
  fraction := by simp [dominantFraction_start]
  stop := Or.inl rfl

theorem OnSegment.advances_stop {u v : ℝ × Position ℝ} {s : Stop ℝ} (h : OnSegment u v s)
    (huv : Follows u v) (cut : Option (Cut ℝ)) : Advances s (.vertex v.1 v.2 cut) := by
  rcases h.stop with hs | hlt
  · cases s with
    | inserted c => cases hs
    | vertex arc place c =>
        obtain rfl : (arc, place) = u := Option.some.inj hs
        exact ⟨huv.le, huv.eq_iff, fun _ => ⟨rfl, rfl⟩⟩
  · refine ⟨hlt.le, ⟨fun heq => absurd heq hlt.ne, fun hplace => ?_⟩, fun heq => absurd heq hlt.ne⟩
    -- a stop at the place of the end would be at its arc length
    have huv' : ¬SamePlace u.2 v.2 := fun hsame =>
      (h.start_le.trans_lt hlt).ne (huv.eq_iff.mpr hsame)
    have hfraction := h.fraction
    rw [dominantFraction_congr _ _ hplace, Stop.place_vertex,
      dominantFraction_stop huv'] at hfraction
    rw [hfraction, Stop.arc_vertex]
    ring

theorem OnSegment.advances_inserted {u v : ℝ × Position ℝ} {s : Stop ℝ} {cut : Cut ℝ}
    (h : OnSegment u v s) (hcut : OnSegment u v (.inserted cut)) (hlt : s.arc < cut.arc) :
    Advances s (.inserted cut) := by
  refine ⟨hlt.le, ⟨fun heq => absurd heq hlt.ne, fun hplace => ?_⟩, fun heq => absurd heq hlt.ne⟩
  rw [h.fraction, dominantFraction_congr _ _ hplace]
  exact hcut.fraction.symm

/-- A relation from stop to stop holds along the walk when it holds between stops on one segment:
from the start and from an inserted cut, to the end and to an inserted cut. -/
structure Carries (On : ℝ × Position ℝ → ℝ × Position ℝ → Stop ℝ → Prop)
    (R : Stop ℝ → Stop ℝ → Prop) : Prop where
  start : ∀ u v cut, On u v (.vertex u.1 u.2 cut)
  stop : ∀ {u v s}, Follows u v → On u v s → ∀ cut, R s (.vertex v.1 v.2 cut)
  inserted : ∀ {u v s cut}, Follows u v → On u v s → On u v (.inserted cut) → s.arc < cut.arc →
    R s (.inserted cut)

def CutOn (On : ℝ × Position ℝ → ℝ × Position ℝ → Stop ℝ → Prop) (tolerance : ℝ) (cut : Cut ℝ)
    (u v : ℝ × Position ℝ) : Prop :=
  u.1 < cut.arc → cut.arc < v.1 - tolerance → On u v (.inserted cut)

theorem advances_carries : Carries OnSegment Advances where
  start _ _ cut := onSegment_start cut
  stop huv hs cut := hs.advances_stop huv cut
  inserted _ hs hcut hlt := hs.advances_inserted hcut hlt

theorem Sited.cutOn {tolerance : ℝ} {cut : Cut ℝ} {u v : ℝ × Position ℝ} (h : Sited cut u v)
    (htol : 0 ≤ tolerance) : CutOn OnSegment tolerance cut u v := by
  intro hlo hhi
  have hstop : cut.arc < v.1 := by linarith
  exact ⟨hlo.le, h hlo hstop, Or.inr hstop⟩

theorem stopsFrom_isChain {On : ℝ × Position ℝ → ℝ × Position ℝ → Stop ℝ → Prop}
    {R : Stop ℝ → Stop ℝ → Prop} (hcarries : Carries On R) {tolerance : ℝ} (htol : 0 ≤ tolerance)
    {u : ℝ × Position ℝ} {rest : List (ℝ × Position ℝ)} {cuts : List (Cut ℝ)} {s : Stop ℝ}
    (h : Underway tolerance u rest cuts)
    (hon : ∀ cut ∈ cuts, (u :: rest).IsChain (CutOn On tolerance cut))
    (hs : ∀ v ∈ rest.head?, On u v s) (hahead : ∀ cut ∈ cuts, s.arc < cut.arc) :
    (s :: stopsFrom tolerance rest cuts).IsChain R := by
  fun_induction stopsFrom tolerance rest cuts generalizing u s with
  | case1 cuts => simp
  | case2 arc p rest ih =>
      have huv := (List.isChain_cons_cons.mp h.follows).1
      refine List.isChain_cons_cons.mpr ⟨hcarries.stop huv (hs (arc, p) rfl) none, ?_⟩
      have hnext := h.pass fun c hc => absurd hc List.not_mem_nil
      exact ih hnext (fun c hc => absurd hc List.not_mem_nil) (fun w _ => hcarries.start _ w none)
        (fun c hc => absurd hc List.not_mem_nil)
  | case3 arc p rest cut later hbefore ih =>
      have huv := (List.isChain_cons_cons.mp h.follows).1
      have hcut := (List.isChain_cons_cons.mp (hon cut List.mem_cons_self)).1
      have hseg : On u (arc, p) (.inserted cut) :=
        hcut (h.ahead cut List.mem_cons_self) hbefore
      have hlt := hahead cut List.mem_cons_self
      refine List.isChain_cons_cons.mpr ⟨hcarries.inserted huv (hs (arc, p) rfl) hseg hlt, ?_⟩
      refine ih h.insert (fun c hc => hon c (List.mem_cons_of_mem _ hc)) (fun w hw => ?_)
        fun c hc => ?_
      · cases hw
        exact hseg
      · have hgap := (List.pairwise_cons.mp h.apart).1 c hc
        unfold Apart at hgap
        rw [Stop.arc_inserted]
        linarith
  | case4 arc p rest cut later hbefore hat ih =>
      have huv := (List.isChain_cons_cons.mp h.follows).1
      refine List.isChain_cons_cons.mpr ⟨hcarries.stop huv (hs (arc, p) rfl) _, ?_⟩
      have hnext := h.pass_at hat
      exact ih hnext (fun c hc => (hon c (List.mem_cons_of_mem _ hc)).tail)
        (fun w _ => hcarries.start _ w _) hnext.ahead
  | case5 arc p rest cut later hbefore hat ih =>
      have huv := (List.isChain_cons_cons.mp h.follows).1
      refine List.isChain_cons_cons.mpr ⟨hcarries.stop huv (hs (arc, p) rfl) none, ?_⟩
      have hnext := h.pass_off htol hbefore hat
      exact ih hnext (fun c hc => (hon c hc).tail) (fun w _ => hcarries.start _ w none) hnext.ahead

/-! ## The stops of a path -/

section Path

variable {path : Path ℝ} (points : List (Position ℝ)) {tolerance : ℝ}

theorem vertices_ne_nil (h : path ≠ []) : vertices path ≠ [] := by
  intro hnil
  apply h
  rw [← map_snd_vertices path, hnil]
  rfl

theorem stops_ne_nil (tolerance : ℝ) (h : path ≠ []) :
    stops path (cuts path points tolerance) tolerance ≠ [] := by
  obtain ⟨u, rest, hrest⟩ := List.exists_cons_of_ne_nil (vertices_ne_nil h)
  rw [stops_of_vertices _ _ hrest]
  exact List.cons_ne_nil _ _

/-- Every cut of a path is made once and in order. -/
theorem filterMap_cut?_stops (htol : 0 ≤ tolerance) (h : path ≠ []) :
    (stops path (cuts path points tolerance) tolerance).filterMap Stop.cut? =
      cuts path points tolerance := by
  obtain ⟨u, rest, hrest⟩ := List.exists_cons_of_ne_nil (vertices_ne_nil h)
  rw [stops_of_vertices _ _ hrest, List.filterMap_cons_none (Stop.cut?_vertex u.1 u.2 none)]
  exact filterMap_cut?_stopsFrom (underway_start points htol hrest) htol

theorem last_stop_uncut (htol : 0 ≤ tolerance) :
    ∀ s ∈ (stops path (cuts path points tolerance) tolerance).getLast?, s.cut? = none := by
  intro s hs
  cases hvertices : vertices path with
  | nil => simp [stops, hvertices] at hs
  | cons u rest =>
      rw [stops_of_vertices _ _ hvertices, List.getLast?_cons] at hs
      cases hlast : (stopsFrom tolerance rest (cuts path points tolerance)).getLast? with
      | none =>
          rw [hlast] at hs
          cases hs
          rfl
      | some t =>
          rw [hlast] at hs
          cases hs
          exact stopsFrom_last_uncut (underway_start points htol hvertices) htol hlast

/-- The last stop is the last position of the path. -/
theorem stops_last (htol : 0 ≤ tolerance) {s : Stop ℝ}
    (hs : (stops path (cuts path points tolerance) tolerance).getLast? = some s) :
    ∃ v, s.vertex? = some v ∧ (vertices path).getLast? = some v := by
  have huncut := last_stop_uncut points htol s hs
  obtain ⟨front, hfront⟩ := List.getLast?_eq_some_iff.mp hs
  have hpositions := filterMap_vertex?_stops path (cuts path points tolerance) tolerance
  cases s with
  | inserted cut => cases huncut
  | vertex arc place cut =>
      refine ⟨(arc, place), rfl, ?_⟩
      rw [← hpositions, hfront]
      simp

/-- A cut is made at a stop within the tolerance of it. -/
theorem cut_near_stop (htol : 0 ≤ tolerance) {s : Stop ℝ} {cut : Cut ℝ}
    (h : s ∈ stops path (cuts path points tolerance) tolerance) (hcut : s.cut? = some cut) :
    |cut.arc - s.arc| ≤ tolerance := by
  cases s with
  | inserted c =>
      cases hcut
      simpa using htol
  | vertex arc place c =>
      obtain rfl : c = some cut := hcut
      cases hvertices : vertices path with
      | nil => simp [stops, hvertices] at h
      | cons u rest =>
          rw [stops_of_vertices _ _ hvertices] at h
          rcases List.mem_cons.mp h with h | h
          · cases h
          · exact cut_near_vertex h

theorem stops_isChain_of {On : ℝ × Position ℝ → ℝ × Position ℝ → Stop ℝ → Prop}
    {R : Stop ℝ → Stop ℝ → Prop} (hcarries : Carries On R) (htol : 0 ≤ tolerance)
    (hon : ∀ cut ∈ cuts path points tolerance,
      (vertices path).IsChain (CutOn On tolerance cut)) :
    (stops path (cuts path points tolerance) tolerance).IsChain R := by
  cases hrest : vertices path with
  | nil => simp [stops, hrest]
  | cons u rest =>
      have hstart := underway_start points htol hrest
      rw [hrest] at hon
      rw [stops_of_vertices _ _ hrest]
      exact stopsFrom_isChain hcarries htol hstart hon (fun v _ => hcarries.start u v none)
        hstart.ahead

theorem stops_isChain (htol : 0 ≤ tolerance) :
    (stops path (cuts path points tolerance) tolerance).IsChain Advances := by
  refine stops_isChain_of points advances_carries htol fun cut hcut => ?_
  cases hrest : vertices path with
  | nil => simp
  | cons u rest =>
      exact ((underway_start points htol hrest).sited cut hcut).imp fun u v h => h.cutOn htol

end Path

end Geospatial.Path
