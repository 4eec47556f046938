import Geospatial.Proofs.Path.Mirror
import Geospatial.Proofs.Path.Pieces
import Geospatial.Proofs.Geometry.Rows

/-!
# Cutting a path from its end

Where it matters along which direction a path is cut: a point that lies on several segments is
located on the first, of cuts within the tolerance of one another the first is kept, and a position
takes the first cut within the tolerance of it. Points are clear on a path when these choices make no
difference: cuts that stand for one another are made at one position. Then the stops from the end are
the stops, and the pieces are the pieces taken from their ends.
-/

namespace Geospatial.Path

def Touches (path : Path ℝ) (points : List (Position ℝ)) (tolerance : ℝ) (cut : Cut ℝ) : Prop :=
  (∃ p ∈ points, LiesAt path tolerance p cut) ∧ OffEnds path tolerance cut

def Near (tolerance : ℝ) (cut : Cut ℝ) (v : ℝ × Position ℝ) : Prop := |cut.arc - v.1| ≤ tolerance

/-- Cuts that stand for one another: they are one, or are made at one position. -/
def Alike (path : Path ℝ) (tolerance : ℝ) (c d : Cut ℝ) : Prop :=
  c = d ∨ ∃ v ∈ vertices path, Near tolerance c v ∧ Near tolerance d v

/-- Points that leave no choice of where to cut a path. -/
structure Clear (path : Path ℝ) (points : List (Position ℝ)) (tolerance : ℝ) : Prop where
  /-- No two neighbours are at one place. -/
  distinct : path.IsChain fun p q => ¬SamePlace p q
  /-- Where a point lies off the ends it is cut alike wherever it lies. -/
  once : ∀ p ∈ points, ∀ c d, LiesAt path tolerance p c → LiesAt path tolerance p d →
    OffEnds path tolerance c → OffEnds path tolerance d ∧ Alike path tolerance c d
  /-- Cuts within the tolerance of one another are alike. -/
  apart : ∀ c d, Touches path points tolerance c → Touches path points tolerance d →
    |c.arc - d.arc| ≤ tolerance → Alike path tolerance c d
  /-- A cut is within the tolerance of one position only. -/
  single : ∀ c, Touches path points tolerance c → ∀ u ∈ vertices path, ∀ v ∈ vertices path,
    Near tolerance c u → Near tolerance c v → u = v
  /-- Cuts within the tolerance of one position are within the tolerance of one another. -/
  close : ∀ c d, Touches path points tolerance c → Touches path points tolerance d →
    ∀ v ∈ vertices path, Near tolerance c v → Near tolerance d v → |c.arc - d.arc| ≤ tolerance

/-- Where a number rises from item to item, items with the same number are one. -/
theorem eq_of_arc_eq {β : Type} {f : β → ℝ} {items : List β} {a b : β}
    (h : items.Pairwise fun s t => f s < f t) (ha : a ∈ items) (hb : b ∈ items) (hab : f a = f b) :
    a = b :=
  List.inj_on_of_nodup_map (List.pairwise_map.mpr (h.imp fun hlt => hlt.ne)) ha hb hab

/-! ## The cuts at clear points -/

section Cuts

variable {path : Path ℝ} {points : List (Position ℝ)} {tolerance : ℝ}

theorem touches_of_mem_cuts {cut : Cut ℝ} (htol : 0 ≤ tolerance)
    (h : cut ∈ cuts path points tolerance) : Touches path points tolerance cut := by
  obtain ⟨p, hp, i, hloc⟩ := mem_cuts_located h
  obtain ⟨start, stop, t, hseg, hat, hcut⟩ := hloc.here
  exact ⟨⟨p, hp, i, start, stop, t, hseg, hat, hcut⟩, mem_cuts_bounds htol h⟩

theorem Clear.near_of_alike (hclear : Clear path points tolerance) {c d : Cut ℝ}
    {v : ℝ × Position ℝ} (h : Alike path tolerance c d) (hc : Touches path points tolerance c)
    (hv : v ∈ vertices path) (hnear : Near tolerance c v) : Near tolerance d v := by
  rcases h with rfl | ⟨u, hu, hcu, hdu⟩
  · exact hnear
  · rwa [hclear.single c hc v hv u hu hnear hcu]

theorem Clear.alike_trans (hclear : Clear path points tolerance) {c d e : Cut ℝ}
    (hcd : Alike path tolerance c d) (hde : Alike path tolerance d e)
    (hd : Touches path points tolerance d) : Alike path tolerance c e := by
  rcases hcd with rfl | ⟨v, hv, hcv, hdv⟩
  · exact hde
  · exact Or.inr ⟨v, hv, hcv, hclear.near_of_alike hde hd hv hdv⟩

/-- A cut is kept that stands for any place of a point off the ends. -/
theorem Clear.kept (hclear : Clear path points tolerance) (htol : 0 ≤ tolerance) {cut : Cut ℝ}
    (h : Touches path points tolerance cut) :
    ∃ kept ∈ cuts path points tolerance, Alike path tolerance cut kept := by
  obtain ⟨⟨p, hp, hlies⟩, hoff⟩ := h
  obtain ⟨first, hfirst⟩ := hlies.located
  have hfirst' := liesAt_of_located hfirst
  obtain ⟨hfoff, halike⟩ := hclear.once p hp cut first hlies hfirst' hoff
  obtain ⟨i, hloc⟩ := locateOnPath_eq_some_iff.mp hfirst
  rcases cuts_cover htol hp hloc with h | h | ⟨kept, hkept, hnear⟩
  · exact absurd h (not_le.mpr hfoff.1)
  · exact absurd h (not_le.mpr hfoff.2)
  · have htouches : Touches path points tolerance first := ⟨⟨p, hp, hfirst'⟩, hfoff⟩
    have hnext := hclear.apart first kept htouches (touches_of_mem_cuts htol hkept) hnear
    exact ⟨kept, hkept, hclear.alike_trans halike hnext htouches⟩

theorem Clear.near_kept (hclear : Clear path points tolerance) (htol : 0 ≤ tolerance)
    {cut : Cut ℝ} {v : ℝ × Position ℝ} (h : Touches path points tolerance cut)
    (hv : v ∈ vertices path) (hnear : Near tolerance cut v) :
    ∃ kept ∈ cuts path points tolerance, Near tolerance kept v := by
  obtain ⟨kept, hkept, halike⟩ := hclear.kept htol h
  exact ⟨kept, hkept, hclear.near_of_alike halike h hv hnear⟩

theorem Clear.kept_unique (hclear : Clear path points tolerance) (htol : 0 ≤ tolerance)
    {c d : Cut ℝ} {v : ℝ × Position ℝ} (hc : c ∈ cuts path points tolerance)
    (hd : d ∈ cuts path points tolerance) (hv : v ∈ vertices path) (hcv : Near tolerance c v)
    (hdv : Near tolerance d v) : c = d := by
  have hsymm : Std.Symm fun c d : Cut ℝ => tolerance < |c.arc - d.arc| :=
    ⟨fun c d h => by rwa [abs_sub_comm]⟩
  have hfar : (cuts path points tolerance).Pairwise fun c d => tolerance < |c.arc - d.arc| := by
    refine (cuts_pairwise htol).imp fun {c d} h => ?_
    rw [abs_sub_comm]
    exact lt_of_lt_of_le h (le_abs_self _)
  by_contra hne
  have hclose := hclear.close c d (touches_of_mem_cuts htol hc) (touches_of_mem_cuts htol hd) v hv
    hcv hdv
  exact absurd hclose (not_le.mpr (hfar.forall hc hd hne))

theorem Clear.cuts_eq_nil_iff (hclear : Clear path points tolerance) (htol : 0 ≤ tolerance) :
    cuts path points tolerance = [] ↔ ∀ cut, ¬Touches path points tolerance cut := by
  rw [List.eq_nil_iff_forall_not_mem]
  constructor
  · intro h cut hcut
    obtain ⟨kept, hkept, -⟩ := hclear.kept htol hcut
    exact h kept hkept
  · intro h cut hcut
    exact h cut (touches_of_mem_cuts htol hcut)

end Cuts

/-! ## Clear from the end -/

section Reverse

variable {path : Path ℝ} {points : List (Position ℝ)} {tolerance : ℝ}

theorem distinct_reverse (h : path.IsChain fun p q => ¬SamePlace p q) :
    path.reverse.IsChain fun p q => ¬SamePlace p q := by
  rw [List.isChain_reverse]
  exact h.imp fun p q hpq hqp => hpq hqp.symm

theorem liesAt_reverse_iff {p : Position ℝ} {cut : Cut ℝ}
    (hpath : path.IsChain fun p q => ¬SamePlace p q) :
    LiesAt path.reverse tolerance p cut ↔
      LiesAt path tolerance p (cut.mirror (totalLength path)) := by
  constructor
  · intro h
    have hback := h.mirror (distinct_reverse hpath)
    rwa [List.reverse_reverse, totalLength_reverse] at hback
  · intro h
    have hback := h.mirror hpath
    rwa [Cut.mirror_mirror] at hback

theorem offEnds_reverse_iff {cut : Cut ℝ} :
    OffEnds path.reverse tolerance cut ↔
      OffEnds path tolerance (cut.mirror (totalLength path)) := by
  rw [OffEnds, OffEnds, totalLength_reverse, Cut.mirror_arc]
  constructor <;> rintro ⟨hstart, hend⟩ <;> constructor <;> linarith

theorem touches_reverse_iff {cut : Cut ℝ} (hpath : path.IsChain fun p q => ¬SamePlace p q) :
    Touches path.reverse points tolerance cut ↔
      Touches path points tolerance (cut.mirror (totalLength path)) := by
  simp only [Touches, liesAt_reverse_iff hpath, offEnds_reverse_iff]

theorem mem_vertices_reverse {v : ℝ × Position ℝ} :
    v ∈ vertices path.reverse ↔ (totalLength path - v.1, v.2) ∈ vertices path := by
  rw [vertices_reverse, List.mem_map]
  constructor
  · rintro ⟨u, hu, rfl⟩
    simpa using hu
  · intro h
    exact ⟨_, List.mem_reverse.mpr h, by simp⟩

theorem near_mirror_iff {total : ℝ} {cut : Cut ℝ} {v : ℝ × Position ℝ} :
    Near tolerance (cut.mirror total) v ↔ Near tolerance cut (total - v.1, v.2) := by
  rw [Near, Near, Cut.mirror_arc, abs_sub_comm cut.arc, sub_right_comm]

theorem alike_reverse {c d : Cut ℝ}
    (h : Alike path tolerance (c.mirror (totalLength path)) (d.mirror (totalLength path))) :
    Alike path.reverse tolerance c d := by
  rcases h with heq | ⟨v, hv, hcv, hdv⟩
  · exact Or.inl ((Cut.mirror_involutive _).injective heq)
  · exact Or.inr ⟨_, mem_vertices_reverse.mpr (by simpa using hv), near_mirror_iff.mp hcv,
      near_mirror_iff.mp hdv⟩

theorem Clear.reverse (hclear : Clear path points tolerance) :
    Clear path.reverse points tolerance := by
  have hdistinct := hclear.distinct
  have hgap : ∀ c d : Cut ℝ, |c.arc - d.arc| =
      |(c.mirror (totalLength path)).arc - (d.mirror (totalLength path)).arc| := by
    intro c d
    rw [Cut.mirror_arc, Cut.mirror_arc, sub_sub_sub_cancel_left, abs_sub_comm]
  have hflip : ∀ {c : Cut ℝ} {v : ℝ × Position ℝ}, Near tolerance c v →
      Near tolerance (c.mirror (totalLength path)) (totalLength path - v.1, v.2) := by
    intro c v h
    rwa [near_mirror_iff, sub_sub_cancel]
  constructor
  case distinct => exact distinct_reverse hdistinct
  case once =>
    intro p hp c d hc hd hoff
    rw [liesAt_reverse_iff hdistinct] at hc hd
    obtain ⟨hdoff, halike⟩ := hclear.once p hp _ _ hc hd (offEnds_reverse_iff.mp hoff)
    exact ⟨offEnds_reverse_iff.mpr hdoff, alike_reverse halike⟩
  case apart =>
    intro c d hc hd hnear
    rw [touches_reverse_iff hdistinct] at hc hd
    rw [hgap] at hnear
    exact alike_reverse (hclear.apart _ _ hc hd hnear)
  case single =>
    intro c hc u hu v hv hcu hcv
    rw [touches_reverse_iff hdistinct] at hc
    rw [mem_vertices_reverse] at hu hv
    have huv := hclear.single _ hc _ hu _ hv (hflip hcu) (hflip hcv)
    rw [Prod.mk.injEq, sub_right_inj] at huv
    exact Prod.ext huv.1 huv.2
  case close =>
    intro c d hc hd v hv hcv hdv
    rw [touches_reverse_iff hdistinct] at hc hd
    rw [mem_vertices_reverse] at hv
    rw [hgap]
    exact hclear.close _ _ hc hd _ hv (hflip hcv) (hflip hdv)

end Reverse

/-! ## The stops at clear points -/

section Stops

variable {path : Path ℝ} {points : List (Position ℝ)} {tolerance : ℝ}

/-- Past a position where a cut is made, the other cuts are off it if they are not within the
tolerance of it. -/
theorem Underway.off_at {u v : ℝ × Position ℝ} {rest : List (ℝ × Position ℝ)} {next : Cut ℝ}
    {later : List (Cut ℝ)} (h : Underway tolerance u (v :: rest) (next :: later))
    (hat : magnitude (next.arc - v.1) ≤ tolerance)
    (halone : ∀ c ∈ next :: later, ∀ d ∈ next :: later, Near tolerance c v → Near tolerance d v →
      c = d) : ∀ c ∈ later, tolerance < c.arc - v.1 := by
  intro c hc
  have hahead : v.1 < c.arc := (h.pass_at hat).ahead c hc
  by_contra hle
  rw [magnitude_eq_abs] at hat
  have hnear : Near tolerance c v := by
    rw [Near, abs_of_pos (by linarith)]
    linarith
  have hsame := halone next List.mem_cons_self c (List.mem_cons_of_mem _ hc) hat hnear
  have hgap := (List.pairwise_cons.mp h.apart).1 c hc
  rw [Apart, hsame, sub_self] at hgap
  linarith [abs_nonneg (next.arc - v.1)]

/-- Past a position where no cut is made all cuts are off it. -/
theorem Underway.off_past {u v : ℝ × Position ℝ} {rest : List (ℝ × Position ℝ)} {next : Cut ℝ}
    {later : List (Cut ℝ)} (h : Underway tolerance u (v :: rest) (next :: later))
    (htol : 0 ≤ tolerance) (hbefore : ¬next.arc < v.1 - tolerance)
    (hat : ¬magnitude (next.arc - v.1) ≤ tolerance) :
    ∀ c ∈ next :: later, tolerance < c.arc - v.1 := by
  have hnext : v.1 < next.arc := (h.pass_off htol hbefore hat).ahead next List.mem_cons_self
  rw [magnitude_eq_abs, abs_of_pos (by linarith), not_le] at hat
  intro c hc
  rcases List.mem_cons.mp hc with rfl | hc
  · exact hat
  · have hgap := (List.pairwise_cons.mp h.apart).1 c hc
    unfold Apart at hgap
    linarith

theorem inserted_off {u : ℝ × Position ℝ} {rest : List (ℝ × Position ℝ)} {found : List (Cut ℝ)}
    {cut : Cut ℝ} (h : Underway tolerance u rest found) (htol : 0 ≤ tolerance)
    (hoff : ∀ c ∈ found, tolerance < c.arc - u.1)
    (halone : ∀ v ∈ rest, ∀ c ∈ found, ∀ d ∈ found, Near tolerance c v → Near tolerance d v → c = d)
    (hcut : .inserted cut ∈ stopsFrom tolerance rest found) :
    ∃ i start stop, IsSegment (u :: rest) i start stop ∧ tolerance < cut.arc - start.1 ∧
      tolerance < stop.1 - cut.arc := by
  -- the cuts to come stay off the last position passed
  fun_induction stopsFrom tolerance rest found generalizing u with
  | case1 cuts => cases hcut
  | case2 arc p rest ih =>
      have hnone : ∀ {P : Cut ℝ → Prop}, ∀ c ∈ ([] : List (Cut ℝ)), P c :=
        fun c hc => absurd hc List.not_mem_nil
      obtain ⟨i, start, stop, hseg, hgaps⟩ := ih (h.pass hnone) hnone (fun v hv => hnone)
        (by simpa using hcut)
      exact ⟨i + 1, start, stop, hseg, hgaps⟩
  | case3 arc p rest next later hbefore ih =>
      rcases List.mem_cons.mp hcut with heq | hcut
      · obtain rfl : cut = next := by simpa using heq
        exact ⟨0, u, (arc, p), isSegment_zero.mpr ⟨rfl, rfl⟩, hoff _ List.mem_cons_self,
          by linarith⟩
      · exact ih h.insert (fun c hc => hoff c (List.mem_cons_of_mem _ hc))
          (fun v hv c hc d hd => halone v hv c (List.mem_cons_of_mem _ hc) d
            (List.mem_cons_of_mem _ hd)) hcut
  | case4 arc p rest next later hbefore hat ih =>
      have hoff' := h.off_at hat (halone (arc, p) List.mem_cons_self)
      obtain ⟨i, start, stop, hseg, hgaps⟩ := ih (h.pass_at hat) hoff'
        (fun v hv c hc d hd => halone v (List.mem_cons_of_mem _ hv) c (List.mem_cons_of_mem _ hc) d
          (List.mem_cons_of_mem _ hd)) (by simpa using hcut)
      exact ⟨i + 1, start, stop, hseg, hgaps⟩
  | case5 arc p rest next later hbefore hat ih =>
      have hoff' := h.off_past htol hbefore hat
      obtain ⟨i, start, stop, hseg, hgaps⟩ := ih (h.pass_off htol hbefore hat) hoff'
        (fun v hv => halone v (List.mem_cons_of_mem _ hv)) (by simpa using hcut)
      exact ⟨i + 1, start, stop, hseg, hgaps⟩

theorem IsSegment.outside {i : Nat} {start stop v : ℝ × Position ℝ}
    (h : IsSegment (vertices path) i start stop) (hv : v ∈ vertices path) :
    v.1 ≤ start.1 ∨ stop.1 ≤ v.1 := by
  obtain ⟨hi, rfl⟩ := List.getElem?_eq_some_iff.mp h.1
  obtain ⟨hnext, rfl⟩ := List.getElem?_eq_some_iff.mp h.2
  obtain ⟨k, hk, rfl⟩ := List.mem_iff_getElem.mp hv
  have hle := List.pairwise_iff_getElem.mp (vertices_pairwise path)
  rcases Nat.lt_trichotomy k i with hki | rfl | hik
  · exact Or.inl (hle k i hk hi hki)
  · exact Or.inl le_rfl
  · rcases Nat.eq_or_lt_of_le (Nat.succ_le_of_lt hik) with rfl | hlt
    · exact Or.inr le_rfl
    · exact Or.inr (hle (i + 1) k hnext hk hlt)

theorem Clear.inserted_off (hclear : Clear path points tolerance) (htol : 0 ≤ tolerance)
    {cut : Cut ℝ} (hcut : .inserted cut ∈ stops path (cuts path points tolerance) tolerance)
    {v : ℝ × Position ℝ} (hv : v ∈ vertices path) : ¬Near tolerance cut v := by
  cases hvertices : vertices path with
  | nil => simp [hvertices] at hv
  | cons u rest =>
      rw [stops_of_vertices _ _ hvertices] at hcut
      have hcut : .inserted cut ∈ stopsFrom tolerance rest (cuts path points tolerance) := by
        simpa using hcut
      have hhead : u ∈ (vertices path).head? := by simp [hvertices]
      have hzero := vertices_head? hhead
      have hoff : ∀ c ∈ cuts path points tolerance, tolerance < c.arc - u.1 := by
        intro c hc
        rw [hzero, sub_zero]
        exact (mem_cuts_bounds htol hc).1
      obtain ⟨i, start, stop, hseg, hstart, hstop⟩ := Path.inserted_off
        (underway_start points htol hvertices) htol hoff (fun w hw c hc d hd =>
          hclear.kept_unique htol hc hd (hvertices ▸ List.mem_cons_of_mem u hw)) hcut
      rw [← hvertices] at hseg
      rw [Near, not_le, lt_abs]
      rcases hseg.outside hv with hle | hle
      · exact Or.inl (by linarith)
      · exact Or.inr (by linarith)

theorem Clear.stops_ascend (hclear : Clear path points tolerance) (htol : 0 ≤ tolerance) :
    (stops path (cuts path points tolerance) tolerance).Pairwise fun s t => s.arc < t.arc := by
  have htrans : IsTrans (Stop ℝ) fun s t => s.arc < t.arc := ⟨fun _ _ _ => lt_trans⟩
  exact (stops_rise points htol hclear.distinct).pairwise

theorem Clear.uncut_iff (hclear : Clear path points tolerance) (htol : 0 ≤ tolerance) {arc : ℝ}
    {place : Position ℝ} :
    .vertex arc place none ∈ stops path (cuts path points tolerance) tolerance ↔
      (arc, place) ∈ vertices path ∧
        ∀ cut, Touches path points tolerance cut → ¬Near tolerance cut (arc, place) := by
  constructor
  · intro hs
    have hvertex : (arc, place) ∈ vertices path := mem_vertices_of_stop hs rfl
    refine ⟨hvertex, fun cut hcut hnear => ?_⟩
    obtain ⟨kept, hkept, hat⟩ := hclear.near_kept htol hcut hvertex hnear
    rcases exists_stop_of_cut htol hkept with hins | ⟨a, p, hstop⟩
    · exact hclear.inserted_off htol hins hvertex hat
    · -- the one position near the cut is where it is made
      have hsame := hclear.single kept (touches_of_mem_cuts htol hkept) _ hvertex _
        (mem_vertices_of_stop hstop rfl) hat (cut_near_stop points htol hstop rfl)
      cases hsame
      cases eq_of_arc_eq (hclear.stops_ascend htol) hs hstop rfl
  · rintro ⟨hvertex, hoff⟩
    obtain ⟨c, hc⟩ := exists_stop_of_vertex (cuts path points tolerance) tolerance hvertex
    cases c with
    | none => exact hc
    | some cut =>
        have htouches := touches_of_mem_cuts htol (mem_cuts_of_stop htol hc rfl)
        exact absurd (cut_near_stop points htol hc rfl) (hoff cut htouches)

theorem Clear.cut_iff (hclear : Clear path points tolerance) (htol : 0 ≤ tolerance) {arc : ℝ}
    {place : Position ℝ} :
    (∃ cut, .vertex arc place (some cut) ∈ stops path (cuts path points tolerance) tolerance) ↔
      (arc, place) ∈ vertices path ∧
        ∃ cut, Touches path points tolerance cut ∧ Near tolerance cut (arc, place) := by
  constructor
  · rintro ⟨cut, hs⟩
    exact ⟨mem_vertices_of_stop hs rfl, cut, touches_of_mem_cuts htol (mem_cuts_of_stop htol hs rfl),
      cut_near_stop points htol hs rfl⟩
  · rintro ⟨hvertex, cut, hcut, hnear⟩
    obtain ⟨c, hc⟩ := exists_stop_of_vertex (cuts path points tolerance) tolerance hvertex
    cases c with
    | none => exact absurd hnear (((hclear.uncut_iff htol).mp hc).2 cut hcut)
    | some kept => exact ⟨kept, hc⟩

theorem Clear.inserted_iff (hclear : Clear path points tolerance) (htol : 0 ≤ tolerance)
    {cut : Cut ℝ} :
    .inserted cut ∈ stops path (cuts path points tolerance) tolerance ↔
      Touches path points tolerance cut ∧ ∀ v ∈ vertices path, ¬Near tolerance cut v := by
  constructor
  · intro hs
    exact ⟨touches_of_mem_cuts htol (mem_cuts_of_stop htol hs rfl),
      fun v hv => hclear.inserted_off htol hs hv⟩
  · rintro ⟨hcut, hoff⟩
    obtain ⟨kept, hkept, halike⟩ := hclear.kept htol hcut
    rcases halike with rfl | ⟨v, hv, hnear, -⟩
    · rcases exists_stop_of_cut htol hkept with hs | ⟨arc, place, hs⟩
      · exact hs
      · exact absurd (cut_near_stop points htol hs rfl) (hoff _ (mem_vertices_of_stop hs rfl))
    · exact absurd hnear (hoff v hv)

/-! Which of the cuts near a position is made there is forgotten. -/

/-- A stop whose cut, if it is made at a position, is at the place of that position. -/
def Stop.settled : Stop ℝ → Stop ℝ
  | .vertex arc place cut => .vertex arc place (cut.map fun _ => ⟨arc, place⟩)
  | .inserted cut => .inserted cut

@[simp] theorem Stop.settled_arc (s : Stop ℝ) : s.settled.arc = s.arc := by
  cases s <;> rfl

@[simp] theorem Stop.settled_place (s : Stop ℝ) : s.settled.place = s.place := by
  cases s <;> rfl

@[simp] theorem Stop.settled_isCut (s : Stop ℝ) : s.settled.cut?.isSome = s.cut?.isSome := by
  cases s with
  | vertex arc place cut => cases cut <;> rfl
  | inserted cut => rfl

theorem Stop.settled_eq_uncut {s : Stop ℝ} {arc : ℝ} {place : Position ℝ} :
    s.settled = .vertex arc place none ↔ s = .vertex arc place none := by
  cases s with
  | vertex a p c => cases c <;> simp [settled]
  | inserted c => simp [settled]

theorem Stop.settled_eq_cut {s : Stop ℝ} {arc : ℝ} {place : Position ℝ} {cut : Cut ℝ} :
    s.settled = .vertex arc place (some cut) ↔
      cut = ⟨arc, place⟩ ∧ ∃ made, s = .vertex arc place (some made) := by
  cases s with
  | vertex a p c =>
      cases c with
      | none => simp [settled]
      | some made =>
          constructor
          · rintro ⟨⟩
            exact ⟨rfl, made, rfl⟩
          · rintro ⟨rfl, other, ⟨⟩⟩
            rfl
  | inserted c => simp [settled]

theorem Stop.settled_eq_inserted {s : Stop ℝ} {cut : Cut ℝ} :
    s.settled = .inserted cut ↔ s = .inserted cut := by
  cases s with
  | vertex a p c => simp [settled]
  | inserted c => simp [settled]

/-- What the stops of a path are where its points are clear: the positions, each with a cut where a
point lies within the tolerance of it, and the cuts off all positions. -/
def IsStop (path : Path ℝ) (points : List (Position ℝ)) (tolerance : ℝ) : Stop ℝ → Prop
  | .vertex arc place none => (arc, place) ∈ vertices path ∧
      ∀ cut, Touches path points tolerance cut → ¬Near tolerance cut (arc, place)
  | .vertex arc place (some made) => made = ⟨arc, place⟩ ∧ (arc, place) ∈ vertices path ∧
      ∃ cut, Touches path points tolerance cut ∧ Near tolerance cut (arc, place)
  | .inserted cut => Touches path points tolerance cut ∧ ∀ v ∈ vertices path, ¬Near tolerance cut v

/-- Where points are clear the stops of a path do not depend on the direction of the walk. -/
theorem Clear.mem_settled_iff (hclear : Clear path points tolerance) (htol : 0 ≤ tolerance)
    {s : Stop ℝ} :
    s ∈ (stops path (cuts path points tolerance) tolerance).map Stop.settled ↔
      IsStop path points tolerance s := by
  rw [List.mem_map]
  cases s with
  | vertex arc place c =>
      cases c with
      | none => simp only [Stop.settled_eq_uncut, exists_eq_right, IsStop, hclear.uncut_iff htol]
      | some made =>
          rw [IsStop, ← hclear.cut_iff htol]
          constructor
          · rintro ⟨t, ht, hsettled⟩
            obtain ⟨hmade, cut, rfl⟩ := Stop.settled_eq_cut.mp hsettled
            exact ⟨hmade, cut, ht⟩
          · rintro ⟨hmade, cut, ht⟩
            exact ⟨_, ht, Stop.settled_eq_cut.mpr ⟨hmade, cut, rfl⟩⟩
  | inserted cut =>
      simp only [Stop.settled_eq_inserted, exists_eq_right, IsStop, hclear.inserted_iff htol]

theorem isStop_reverse_iff (hpath : path.IsChain fun p q => ¬SamePlace p q) {s : Stop ℝ} :
    IsStop path.reverse points tolerance s ↔
      IsStop path points tolerance (s.mirror (totalLength path)) := by
  have hall := (Cut.mirror_involutive (totalLength path)).surjective
  cases s with
  | vertex arc place c =>
      cases c with
      | none =>
          refine and_congr mem_vertices_reverse ?_
          rw [hall.forall]
          simp only [touches_reverse_iff hpath, Cut.mirror_mirror, near_mirror_iff]
      | some made =>
          have hmade : made = ⟨arc, place⟩ ↔
              made.mirror (totalLength path) = ⟨totalLength path - arc, place⟩ := by
            cases made
            simp [Cut.mirror]
          refine and_congr hmade (and_congr mem_vertices_reverse ?_)
          rw [hall.exists]
          simp only [touches_reverse_iff hpath, Cut.mirror_mirror, near_mirror_iff]
  | inserted cut =>
      refine and_congr (touches_reverse_iff hpath) ?_
      simp only [vertices_reverse, List.forall_mem_map, List.mem_reverse, near_mirror_iff]

end Stops

/-! ## Pieces from the end -/

section Pieces

variable {path : Path ℝ} {points : List (Position ℝ)} {tolerance : ℝ}

/-- The stops from the end are the stops. -/
theorem Clear.stops_reverse (hclear : Clear path points tolerance) (htol : 0 ≤ tolerance) :
    (stops path.reverse (cuts path.reverse points tolerance) tolerance).map Stop.settled =
      ((stops path (cuts path points tolerance) tolerance).reverse.map Stop.settled).map
        (Stop.mirror (totalLength path)) := by
  have hirrefl : Std.Irrefl fun s t : Stop ℝ => s.arc < t.arc := ⟨fun s => lt_irrefl s.arc⟩
  have hantisymm : Std.Antisymm fun s t : Stop ℝ => s.arc < t.arc :=
    ⟨fun s t hst hts => absurd hts hst.asymm⟩
  have hfrom : ((stops path.reverse (cuts path.reverse points tolerance) tolerance).map
      Stop.settled).Pairwise fun s t => s.arc < t.arc := by
    rw [List.pairwise_map]
    simpa only [Stop.settled_arc] using hclear.reverse.stops_ascend htol
  refine hfrom.eq_of_mem_iff ?_ fun s => ?_
  · rw [List.pairwise_map, List.pairwise_map, List.pairwise_reverse]
    exact (hclear.stops_ascend htol).imp fun h => by simpa using h
  · rw [hclear.reverse.mem_settled_iff htol, isStop_reverse_iff hclear.distinct,
      ← hclear.mem_settled_iff htol, List.map_reverse, List.map_reverse, List.mem_reverse]
    constructor
    · intro h
      exact List.mem_map.mpr ⟨_, h, Stop.mirror_mirror _ _⟩
    · intro h
      obtain ⟨t, ht, rfl⟩ := List.mem_map.mp h
      rwa [Stop.mirror_mirror]

theorem hasLength_reverse (piece : Path ℝ) : hasLength piece.reverse = hasLength piece := by
  unfold hasLength
  rw [List.length_reverse, totalLength_reverse]

theorem places_runs_map {f : Stop ℝ → Stop ℝ} (hcut : ∀ s, (f s).cut?.isSome = s.cut?.isSome)
    (hplace : ∀ s, (f s).place = s.place) (stops : List (Stop ℝ)) :
    (runs (stops.map f)).map (List.map Stop.place) = (runs stops).map (List.map Stop.place) := by
  rw [runs_map hcut, List.map_map]
  refine List.map_congr_left fun run _ => ?_
  simp [Function.comp_def, hplace]

theorem Clear.piecesAt_reverse (hclear : Clear path points tolerance) (htol : 0 ≤ tolerance)
    (hne : path ≠ []) :
    piecesAt path.reverse (cuts path.reverse points tolerance) tolerance =
      ((piecesAt path (cuts path points tolerance) tolerance).map List.reverse).reverse := by
  have hcut : ∀ s : Stop ℝ, (s.mirror (totalLength path)).cut?.isSome = s.cut?.isSome := by
    intro s
    simp
  rw [piecesAt_eq_runs _ _ (vertices_ne_nil hne),
    piecesAt_eq_runs _ _ (vertices_ne_nil (by simpa using hne)),
    ← places_runs_map Stop.settled_isCut Stop.settled_place, hclear.stops_reverse htol,
    places_runs_map hcut (Stop.mirror_place _), places_runs_map Stop.settled_isCut Stop.settled_place,
    runs_reverse head_stops_uncut (last_stop_uncut points htol)]
  simp [Function.comp_def]

/-- Where points are clear, a path cut from its end has the pieces of the path, each taken from its
end. -/
theorem splitAt_reverse (hclear : Clear path points tolerance) (htol : 0 ≤ tolerance) :
    splitAt path.reverse points tolerance =
      ((splitAt path points tolerance).map List.reverse).reverse := by
  have hnone : cuts path.reverse points tolerance = [] ↔ cuts path points tolerance = [] := by
    rw [hclear.cuts_eq_nil_iff htol, hclear.reverse.cuts_eq_nil_iff htol,
      (Cut.mirror_involutive (totalLength path)).surjective.forall]
    simp only [touches_reverse_iff hclear.distinct, Cut.mirror_mirror]
  by_cases hnil : cuts path points tolerance = []
  · rw [splitAt_of_no_cuts _ _ _ hnil, splitAt_of_no_cuts _ _ _ (hnone.mpr hnil)]
    simp
  · rw [splitAt_of_cuts _ _ _ hnil, splitAt_of_cuts _ _ _ (mt hnone.mp hnil),
      hclear.piecesAt_reverse htol (ne_nil_of_cuts path points tolerance hnil), List.filter_reverse,
      List.filter_map]
    simp only [Function.comp_def, hasLength_reverse]

end Pieces

/-! ## Without tolerance -/

section Exact

variable {path : Path ℝ} {points : List (Position ℝ)}

theorem passesFrom_of_segment {sum t : ℝ} {i : Nat} {p : Position ℝ} {u v : ℝ × Position ℝ}
    (hseg : IsSegment (verticesFrom sum path) i u v) (ht : Along p u.2 v.2 t) :
    PassesFrom sum p (u.1 + t * distance u.2 v.2) path := by
  induction path generalizing sum i with
  | nil => cases hseg.1
  | cons a rest ih =>
      cases rest with
      | nil => cases i <;> cases hseg.2
      | cons b rest =>
          obtain ⟨later, hlater⟩ := verticesFrom_eq_cons (sum + distance a b) b rest
          cases i with
          | zero =>
              rw [verticesFrom_cons_cons, hlater] at hseg
              obtain ⟨rfl, rfl⟩ := isSegment_zero.mp hseg
              exact Or.inl ⟨t, ht, rfl⟩
          | succ i => exact Or.inr (ih hseg)

theorem LiesAt.passes {p : Position ℝ} {cut : Cut ℝ} (h : LiesAt path 0 p cut) :
    PassesFrom 0 p cut.arc path := by
  obtain ⟨i, start, stop, t, hseg, hloc, rfl⟩ := h
  have hpasses := @passesFrom_of_segment path 0 t i p start stop hseg (along_of_locate_zero hloc)
  have hgap : stop.1 - start.1 = distance start.2 stop.2 := by
    rw [hseg.follows, add_sub_cancel_left]
  rwa [← hgap] at hpasses

theorem vertices_rise (hpath : path.IsChain fun p q => ¬SamePlace p q) :
    (vertices path).Pairwise fun u v => u.1 < v.1 := by
  have htrans : IsTrans (ℝ × Position ℝ) fun u v => u.1 < v.1 := ⟨fun _ _ _ => lt_trans⟩
  refine (List.isChain_iff_getElem.mpr fun i hi => ?_).pairwise
  have hseg : IsSegment (vertices path) i (vertices path)[i] (vertices path)[i + 1] :=
    ⟨List.getElem?_eq_getElem _, List.getElem?_eq_getElem hi⟩
  exact lt_of_le_of_ne hseg.follows.le fun h => hseg.distinct hpath (hseg.follows.eq_iff.mp h)

theorem cutPosition_at_vertex {p u v w : Position ℝ} (heven : EvenHeights path) (hu : u ∈ path)
    (hv : v ∈ path) (hw : w ∈ path) : cutPosition p u v 1 = cutPosition p v w 0 := by
  rcases heven with h | h
  · obtain ⟨zu, hzu⟩ := Option.ne_none_iff_exists'.mp (h u hu)
    obtain ⟨zv, hzv⟩ := Option.ne_none_iff_exists'.mp (h v hv)
    obtain ⟨zw, hzw⟩ := Option.ne_none_iff_exists'.mp (h w hw)
    simp [cutPosition, hzu, hzv, hzw]
  · simp [cutPosition, h u hu, h v hv]

/-- Of two segments that meet at a cut, the later one begins where the earlier one ends. -/
theorem cutOn_eq_of_lt {p : Position ℝ} {i j : Nat} {u v u' v' : ℝ × Position ℝ} {t t' : ℝ}
    (hpath : path.IsChain fun p q => ¬SamePlace p q) (heven : EvenHeights path)
    (hseg : IsSegment (vertices path) i u v) (hseg' : IsSegment (vertices path) j u' v')
    (hij : i < j) (hhi : (cutOn p u v t).arc ≤ v.1) (hlo : u'.1 ≤ (cutOn p u' v' t').arc)
    (harc : (cutOn p u v t).arc = (cutOn p u' v' t').arc) : cutOn p u v t = cutOn p u' v' t' := by
  have hbetween := hseg.stop_le_start hseg' hij
  have hrise := vertices_rise hpath
  have hmem := fun {w} (h : w ∈ vertices path) => mem_of_mem_vertices h
  obtain rfl : v = u' := eq_of_arc_eq hrise (List.mem_of_getElem? hseg.2)
    (List.mem_of_getElem? hseg'.1) (by linarith)
  have hu : u.1 ≠ v.1 := fun h => hseg.distinct hpath (hseg.follows.eq_iff.mp h)
  have hv : v.1 ≠ v'.1 := fun h => hseg'.distinct hpath (hseg'.follows.eq_iff.mp h)
  have hstop : (cutOn p u v t).arc = v.1 := by linarith
  have hstart : (cutOn p v v' t').arc = v.1 := by linarith
  have ht : t = 1 := by
    have hmul : (t - 1) * (v.1 - u.1) = 0 := by
      rw [cutOn] at hstop
      linarith
    exact sub_eq_zero.mp ((mul_eq_zero.mp hmul).resolve_right (sub_ne_zero.mpr hu.symm))
  have ht' : t' = 0 := by
    have hmul : t' * (v'.1 - v.1) = 0 := by
      rw [cutOn] at hstart
      linarith
    exact (mul_eq_zero.mp hmul).resolve_right (sub_ne_zero.mpr hv.symm)
  subst ht ht'
  have hplace := @cutPosition_at_vertex path p _ _ _ heven (hmem (List.mem_of_getElem? hseg.1))
    (hmem (List.mem_of_getElem? hseg.2)) (hmem (List.mem_of_getElem? hseg'.2))
  simp only [cutOn] at harc ⊢
  rw [harc, hplace]

/-- What lies at one arc length of a path with even heights is one cut. -/
theorem LiesAt.eq_of_arc {tolerance : ℝ} {p : Position ℝ} {c d : Cut ℝ}
    (hpath : path.IsChain fun p q => ¬SamePlace p q) (heven : EvenHeights path)
    (hc : LiesAt path tolerance p c) (hd : LiesAt path tolerance p d) (harc : c.arc = d.arc) :
    c = d := by
  obtain ⟨i, u, v, t, hseg, hloc, rfl⟩ := hc
  obtain ⟨j, u', v', t', hseg', hloc', rfl⟩ := hd
  obtain ⟨hlo, hhi⟩ := hseg.cutOn_mem hloc
  obtain ⟨hlo', hhi'⟩ := hseg'.cutOn_mem hloc'
  rcases Nat.lt_trichotomy i j with hij | rfl | hij
  · exact cutOn_eq_of_lt hpath heven hseg hseg' hij hhi hlo' harc
  · obtain ⟨rfl, rfl⟩ := hseg.unique hseg'
    rw [hloc] at hloc'
    rw [Option.some.inj hloc']
  · exact (cutOn_eq_of_lt hpath heven hseg' hseg hij hhi' hlo harc.symm).symm

theorem LiesAt.congr {tolerance : ℝ} {p q : Position ℝ} {cut : Cut ℝ} (h : SamePlace p q)
    (hp : LiesAt path tolerance p cut) : LiesAt path tolerance q cut := by
  obtain ⟨i, start, stop, t, hseg, hloc, rfl⟩ := hp
  rw [locate_congr _ _ _ h] at hloc
  refine ⟨i, start, stop, t, hseg, hloc, ?_⟩
  simp only [cutOn, cutPosition_congr start.2 stop.2 t h]

/-- Without tolerance all points are clear on a path that passes none twice. -/
theorem clear_of_simple (hsimple : Simple path) (hpath : path.IsChain fun p q => ¬SamePlace p q)
    (heven : EvenHeights path) (points : List (Position ℝ)) : Clear path points 0 := by
  have hzero : ∀ {a b : ℝ}, |a - b| ≤ 0 → a = b := fun h => sub_eq_zero.mp (abs_nonpos_iff.mp h)
  constructor
  case distinct => exact hpath
  case once =>
    intro p _ c d hc hd hoff
    have harc : c.arc = d.arc := by
      obtain ⟨hstart, hend⟩ := hoff
      rw [sub_zero] at hend
      rcases lt_trichotomy c.arc d.arc with hlt | heq | hlt
      · exact absurd (hsimple p _ _ hc.passes hd.passes hlt).1 hstart.ne'
      · exact heq
      · exact absurd (hsimple p _ _ hd.passes hc.passes hlt).2 hend.ne
    obtain rfl := hc.eq_of_arc hpath heven hd harc
    exact ⟨hoff, Or.inl rfl⟩
  case apart =>
    rintro c d ⟨⟨p, -, hc⟩, -⟩ ⟨⟨q, -, hd⟩, -⟩ hnear
    have harc := hzero hnear
    have hplace : SamePlace q p := hd.passes.samePlace (harc ▸ hc.passes)
    exact Or.inl (hc.eq_of_arc hpath heven (hd.congr hplace) harc)
  case single =>
    intro c _ u hu v hv hcu hcv
    exact eq_of_arc_eq (vertices_rise hpath) hu hv ((hzero hcu).symm.trans (hzero hcv))
  case close =>
    intro c d _ _ v _ hcv hdv
    rw [hzero hcv, hzero hdv, sub_self, abs_zero]

/-- Without tolerance a path that passes no point twice is cut the same from both ends. -/
theorem splitAt_reverse_of_simple (hsimple : Simple path)
    (hpath : path.IsChain fun p q => ¬SamePlace p q) (heven : EvenHeights path)
    (points : List (Position ℝ)) :
    splitAt path.reverse points 0 = ((splitAt path points 0).map List.reverse).reverse :=
  splitAt_reverse (clear_of_simple hsimple hpath heven points) le_rfl

end Exact

end Geospatial.Path
