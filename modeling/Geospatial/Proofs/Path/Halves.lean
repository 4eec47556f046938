import Geospatial.Proofs.Path.Between
import Geospatial.Proofs.Path.Pieces

/-!
# Cutting the halves of a path

Without tolerance all points that a path passes off its ends are cut. A path that passes no point
twice is cut like its halves: where it is cut at one of its positions, its cuts are those of the part
before it, the one there and those of the part after it, and so are its pieces. A cut on the way is
one at a position once its place is made a position of the path.
-/

namespace Geospatial.Path

section Cuts

variable {path front back : Path ℝ} {points : List (Position ℝ)} {x : Position ℝ}

theorem mem_cuts_zero_iff {cut : Cut ℝ} :
    cut ∈ cuts path points 0 ↔
      (∃ p ∈ points, locateOnPath p 0 0 path = some cut) ∧
        0 < cut.arc ∧ cut.arc < totalLength path := by
  rw [mem_cuts_iff le_rfl, OffEnds, sub_zero]
  intro p _ q _ c d hc hd _ _ harc
  exact locateOnPath_eq_of_arc hc hd (sub_eq_zero.mp (abs_nonpos_iff.mp harc))

/-- What a path passes off its ends is located there, unless it passes it twice. -/
theorem Simple.located {p : Position ℝ} {arc : ℝ} (hsimple : Simple path)
    (h : PassesFrom 0 p arc path) (hstart : 0 < arc) (hend : arc < totalLength path) :
    ∃ cut, locateOnPath p 0 0 path = some cut ∧ cut.arc = arc := by
  obtain ⟨cut, hcut⟩ := h.located
  have hpasses := locateOnPath_passes hcut
  refine ⟨cut, hcut, ?_⟩
  rcases lt_trichotomy cut.arc arc with hlt | heq | hlt
  · exact absurd (hsimple p _ _ hpasses h hlt).2 hend.ne
  · exact heq
  · exact absurd (hsimple p _ _ h hpasses hlt).1 hstart.ne'

end Cuts

/-! ## The halves at a position -/

section Halves

variable {front back : Path ℝ} {points : List (Position ℝ)} {x : Position ℝ}

theorem passesFrom_front {p : Position ℝ} {arc : ℝ} (h : PassesFrom 0 p arc (front ++ [x])) :
    PassesFrom 0 p arc (front ++ x :: back) :=
  passesFrom_append.mpr (Or.inl h)

theorem passesFrom_back {p : Position ℝ} {arc : ℝ} (h : PassesFrom 0 p arc (x :: back)) :
    PassesFrom 0 p (totalLength (front ++ [x]) + arc) (front ++ x :: back) := by
  have hback := (@passesFrom_shift (totalLength (front ++ [x])) 0 arc p (x :: back)).mpr h
  rw [add_zero] at hback
  refine passesFrom_append.mpr (Or.inr ?_)
  rwa [zero_add]

theorem locateOnPath_halves (p : Position ℝ) :
    locateOnPath p 0 0 (front ++ x :: back) = (locateOnPath p 0 0 (front ++ [x])).or
      ((locateOnPath p 0 0 (x :: back)).map (Cut.shift (totalLength (front ++ [x])))) := by
  have hback := locateOnPath_shift p 0 (totalLength (front ++ [x])) 0 (x :: back)
  rw [add_zero] at hback
  rw [locateOnPath_append, zero_add, hback]

theorem simple_front (hsimple : Simple (front ++ x :: back)) (hback : 0 < totalLength (x :: back)) :
    Simple (front ++ [x]) := by
  intro p s t hs ht hlt
  have htotal := (hsimple p s t (passesFrom_front hs) (passesFrom_front ht) hlt).2
  have hle := ht.bounds.2
  rw [totalLength_append front back x] at htotal
  linarith

theorem simple_back (hsimple : Simple (front ++ x :: back))
    (hfront : 0 < totalLength (front ++ [x])) : Simple (x :: back) := by
  intro p s t hs ht hlt
  have hzero := (hsimple p _ _ (passesFrom_back hs) (passesFrom_back ht) (by linarith)).1
  have hle := hs.bounds.1
  linarith

theorem passesFrom_start (h : 0 < totalLength (x :: back)) : PassesFrom 0 x 0 (x :: back) := by
  cases back with
  | nil => exact absurd h (lt_irrefl 0)
  | cons y back => exact Or.inl ⟨0, Along.at_start x y, by ring⟩

theorem located_on_half {p : Position ℝ} {cut : Cut ℝ}
    (h : locateOnPath p 0 0 (front ++ x :: back) = some cut) :
    locateOnPath p 0 0 (front ++ [x]) = some cut ∨
      ∃ d, locateOnPath p 0 0 (x :: back) = some d ∧
        cut = d.shift (totalLength (front ++ [x])) := by
  rw [locateOnPath_halves, Option.or_eq_some_iff] at h
  rcases h with h | ⟨-, h⟩
  · exact Or.inl h
  · obtain ⟨d, hd, hshift⟩ := Option.map_eq_some_iff.mp h
    exact Or.inr ⟨d, hd, hshift.symm⟩

/-- What is located off the ends of the back half is not located on the front half. -/
theorem locateOnPath_of_back {p : Position ℝ} {cut : Cut ℝ} (hsimple : Simple (front ++ x :: back))
    (h : locateOnPath p 0 0 (x :: back) = some cut) (hstart : 0 < cut.arc)
    (hend : cut.arc < totalLength (x :: back)) :
    locateOnPath p 0 0 (front ++ x :: back) =
      some (cut.shift (totalLength (front ++ [x]))) := by
  rw [locateOnPath_halves, h]
  cases hlocated : locateOnPath p 0 0 (front ++ [x]) with
  | none => rfl
  | some early =>
      have hpasses := locateOnPath_passes hlocated
      have hle := hpasses.bounds.2
      have hlater : PassesFrom 0 p (totalLength (front ++ [x]) + cut.arc) (front ++ x :: back) :=
        passesFrom_back (locateOnPath_passes h)
      have htotal := (hsimple p _ _ (passesFrom_front hpasses) hlater (by linarith)).2
      rw [totalLength_append front back x] at htotal
      linarith

theorem halves_ascend {cut : Cut ℝ} (harc : cut.arc = totalLength (front ++ [x])) :
    (cuts (front ++ [x]) points 0 ++
      cut :: (cuts (x :: back) points 0).map (Cut.shift (totalLength (front ++ [x])))).Pairwise
        fun c d => c.arc < d.arc := by
  have hearly : (cuts (front ++ [x]) points 0).Pairwise fun c d => c.arc < d.arc :=
    cuts_ascend le_rfl
  have hlate : (cuts (x :: back) points 0).Pairwise fun c d => c.arc < d.arc :=
    cuts_ascend le_rfl
  have hafter : ∀ d ∈ (cuts (x :: back) points 0).map (Cut.shift (totalLength (front ++ [x]))),
      cut.arc < d.arc := by
    intro d hd
    obtain ⟨e, he, rfl⟩ := List.mem_map.mp hd
    have hpos := (mem_cuts_zero_iff.mp he).2.1
    rw [Cut.shift_arc]
    linarith
  refine List.pairwise_append.mpr ⟨hearly, List.pairwise_cons.mpr ⟨hafter, ?_⟩, ?_⟩
  · exact List.pairwise_map.mpr (hlate.imp fun h => by simpa using h)
  · intro c hc d hd
    have hlt : c.arc < cut.arc := harc ▸ (mem_cuts_zero_iff.mp hc).2.2
    rcases List.mem_cons.mp hd with rfl | hd
    · exact hlt
    · exact hlt.trans (hafter d hd)

theorem mem_cuts_of_halves {c : Cut ℝ} (hsimple : Simple (front ++ x :: back))
    (hfront : 0 < totalLength (front ++ [x])) (hback : 0 < totalLength (x :: back))
    (h : c ∈ cuts (front ++ [x]) points 0 ∨
      ∃ d ∈ cuts (x :: back) points 0, d.shift (totalLength (front ++ [x])) = c) :
    c ∈ cuts (front ++ x :: back) points 0 := by
  have htotal := totalLength_append front back x
  rw [mem_cuts_zero_iff]
  rcases h with hc | ⟨d, hd, rfl⟩
  · obtain ⟨⟨p, hp, hloc⟩, hstart, hend⟩ := mem_cuts_zero_iff.mp hc
    refine ⟨⟨p, hp, ?_⟩, hstart, by linarith⟩
    rw [locateOnPath_halves, hloc, Option.some_or]
  · obtain ⟨⟨p, hp, hloc⟩, hstart, hend⟩ := mem_cuts_zero_iff.mp hd
    have harc := d.shift_arc (totalLength (front ++ [x]))
    exact ⟨⟨p, hp, locateOnPath_of_back hsimple hloc hstart hend⟩, by linarith, by linarith⟩

theorem mem_halves_of_cuts {c cut : Cut ℝ} {q : Position ℝ}
    (hcut : locateOnPath q 0 0 (front ++ x :: back) = some cut)
    (harc : cut.arc = totalLength (front ++ [x])) (hc : c ∈ cuts (front ++ x :: back) points 0) :
    c ∈ cuts (front ++ [x]) points 0 ∨ c = cut ∨
      ∃ d ∈ cuts (x :: back) points 0, d.shift (totalLength (front ++ [x])) = c := by
  have htotal := totalLength_append front back x
  obtain ⟨⟨p, hp, hloc⟩, hstart, hend⟩ := mem_cuts_zero_iff.mp hc
  rcases located_on_half hloc with hfirst | ⟨d, hd, rfl⟩
  · rcases lt_or_eq_of_le (locateOnPath_passes hfirst).bounds.2 with hlt | heq
    · exact Or.inl (mem_cuts_zero_iff.mpr ⟨⟨p, hp, hfirst⟩, hstart, by linarith⟩)
    · exact Or.inr (Or.inl (locateOnPath_eq_of_arc hloc hcut (by linarith)))
  · rw [Cut.shift_arc] at hstart hend
    rcases lt_or_eq_of_le (locateOnPath_passes hd).bounds.1 with hlt | heq
    · have hd' := mem_cuts_zero_iff.mpr ⟨⟨p, hp, hd⟩, hlt, by linarith⟩
      exact Or.inr (Or.inr ⟨d, hd', rfl⟩)
    · refine Or.inr (Or.inl (locateOnPath_eq_of_arc hloc hcut ?_))
      rw [Cut.shift_arc, ← heq, harc, add_zero]

/-- A path that is cut at one of its positions is cut there and where its halves are. -/
theorem cuts_append (hsimple : Simple (front ++ x :: back))
    (hfront : 0 < totalLength (front ++ [x])) (hback : 0 < totalLength (x :: back))
    (hx : ∃ p ∈ points, SamePlace p x) :
    ∃ cut, cut.arc = totalLength (front ++ [x]) ∧
      cuts (front ++ x :: back) points 0 = cuts (front ++ [x]) points 0 ++
        cut :: (cuts (x :: back) points 0).map (Cut.shift (totalLength (front ++ [x]))) := by
  have htotal := totalLength_append front back x
  have hpasses : PassesFrom 0 x (totalLength (front ++ [x]) + 0) (front ++ x :: back) :=
    passesFrom_back (passesFrom_start hback)
  obtain ⟨cut, hcut, harc⟩ := hsimple.located hpasses (by linarith) (by linarith)
  rw [add_zero] at harc
  obtain ⟨q, hq, hqx⟩ := hx
  have hqcut := (locateOnPath_congr 0 0 (front ++ x :: back) hqx).trans hcut
  have hmem : cut ∈ cuts (front ++ x :: back) points 0 :=
    mem_cuts_zero_iff.mpr ⟨⟨q, hq, hqcut⟩, by linarith, by linarith⟩
  refine ⟨cut, harc, cuts_eq_of_mem_iff le_rfl (halves_ascend harc) fun c => ?_⟩
  rw [List.mem_append, List.mem_cons, List.mem_map]
  constructor
  · exact mem_halves_of_cuts hqcut harc
  · rintro (hc | rfl | hd)
    · exact mem_cuts_of_halves hsimple hfront hback (Or.inl hc)
    · exact hmem
    · exact mem_cuts_of_halves hsimple hfront hback (Or.inr hd)

end Halves

/-! ## The walk over the halves -/

/-- The walk goes by differences of arc lengths only. -/
theorem walk_shift (tolerance offset : ℝ) (current : Path ℝ) (rest : List (ℝ × Position ℝ))
    (cuts : List (Cut ℝ)) :
    walk tolerance current (rest.map fun v => (offset + v.1, v.2)) (cuts.map (Cut.shift offset)) =
      walk tolerance current rest cuts := by
  fun_induction walk tolerance current rest cuts with
  | case1 current cuts => simp [walk]
  | case2 current arc p rest ih => simpa [walk] using ih
  | case3 current arc p rest cut later hbefore ih =>
      have hbefore' : (cut.shift offset).arc < offset + arc - tolerance := by
        rw [Cut.shift_arc]
        linarith
      rw [List.map_cons, List.map_cons, walk, if_pos hbefore']
      rw [List.map_cons] at ih
      rw [Cut.shift_place, ih]
  | case4 current arc p rest cut later hbefore hat ih =>
      have hbefore' : ¬(cut.shift offset).arc < offset + arc - tolerance := by
        rw [Cut.shift_arc]
        linarith
      have hat' : magnitude ((cut.shift offset).arc - (offset + arc)) ≤ tolerance := by
        rwa [Cut.shift_arc, add_sub_add_left_eq_sub]
      rw [List.map_cons, List.map_cons, walk, if_neg hbefore', if_pos hat', ih]
  | case5 current arc p rest cut later hbefore hat ih =>
      have hbefore' : ¬(cut.shift offset).arc < offset + arc - tolerance := by
        rw [Cut.shift_arc]
        linarith
      have hat' : ¬magnitude ((cut.shift offset).arc - (offset + arc)) ≤ tolerance := by
        rwa [Cut.shift_arc, add_sub_add_left_eq_sub]
      rw [List.map_cons, List.map_cons, walk, if_neg hbefore', if_neg hat', ← ih, List.map_cons]

theorem walk_passes {arc : ℝ} {p : Position ℝ} (current : Path ℝ) (rest : List (ℝ × Position ℝ))
    (cuts : List (Cut ℝ)) (hcuts : ∀ c ∈ cuts.head?, arc < c.arc) :
    walk 0 current ((arc, p) :: rest) cuts = walk 0 (current ++ [p]) rest cuts := by
  cases cuts with
  | nil => rw [walk]
  | cons c later =>
      have hc : arc < c.arc := hcuts c rfl
      have hbefore : ¬c.arc < arc - 0 := by linarith
      have hat : ¬magnitude (c.arc - arc) ≤ 0 := by
        rw [magnitude_eq_abs, abs_of_pos (by linarith)]
        linarith
      rw [walk, if_neg hbefore, if_neg hat]

/-- What a walk has made where it reaches an arc length depends on what is before it only. -/
theorem walk_reaches (arc : ℝ) (current : Path ℝ) (front : List (ℝ × Position ℝ))
    (early : List (Cut ℝ)) (hfront : ∀ v ∈ front, v.1 < arc) (hearly : ∀ c ∈ early, c.arc < arc) :
    ∃ made begun, ∀ v rest late, arc ≤ v.1 → (∀ c ∈ late.head?, arc ≤ c.arc) →
      walk 0 current (front ++ v :: rest) (early ++ late) = made ++ walk 0 begun (v :: rest) late := by
  induction front generalizing current early with
  | nil =>
      induction early generalizing current with
      | nil => exact ⟨[], current, fun v rest late _ _ => rfl⟩
      | cons c early ih =>
          obtain ⟨made, begun, hwalk⟩ := ih [c.place] fun d hd => hearly d (List.mem_cons_of_mem _ hd)
          refine ⟨(current ++ [c.place]) :: made, begun, fun v rest late hv hlate => ?_⟩
          have hc : c.arc < v.1 - 0 := by linarith [hearly c List.mem_cons_self]
          rw [List.nil_append, List.cons_append, walk, if_pos hc, List.cons_append,
            ← hwalk v rest late hv hlate, List.nil_append]
  | cons u front ih =>
      obtain ⟨a, p⟩ := u
      have hfront' : ∀ v ∈ front, v.1 < arc := fun v hv => hfront v (List.mem_cons_of_mem _ hv)
      have ha : a < arc := hfront (a, p) List.mem_cons_self
      induction early generalizing current with
      | nil =>
          obtain ⟨made, begun, hwalk⟩ := ih (current ++ [p]) [] hfront' hearly
          refine ⟨made, begun, fun v rest late hv hlate => ?_⟩
          rw [List.cons_append, List.nil_append,
            walk_passes current _ _ fun c hc => ha.trans_le (hlate c hc)]
          exact hwalk v rest late hv hlate
      | cons c early ihearly =>
          have hearly' : ∀ d ∈ early, d.arc < arc := fun d hd => hearly d (List.mem_cons_of_mem _ hd)
          by_cases hbefore : c.arc < a - 0
          · obtain ⟨made, begun, hwalk⟩ := ihearly [c.place] hearly'
            refine ⟨(current ++ [c.place]) :: made, begun, fun v rest late hv hlate => ?_⟩
            have hrest := hwalk v rest late hv hlate
            rw [List.cons_append] at hrest
            rw [List.cons_append, List.cons_append, walk, if_pos hbefore, hrest, List.cons_append]
          · by_cases hat : magnitude (c.arc - a) ≤ 0
            · obtain ⟨made, begun, hwalk⟩ := ih [p] early hfront' hearly'
              refine ⟨(current ++ [p]) :: made, begun, fun v rest late hv hlate => ?_⟩
              rw [List.cons_append, List.cons_append, walk, if_neg hbefore, if_pos hat,
                hwalk v rest late hv hlate, List.cons_append]
            · obtain ⟨made, begun, hwalk⟩ := ih (current ++ [p]) (c :: early) hfront' hearly
              refine ⟨made, begun, fun v rest late hv hlate => ?_⟩
              rw [List.cons_append, List.cons_append, walk, if_neg hbefore, if_neg hat]
              exact hwalk v rest late hv hlate

theorem walk_cut_at {arc : ℝ} {x : Position ℝ} {cut : Cut ℝ} (current : Path ℝ)
    (rest : List (ℝ × Position ℝ)) (late : List (Cut ℝ)) (hcut : cut.arc = arc) :
    walk 0 current ((arc, x) :: rest) (cut :: late) =
      (current ++ [x]) :: walk 0 [x] rest late := by
  have hbefore : ¬cut.arc < arc - 0 := by simp [hcut]
  have hat : magnitude (cut.arc - arc) ≤ 0 := by simp [hcut, magnitude_eq_abs]
  rw [walk, if_neg hbefore, if_pos hat]

/-- A walk past a position at which it cuts is one up to there and one from there. -/
theorem walk_append {arc : ℝ} {x : Position ℝ} {cut : Cut ℝ} (current : Path ℝ)
    {front : List (ℝ × Position ℝ)} (back : List (ℝ × Position ℝ)) {early : List (Cut ℝ)}
    (late : List (Cut ℝ)) (hcut : cut.arc = arc) (hfront : ∀ v ∈ front, v.1 < arc)
    (hearly : ∀ c ∈ early, c.arc < arc) :
    walk 0 current (front ++ (arc, x) :: back) (early ++ cut :: late) =
      walk 0 current (front ++ [(arc, x)]) early ++ walk 0 [x] back late := by
  obtain ⟨made, begun, hwalk⟩ := walk_reaches arc current front early hfront hearly
  have hwhole := hwalk (arc, x) back (cut :: late) le_rfl fun c hc => by
    cases hc
    exact hcut.ge
  have hfirst := hwalk (arc, x) [] [] le_rfl fun c hc => by cases hc
  rw [List.append_nil] at hfirst
  rw [hwhole, hfirst, walk_cut_at begun back late hcut]
  simp [walk]

/-- A cut on the way is one at a position once its place is made a position. -/
theorem walk_added {v : ℝ × Position ℝ} {cut : Cut ℝ} (current : Path ℝ)
    {front : List (ℝ × Position ℝ)} (rest : List (ℝ × Position ℝ)) {early : List (Cut ℝ)}
    (late : List (Cut ℝ)) (hcut : cut.arc < v.1) (hfront : ∀ u ∈ front, u.1 < cut.arc)
    (hearly : ∀ c ∈ early, c.arc < cut.arc) :
    walk 0 current (front ++ (cut.arc, cut.place) :: v :: rest) (early ++ cut :: late) =
      walk 0 current (front ++ v :: rest) (early ++ cut :: late) := by
  obtain ⟨made, begun, hwalk⟩ := walk_reaches cut.arc current front early hfront hearly
  have hhead : ∀ c ∈ (cut :: late).head?, cut.arc ≤ c.arc := fun c hc => by
    cases hc
    exact le_rfl
  rw [hwalk _ _ _ le_rfl hhead, hwalk _ _ _ hcut.le hhead, walk_cut_at begun _ late rfl]
  rw [walk, if_pos (by linarith)]

/-! ## The pieces of the halves -/

section Pieces

variable {front back : Path ℝ} {points : List (Position ℝ)} {x : Position ℝ}

theorem piecesAt_of_vertices {path : Path ℝ} {v : ℝ × Position ℝ} {rest : List (ℝ × Position ℝ)}
    (found : List (Cut ℝ)) (tolerance : ℝ) (h : vertices path = v :: rest) :
    piecesAt path found tolerance = walk tolerance [v.2] rest found := by
  unfold piecesAt
  rw [vertices] at h
  rw [h]

theorem piecesAt_append {cut : Cut ℝ} {early late : List (Cut ℝ)} (hne : front ≠ [])
    (hcut : cut.arc = totalLength (front ++ [x]))
    (hfront : ∀ v ∈ vertices front, v.1 < totalLength (front ++ [x]))
    (hearly : ∀ c ∈ early, c.arc < totalLength (front ++ [x])) :
    piecesAt (front ++ x :: back)
        (early ++ cut :: late.map (Cut.shift (totalLength (front ++ [x])))) 0 =
      piecesAt (front ++ [x]) early 0 ++ piecesAt (x :: back) late 0 := by
  obtain ⟨start, passed, hpassed⟩ := List.exists_cons_of_ne_nil (vertices_ne_nil hne)
  obtain ⟨ahead, hahead⟩ := verticesFrom_eq_cons 0 x back
  rw [verticesFrom_zero] at hahead
  have hwhole := vertices_append front back x
  have hfirst := vertices_append front [] x
  rw [hpassed, hahead, List.cons_append, List.map_cons, add_zero] at hwhole
  rw [hpassed, List.cons_append] at hfirst
  have hpassed' : ∀ v ∈ passed, v.1 < totalLength (front ++ [x]) :=
    fun v hv => hfront v (hpassed ▸ List.mem_cons_of_mem _ hv)
  rw [piecesAt_of_vertices _ _ hwhole, piecesAt_of_vertices _ _ hfirst,
    piecesAt_of_vertices _ _ hahead, walk_append [start.2] _ _ hcut hpassed' hearly, walk_shift]
  simp [← verticesFrom_zero]

theorem totalLength_front_pos (hne : front ≠ [])
    (hfront : ∀ v ∈ vertices front, v.1 < totalLength (front ++ [x])) :
    0 < totalLength (front ++ [x]) := by
  obtain ⟨start, hstart⟩ := List.exists_mem_of_ne_nil _ (vertices_ne_nil hne)
  exact (vertices_bounds hstart).1.trans_lt (hfront start hstart)

/-- A path that is cut at one of its positions, and passes no other at its arc length before it, has
the pieces of its halves. -/
theorem splitAt_append (hsimple : Simple (front ++ x :: back)) (hne : front ≠ [])
    (hfront : ∀ v ∈ vertices front, v.1 < totalLength (front ++ [x]))
    (hback : 0 < totalLength (x :: back)) (hx : ∃ p ∈ points, SamePlace p x) :
    splitAt (front ++ x :: back) points 0 =
      splitAt (front ++ [x]) points 0 ++ splitAt (x :: back) points 0 := by
  have hpos := totalLength_front_pos hne hfront
  have hlen := List.length_pos_iff.mpr hne
  have htotal := totalLength_append front back x
  obtain ⟨cut, hcut, hcuts⟩ := cuts_append hsimple hpos hback hx
  have hearly : ∀ c ∈ cuts (front ++ [x]) points 0, c.arc < totalLength (front ++ [x]) :=
    fun c hc => (mem_cuts_zero_iff.mp hc).2.2
  have hwhole : hasLength (front ++ x :: back) = true := by
    refine hasLength_iff.mpr ⟨?_, by linarith⟩
    rw [List.length_append, List.length_cons]
    omega
  have hfirst : hasLength (front ++ [x]) = true := by
    refine hasLength_iff.mpr ⟨?_, hpos⟩
    rw [List.length_append, List.length_singleton]
    omega
  have hsecond : hasLength (x :: back) = true := by
    refine hasLength_iff.mpr ⟨?_, hback⟩
    cases back with
    | nil => exact absurd hback (lt_irrefl 0)
    | cons y back => simp
  rw [splitAt_of_hasLength _ _ _ hwhole, splitAt_of_hasLength _ _ _ hfirst,
    splitAt_of_hasLength _ _ _ hsecond, hcuts, piecesAt_append hne hcut hfront hearly,
    List.filter_append]

/-- A path that is cut on the way has the same pieces with the place of the cut added to it. -/
theorem splitAt_added {a b : Position ℝ} {t : ℝ} {cut : Cut ℝ} (h : Between cut.place a b t)
    (hmem : cut ∈ cuts (front ++ a :: b :: back) points 0)
    (harc : cut.arc = totalLength (front ++ [a]) + t * distance a b) :
    splitAt (front ++ a :: cut.place :: b :: back) points 0 =
      splitAt (front ++ a :: b :: back) points 0 := by
  obtain ⟨early, late, hsplit⟩ := List.append_of_mem hmem
  have hascend : (cuts (front ++ a :: b :: back) points 0).Pairwise fun c d => c.arc < d.arc :=
    cuts_ascend le_rfl
  rw [hsplit] at hascend
  have hearly : ∀ c ∈ early, c.arc < cut.arc :=
    fun c hc => (List.pairwise_append.mp hascend).2.2 c hc cut List.mem_cons_self
  obtain ⟨later, hbefore, hadded⟩ := @vertices_added front back _ _ _ _ h
  obtain ⟨start, passed, hpassed⟩ := List.exists_cons_of_ne_nil
    (vertices_ne_nil (List.append_ne_nil_of_right_ne_nil front (List.cons_ne_nil a [])))
  have hfront : ∀ u ∈ passed, u.1 < cut.arc := by
    intro u hu
    have hle := (vertices_bounds (hpassed ▸ List.mem_cons_of_mem start hu)).2
    have hgap := mul_pos h.pos (distance_pos_iff.mpr h.apart)
    linarith
  have hnext : cut.arc < totalLength (front ++ [a]) + distance a b := by
    have hgap := mul_lt_of_lt_one_left (distance_pos_iff.mpr h.apart) h.lt_one
    linarith
  have hpieces : piecesAt (front ++ a :: cut.place :: b :: back) (early ++ cut :: late) 0 =
      piecesAt (front ++ a :: b :: back) (early ++ cut :: late) 0 := by
    rw [hpassed, List.cons_append] at hbefore
    rw [hpassed, List.cons_append, ← harc] at hadded
    rw [piecesAt_of_vertices _ _ hbefore, piecesAt_of_vertices _ _ hadded]
    exact walk_added [start.2] later late hnext hfront hearly
  have hcuts : cuts (front ++ a :: cut.place :: b :: back) points 0 =
      cuts (front ++ a :: b :: back) points 0 := cuts_added h points
  rw [splitAt_of_cuts _ _ _ (List.ne_nil_of_mem hmem),
    splitAt_of_cuts _ _ _ (hcuts ▸ List.ne_nil_of_mem hmem), hcuts, hsplit, hpieces]

theorem walk_no_cuts (tolerance : ℝ) (current : Path ℝ) (rest : List (ℝ × Position ℝ)) :
    walk tolerance current rest [] = [current ++ rest.map Prod.snd] := by
  induction rest generalizing current with
  | nil => simp [walk]
  | cons v rest ih =>
      rw [walk, ih]
      simp

theorem cuts_first_segment {p a b : Position ℝ} {t : ℝ} (rest : Path ℝ) (h : Along p a b t)
    (hpos : 0 < t) (hlt : t < 1) (hapart : ¬SamePlace a b) :
    cuts (a :: b :: rest) [p] 0 = [cutOn p (0, a) (0 + distance a b, b) t] := by
  have hd := distance_pos_iff.mpr hapart
  have hloc := locateOnPath_of_some 0 rest ((locate_zero_iff hapart).mpr h)
  have harc : (cutOn p (0, a) (0 + distance a b, b) t).arc = t * distance a b := by simp [cutOn]
  have hstart : 0 < t * distance a b := mul_pos hpos hd
  have hend : t * distance a b < distance a b := mul_lt_of_lt_one_left hd hlt
  refine cuts_eq_of_mem_iff le_rfl (List.pairwise_singleton _ _) fun c => ?_
  rw [mem_cuts_zero_iff, List.mem_singleton]
  constructor
  · rintro ⟨⟨q, hq, hc⟩, -⟩
    rw [List.mem_singleton.mp hq, hloc] at hc
    exact (Option.some.inj hc).symm
  · rintro rfl
    refine ⟨⟨p, List.mem_singleton_self p, hloc⟩, by linarith, ?_⟩
    rw [totalLength_cons_cons]
    linarith [totalLength_nonneg (b :: rest)]

/-- A point on the way along the first segment cuts a path there, whether or not the path comes back
to it. -/
theorem splitAt_first_segment {p a b : Position ℝ} {t : ℝ} (rest : Path ℝ) (h : Along p a b t)
    (hpos : 0 < t) (hlt : t < 1) (hapart : ¬SamePlace a b) :
    splitAt (a :: b :: rest) [p] 0 =
      [[a, cutPosition p a b t], cutPosition p a b t :: b :: rest] := by
  have hbetween : Between (cutPosition p a b t) a b t := ⟨h.cutPosition, hpos, hlt, hapart, p, rfl⟩
  have hcuts := cuts_first_segment rest h hpos hlt hapart
  have hbefore : (cutOn p (0, a) (0 + distance a b, b) t).arc < 0 + distance a b - 0 := by
    have hend := mul_lt_of_lt_one_left (distance_pos_iff.mpr hapart) hlt
    simpa [cutOn] using hend
  obtain ⟨later, hlater⟩ := verticesFrom_eq_cons (0 + distance a b) b rest
  have hvertices : vertices (a :: b :: rest) = (0, a) :: (0 + distance a b, b) :: later := by
    rw [← verticesFrom_zero, verticesFrom_cons_cons, hlater]
  have hpositions := map_snd_vertices (a :: b :: rest)
  rw [hvertices, List.map_cons, List.map_cons] at hpositions
  have hrest : later.map Prod.snd = rest := (List.cons.inj (List.cons.inj hpositions).2).2
  have hfirst : hasLength [a, cutPosition p a b t] = true :=
    hasLength_iff.mpr ⟨le_rfl, add_pos_of_pos_of_nonneg
      (distance_pos_iff.mpr hbetween.ne_start) (totalLength_nonneg _)⟩
  have hsecond : hasLength (cutPosition p a b t :: b :: rest) = true :=
    hasLength_iff.mpr ⟨by simp, add_pos_of_pos_of_nonneg
      (distance_pos_iff.mpr hbetween.ne_stop) (totalLength_nonneg _)⟩
  rw [splitAt_of_cuts _ _ _ (by simp [hcuts]), hcuts, piecesAt_of_vertices _ _ hvertices, walk,
    if_pos hbefore, walk_no_cuts, List.map_cons, hrest]
  exact List.filter_eq_self.mpr (by simp [cutOn, hfirst, hsecond])

end Pieces

end Geospatial.Path
