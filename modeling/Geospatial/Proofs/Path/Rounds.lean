import Geospatial.Proofs.Path.Halves

/-!
# Cutting in rounds

A point that a path passes off its ends divides it into two halves, and at whatever points the path
is cut together with that one, its pieces are those of the halves. So it makes no difference whether
a path that passes no point twice is cut at all points at once, or at some of them first and its
pieces then at the others.
-/

namespace Geospatial.Path

/-! ## Where a located point divides a path -/

structure AtPosition (path : Path ℝ) (sum : ℝ) (p : Position ℝ) (arc : ℝ) (front : Path ℝ)
    (x : Position ℝ) (back : Path ℝ) : Prop where
  path_eq : path = front ++ x :: back
  place : SamePlace p x
  arc_eq : arc = sum + totalLength (front ++ [x])
  first : ∀ v ∈ verticesFrom sum front, v.1 < arc

structure OnTheWay (path : Path ℝ) (sum : ℝ) (cut : Cut ℝ) (front : Path ℝ) (a b : Position ℝ)
    (back : Path ℝ) (t : ℝ) : Prop where
  path_eq : path = front ++ a :: b :: back
  between : Between cut.place a b t
  arc_eq : cut.arc = sum + totalLength (front ++ [a]) + t * distance a b

section Divide

variable {p a b : Position ℝ} {sum : ℝ} {rest : Path ℝ} {cut : Cut ℝ}

theorem AtPosition.cons {front back : Path ℝ} {x : Position ℝ}
    (h : AtPosition (b :: rest) (sum + distance a b) p cut.arc front x back)
    (harc : sum + distance a b < cut.arc) :
    AtPosition (a :: b :: rest) sum p cut.arc (a :: front) x back := by
  obtain ⟨hpath, hplace, harc', hfirst⟩ := h
  cases front with
  | nil =>
      obtain ⟨rfl, -⟩ := List.cons.inj hpath
      simp [totalLength] at harc'
      linarith
  | cons c front =>
      obtain ⟨rfl, hrest⟩ := List.cons.inj hpath
      refine ⟨by rw [hpath]; rfl, hplace, ?_, fun v hv => ?_⟩
      · simp only [List.cons_append, totalLength_cons_cons] at harc' ⊢
        rw [harc', add_assoc]
      · rw [verticesFrom_cons_cons] at hv
        rcases List.mem_cons.mp hv with rfl | hv
        · have hnonneg := distance_nonneg a b
          linarith
        · exact hfirst v hv

theorem OnTheWay.cons {front back : Path ℝ} {c d : Position ℝ} {t : ℝ}
    (h : OnTheWay (b :: rest) (sum + distance a b) cut front c d back t) :
    OnTheWay (a :: b :: rest) sum cut (a :: front) c d back t := by
  obtain ⟨hpath, hbetween, harc⟩ := h
  refine ⟨by rw [hpath]; rfl, hbetween, ?_⟩
  cases front with
  | nil =>
      obtain ⟨rfl, -⟩ := List.cons.inj hpath
      rw [harc, List.nil_append, List.cons_append, List.nil_append, totalLength_cons_cons, add_assoc sum]
  | cons e front =>
      obtain ⟨rfl, -⟩ := List.cons.inj hpath
      simp only [List.cons_append, totalLength_cons_cons] at harc ⊢
      rw [harc, add_assoc sum]

theorem divides_first {t : ℝ} (sum : ℝ) (rest : Path ℝ) (ht : Along p a b t)
    (hpos : 0 < t * distance a b) (hcut : cut = cutOn p (sum, a) (sum + distance a b, b) t) :
    (∃ front x back, AtPosition (a :: b :: rest) sum p cut.arc front x back) ∨
      ∃ front c d back u, OnTheWay (a :: b :: rest) sum cut front c d back u := by
  have htpos : 0 < t := pos_of_mul_pos_left hpos (distance_nonneg a b)
  have hapart : ¬SamePlace a b := distance_pos_iff.mp (pos_of_mul_pos_right hpos ht.nonneg)
  have harc : cut.arc = sum + t * distance a b := by
    rw [hcut]
    simp [cutOn]
  rcases lt_or_eq_of_le ht.le_one with hlt | rfl
  · refine Or.inr ⟨[], a, b, rest, t, rfl, ⟨?_, htpos, hlt, hapart, p, by rw [hcut]; rfl⟩, ?_⟩
    · rw [hcut]
      exact ht.cutPosition
    · simpa [totalLength] using harc
  · refine Or.inl ⟨[a], b, rest, rfl, ht.place_stop (by rw [one_mul]), ?_, fun v hv => ?_⟩
    · simpa [totalLength] using harc
    · obtain rfl : v = (sum, a) := by simpa using hv
      linarith

/-- A located point divides a path at a position or between two. -/
theorem exists_divides {path : Path ℝ} (h : locateOnPath p 0 sum path = some cut)
    (hstart : sum < cut.arc) :
    (∃ front x back, AtPosition path sum p cut.arc front x back) ∨
      ∃ front c d back u, OnTheWay path sum cut front c d back u := by
  induction path generalizing sum with
  | nil => cases h
  | cons a rest ih =>
      cases rest with
      | nil => cases h
      | cons b rest =>
          cases hloc : locate p a b 0 with
          | some t =>
              rw [locateOnPath_of_some sum rest hloc, Option.some.injEq] at h
              refine divides_first sum rest (along_of_locate_zero hloc) ?_ h.symm
              rw [← h] at hstart
              simpa [cutOn] using hstart
          | none =>
              rw [locateOnPath_of_none sum rest hloc] at h
              have hpasses := locateOnPath_passes h
              -- what is at the end of the first segment would have been located on it
              have hne : sum + distance a b ≠ cut.arc := by
                intro heq
                rw [← heq] at hpasses
                have hp := (Along.at_stop a b).congr hpasses.place_start
                exact locate_zero_eq_none_iff.mp hloc 1 hp
              have hlt := lt_of_le_of_ne hpasses.bounds.1 hne
              rcases ih h hlt with ⟨front, x, back, hat⟩ | ⟨front, c, d, back, u, hway⟩
              · exact Or.inl ⟨a :: front, x, back, hat.cons hlt⟩
              · exact Or.inr ⟨a :: front, c, d, back, u, hway.cons⟩

end Divide

/-! ## Halves -/

/-- A point cuts a path into two parts: at whatever points it is cut together with that one, its
pieces are those of the parts. -/
structure Halves (path : Path ℝ) (p : Position ℝ) (first second : Path ℝ) : Prop where
  simple_first : Simple first
  simple_second : Simple second
  pieces : ∀ points, p ∈ points →
    splitAt path points 0 = splitAt first points 0 ++ splitAt second points 0
  count : ∀ points, p ∈ points →
    (cuts path points 0).length = (cuts first points 0).length + (cuts second points 0).length + 1

theorem halves_at {front back : Path ℝ} {x p : Position ℝ} (hsimple : Simple (front ++ x :: back))
    (hne : front ≠ []) (hfirst : ∀ v ∈ vertices front, v.1 < totalLength (front ++ [x]))
    (hback : 0 < totalLength (x :: back)) (hplace : SamePlace p x) :
    Halves (front ++ x :: back) p (front ++ [x]) (x :: back) where
  simple_first := simple_front hsimple hback
  simple_second := simple_back hsimple (totalLength_front_pos hne hfirst)
  pieces points hp := splitAt_append hsimple hne hfirst hback ⟨p, hp, hplace⟩
  count points hp := by
    obtain ⟨cut, -, hcuts⟩ :=
      cuts_append hsimple (totalLength_front_pos hne hfirst) hback ⟨p, hp, hplace⟩
    rw [hcuts, List.length_append, List.length_cons, List.length_map]
    omega

theorem halves_between {front back : Path ℝ} {a b p : Position ℝ} {t : ℝ} {cut : Cut ℝ}
    (hsimple : Simple (front ++ a :: b :: back)) (hbetween : Between cut.place a b t)
    (harc : cut.arc = totalLength (front ++ [a]) + t * distance a b)
    (h : locateOnPath p 0 0 (front ++ a :: b :: back) = some cut) (hstart : 0 < cut.arc)
    (hend : cut.arc < totalLength (front ++ a :: b :: back)) :
    Halves (front ++ a :: b :: back) p (front ++ [a] ++ [cut.place]) (cut.place :: b :: back) := by
  have hx : totalLength (front ++ [a] ++ [cut.place]) = cut.arc := by
    rw [totalLength_concat, hbetween.along.distance_start, harc]
  have hfirst : ∀ v ∈ vertices (front ++ [a]), v.1 < totalLength (front ++ [a] ++ [cut.place]) := by
    intro v hv
    have hgap := mul_pos hbetween.pos (distance_pos_iff.mpr hbetween.apart)
    linarith [(vertices_bounds hv).2]
  have hback : 0 < totalLength (cut.place :: b :: back) :=
    add_pos_of_pos_of_nonneg (distance_pos_iff.mpr hbetween.ne_stop) (totalLength_nonneg _)
  have hne : front ++ [a] ≠ [] := List.append_ne_nil_of_right_ne_nil front (List.cons_ne_nil a [])
  have hadded := simple_added hbetween hsimple
  rw [List.append_cons] at hadded
  obtain ⟨hsimpleFirst, hsimpleSecond, hpieces, hcount⟩ :=
    halves_at hadded hne hfirst hback (locateOnPath_place h).symm
  refine ⟨hsimpleFirst, hsimpleSecond, fun points hp => ?_, fun points hp => ?_⟩
  · have hmem := mem_cuts_zero_iff.mpr ⟨⟨p, hp, h⟩, hstart, hend⟩
    rw [← splitAt_added hbetween hmem harc, List.append_cons, hpieces points hp]
  · rw [← cuts_added hbetween, List.append_cons, hcount points hp]

/-- What a simple path passes off its ends cuts it into halves. -/
theorem exists_halves {path : Path ℝ} {p : Position ℝ} {cut : Cut ℝ} (hsimple : Simple path)
    (h : locateOnPath p 0 0 path = some cut) (hstart : 0 < cut.arc)
    (hend : cut.arc < totalLength path) : ∃ first second, Halves path p first second := by
  rcases exists_divides h hstart with ⟨front, x, back, hpath, hplace, harc, hfirst⟩ |
    ⟨front, a, b, back, t, hpath, hbetween, harc⟩
  · subst hpath
    rw [zero_add] at harc
    rw [verticesFrom_zero, harc] at hfirst
    rw [totalLength_append] at hend
    have hne : front ≠ [] := by
      rintro rfl
      exact absurd hstart (by simp [harc, totalLength])
    exact ⟨_, _, halves_at hsimple hne hfirst (by linarith) hplace⟩
  · subst hpath
    rw [zero_add] at harc
    exact ⟨_, _, halves_between hsimple hbetween harc h hstart hend⟩

/-! ## Rounds -/

/-- Cutting a path that passes no point twice in two rounds is cutting it at once. -/
theorem splitAt_rounds (path : Path ℝ) (first second both : List (Position ℝ))
    (hsimple : Simple path) (hboth : ∀ p, p ∈ both ↔ p ∈ first ∨ p ∈ second) :
    (splitAt path first 0).flatMap (fun piece => splitAt piece second 0) = splitAt path both 0 := by
  -- a cut of the first round leaves halves with fewer cuts
  induction hcount : (cuts path first 0).length using Nat.strong_induction_on generalizing path with
  | h n ih =>
      subst hcount
      cases hfound : cuts path first 0 with
      | nil =>
          have hcuts : cuts path second 0 = cuts path both 0 := by
            refine cuts_eq_of_mem_iff le_rfl (cuts_ascend le_rfl) fun c => ?_
            have hnone : c ∉ cuts path first 0 := by simp [hfound]
            rw [mem_cuts_zero_iff] at hnone ⊢
            rw [mem_cuts_zero_iff]
            refine and_congr_left fun hbounds => ⟨?_, ?_⟩
            · rintro ⟨p, hp, hc⟩
              exact ⟨p, (hboth p).mpr (Or.inr hp), hc⟩
            · rintro ⟨p, hp, hc⟩
              rcases (hboth p).mp hp with hp | hp
              · exact absurd ⟨⟨p, hp, hc⟩, hbounds⟩ hnone
              · exact ⟨p, hp, hc⟩
          rw [splitAt_of_no_cuts _ _ _ hfound, List.flatMap_singleton]
          exact splitAt_congr_cuts _ _ _ hcuts
      | cons cut later =>
          have hmem : cut ∈ cuts path first 0 := by simp [hfound]
          obtain ⟨⟨p, hp, hloc⟩, hstart, hend⟩ := mem_cuts_zero_iff.mp hmem
          obtain ⟨front, back, h⟩ := exists_halves hsimple hloc hstart hend
          have hcount := h.count first hp
          have hp' : p ∈ both := (hboth p).mpr (Or.inl hp)
          rw [h.pieces first hp, h.pieces both hp', List.flatMap_append,
            ih _ (by omega) front h.simple_first rfl, ih _ (by omega) back h.simple_second rfl]

end Geospatial.Path
