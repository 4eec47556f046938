import Geospatial.Proofs.Doubles
import Geospatial.Proofs.Path.Passing

/-!
# The order of the points at which a path is cut

Located points are sorted by arc length and thinned. Where their arc lengths compare as numbers do,
sorting them leaves a repetition next to what it repeats, and thinning drops it. So the arc lengths
of the cuts depend only on which points lie on the path, and the cuts do where points located at one
arc length are at one place. Exact arc lengths always compare, and doubles do where they are finite.
One that compares with nothing stays where the order of the points has put it, so that the walk may
or may not get past it.
-/

namespace Geospatial.Path

variable {α : Type}

/-! ## Arc lengths that compare -/

/-- Arc lengths that compare as numbers do. Two that are past the tolerance are equal if neither is
below the other, and none is farther from itself than the tolerance. -/
structure Numbers [Sub α] [LT α] [LE α] (tolerance : α) (arcs : List α) : Prop where
  asymm : ∀ a ∈ arcs, ∀ b ∈ arcs, a < b → ¬b < a
  between : ∀ a ∈ arcs, ∀ b ∈ arcs, ∀ c ∈ arcs, a < c → a < b ∨ b < c
  total : ∀ a ∈ arcs, ∀ b ∈ arcs, ¬a ≤ tolerance → ¬b ≤ tolerance → ¬a < b → ¬b < a → a = b
  still : ∀ a ∈ arcs, a - a ≤ tolerance

theorem numbers_of_exact {tolerance : ℝ} (htol : 0 ≤ tolerance) (arcs : List ℝ) :
    Numbers tolerance arcs where
  asymm _ _ _ _ hab := hab.asymm
  between _ _ b _ _ _ hac := (lt_or_ge _ b).imp_right fun hba => hba.trans_lt hac
  total _ _ _ _ _ _ hab hba := le_antisymm (not_lt.mp hba) (not_lt.mp hab)
  still a _ := by rwa [sub_self]

theorem numbers_of_finite {tolerance : Float} (htol : 0 ≤ tolerance) {arcs : List Float}
    (hfinite : ∀ a ∈ arcs, a.isFinite) : Numbers tolerance arcs where
  asymm a ha b hb := Doubles.lt_asymm (hfinite a ha) (hfinite b hb)
  between a ha b hb c hc := Doubles.lt_between (hfinite a ha) (hfinite b hb) (hfinite c hc)
  total a ha b hb hpast _ := Doubles.eq_of_not_lt (hfinite a ha) (hfinite b hb)
    (Doubles.pos_of_not_le (hfinite a ha) htol hpast)
  still a ha := by rwa [Doubles.sub_self (hfinite a ha)]

section Numbers

variable [Sub α] [LT α] [LE α] {tolerance : α} {arcs arcs' part : List α}

theorem Numbers.mono (h : Numbers tolerance arcs) (hpart : part ⊆ arcs) :
    Numbers tolerance part where
  asymm a ha b hb := h.asymm a (hpart ha) b (hpart hb)
  between a ha b hb c hc := h.between a (hpart ha) b (hpart hb) c (hpart hc)
  total a ha b hb := h.total a (hpart ha) b (hpart hb)
  still a ha := h.still a (hpart ha)

theorem Numbers.sort_ascends [DecidableLT α] (h : Numbers tolerance arcs) :
    (Sorting.sort (fun a b => decide (a < b)) arcs).Pairwise fun a b => ¬b < a := by
  have hranks : Sorting.Ranks fun a b : { a // a ∈ arcs } => decide (a.1 < b.1) :=
    { asymm := fun {a b} hab => by simpa using h.asymm a a.2 b b.2 (of_decide_eq_true hab)
      between := fun {a c} b hac => by
        simpa using h.between a a.2 b b.2 c c.2 (of_decide_eq_true hac) }
  exact (Sorting.sort_ascends_of_ranks hranks).imp fun hba => of_decide_eq_false hba

/-- Rising arc lengths are determined by which they are. -/
theorem Numbers.eq_of_rising (h : Numbers tolerance arcs) (hrising : arcs.Pairwise (· < ·))
    (hrising' : arcs'.Pairwise (· < ·)) (hmem : ∀ a, a ∈ arcs ↔ a ∈ arcs') : arcs = arcs' := by
  have hne : ∀ a ∈ arcs, ∀ b ∈ arcs, a < b → a ≠ b := by
    rintro a ha b hb hab rfl
    exact h.asymm a ha a hb hab hab
  have hnodup : arcs.Nodup := hrising.imp_of_mem fun ha hb => hne _ ha _ hb
  have hnodup' : arcs'.Nodup := hrising'.imp_of_mem fun ha hb =>
    hne _ ((hmem _).mpr ha) _ ((hmem _).mpr hb)
  have hperm := (List.perm_ext_iff_of_nodup hnodup hnodup').mpr hmem
  refine hperm.eq_of_pairwise (fun a b ha hb hab hba => ?_) hrising hrising'
  exact absurd hba (h.asymm a ha b ((hmem b).mpr hb) hab)

end Numbers

/-! ## The arc lengths that are kept -/

section Kept

variable [Sub α] [OfNat α 0] [LE α] [DecidableLE α] {tolerance total : α} {last : Option α} {a : α}

def bare (arc : α) : Cut α := ⟨arc, ⟨0, 0, none⟩⟩

def keptArcs (tolerance total : α) (last : Option α) (arcs : List α) : List α :=
  (thin tolerance total last (arcs.map bare)).map Cut.arc

theorem map_arc_thin (found : List (Cut α)) :
    (thin tolerance total last found).map Cut.arc =
      keptArcs tolerance total last (found.map Cut.arc) := by
  have hbare : thin tolerance total last (found.map fun cut => bare cut.arc) =
      (thin tolerance total last found).map fun cut => bare cut.arc :=
    thin_map (f := fun cut => bare cut.arc) (fun _ => rfl) found
  have harcs : (found.map Cut.arc).map bare = found.map fun cut => bare cut.arc := List.map_map
  rw [keptArcs, harcs, hbare, List.map_map]
  rfl

def Drops (tolerance total : α) (last : Option α) (a : α) : Prop :=
  (a ≤ tolerance ∨ total - tolerance ≤ a) ∨ ∃ arc, last = some arc ∧ a - arc ≤ tolerance

theorem keptArcs_of_drops (rest : List α) (h : Drops tolerance total last a) :
    keptArcs tolerance total last (a :: rest) = keptArcs tolerance total last rest := by
  by_cases hends : a ≤ tolerance ∨ total - tolerance ≤ a
  · simp [keptArcs, thin, bare, hends]
  · obtain ⟨arc, rfl, hnear⟩ := h.resolve_left hends
    simp [keptArcs, thin, bare, hends, hnear]

theorem keptArcs_of_not_drops (rest : List α) (h : ¬Drops tolerance total last a) :
    keptArcs tolerance total last (a :: rest) = a :: keptArcs tolerance total (some a) rest := by
  obtain ⟨hends, hlast⟩ := not_or.mp h
  cases last with
  | none => simp [keptArcs, thin, bare, hends]
  | some arc =>
      have hfar : ¬a - arc ≤ tolerance := fun hnear => hlast ⟨arc, rfl, hnear⟩
      simp [keptArcs, thin, bare, hends, hfar]

/-- Of an arc length that comes twice in a row one is enough. -/
theorem keptArcs_twice (last : Option α) (rest : List α) (h : a - a ≤ tolerance) :
    keptArcs tolerance total last (a :: a :: rest) = keptArcs tolerance total last (a :: rest) := by
  by_cases hdrops : Drops tolerance total last a
  · rw [keptArcs_of_drops _ hdrops]
  · have hagain : Drops tolerance total (some a) a := Or.inr ⟨a, rfl, h⟩
    rw [keptArcs_of_not_drops _ hdrops, keptArcs_of_drops _ hagain, keptArcs_of_not_drops _ hdrops]

theorem keptArcs_cons_congr {rest rest' : List α}
    (h : ∀ last, keptArcs tolerance total last rest = keptArcs tolerance total last rest')
    (last : Option α) (a : α) :
    keptArcs tolerance total last (a :: rest) = keptArcs tolerance total last (a :: rest') := by
  by_cases hdrops : Drops tolerance total last a
  · rw [keptArcs_of_drops _ hdrops, keptArcs_of_drops _ hdrops, h]
  · rw [keptArcs_of_not_drops _ hdrops, keptArcs_of_not_drops _ hdrops, h]

/-- Arc lengths within the tolerance are dropped. -/
theorem keptArcs_filter (tolerance total : α) (last : Option α) (arcs : List α) :
    keptArcs tolerance total last (arcs.filter fun a => ¬a ≤ tolerance) =
      keptArcs tolerance total last arcs := by
  induction arcs generalizing last with
  | nil => rfl
  | cons a rest ih =>
      by_cases hnear : a ≤ tolerance
      · rw [List.filter_cons_of_neg (by simpa using hnear), ih,
          keptArcs_of_drops rest (Or.inl (Or.inl hnear))]
      · rw [List.filter_cons_of_pos (by simpa using hnear)]
        exact keptArcs_cons_congr ih last a

variable [LT α] {arcs arcs' : List α}

/-- Of ascending arc lengths past the tolerance as many are kept without the repetitions. -/
theorem Numbers.exists_rising (h : Numbers tolerance arcs) (total : α)
    (hpast : ∀ a ∈ arcs, ¬a ≤ tolerance) (hascend : arcs.Pairwise fun a b => ¬b < a) :
    ∃ rising : List α, rising.Pairwise (· < ·) ∧ (∀ a, a ∈ rising ↔ a ∈ arcs) ∧
      ∀ last, keptArcs tolerance total last rising = keptArcs tolerance total last arcs := by
  induction arcs with
  | nil => exact ⟨[], List.Pairwise.nil, fun _ => Iff.rfl, fun _ => rfl⟩
  | cons a rest ih =>
      obtain ⟨hfirst, hrest⟩ := List.pairwise_cons.mp hascend
      have hpasta := hpast a List.mem_cons_self
      have hpastrest : ∀ b ∈ rest, ¬b ≤ tolerance := fun b hb => hpast b (List.mem_cons_of_mem a hb)
      obtain ⟨rising, hrising, hmem, hkept⟩ :=
        ih (h.mono (List.subset_cons_self a rest)) hpastrest hrest
      by_cases hagain : a ∈ rest
      · refine ⟨rising, hrising, fun b => ?_, fun last => ?_⟩
        · rw [hmem, List.mem_cons]
          exact ⟨Or.inr, fun hb => hb.elim (fun heq => heq ▸ hagain) id⟩
        · rw [hkept]
          cases rest with
          | nil => cases hagain
          | cons b later =>
              -- the next arc length is not above the repetition, so it is the repetition
              have hnot : ¬a < b := by
                rcases List.mem_cons.mp hagain with rfl | hlater
                · exact fun hlt => h.asymm a List.mem_cons_self a List.mem_cons_self hlt hlt
                · exact (List.pairwise_cons.mp hrest).1 a hlater
              have hab : a = b := h.total a List.mem_cons_self b (by simp) hpasta
                (hpastrest b List.mem_cons_self) hnot (hfirst b List.mem_cons_self)
              rw [← hab]
              exact (keptArcs_twice last later (h.still a List.mem_cons_self)).symm
      · refine ⟨a :: rising, List.pairwise_cons.mpr ⟨fun b hb => ?_, hrising⟩, fun b => ?_,
          fun last => keptArcs_cons_congr hkept last a⟩
        · have hb' := (hmem b).mp hb
          by_contra hnot
          have heq := h.total a List.mem_cons_self b (List.mem_cons_of_mem a hb') hpasta
            (hpastrest b hb') hnot (hfirst b hb')
          exact hagain (heq ▸ hb')
        · rw [List.mem_cons, List.mem_cons, hmem]

/-- Of ascending arc lengths the same are kept whatever their repetitions. -/
theorem Numbers.keptArcs_eq (h : Numbers tolerance arcs) (total : α) (last : Option α)
    (hascend : arcs.Pairwise fun a b => ¬b < a) (hascend' : arcs'.Pairwise fun a b => ¬b < a)
    (hmem : ∀ a, a ∈ arcs ↔ a ∈ arcs') :
    keptArcs tolerance total last arcs = keptArcs tolerance total last arcs' := by
  have h' : Numbers tolerance arcs' := h.mono fun a ha => (hmem a).mpr ha
  have hpast : ∀ (list : List α), ∀ a ∈ list.filter fun a => ¬a ≤ tolerance, ¬a ≤ tolerance :=
    fun list a ha => by simpa using List.of_mem_filter ha
  obtain ⟨rising, hrising, hrisingmem, hkept⟩ :=
    (h.mono (List.filter_subset_self _)).exists_rising total (hpast arcs) (hascend.filter _)
  obtain ⟨rising', hrising', hrisingmem', hkept'⟩ :=
    (h'.mono (List.filter_subset_self _)).exists_rising total (hpast arcs') (hascend'.filter _)
  have hsame : ∀ a, a ∈ rising ↔ a ∈ rising' := fun a => by
    rw [hrisingmem, hrisingmem', List.mem_filter, List.mem_filter, hmem]
  have hsub : rising ⊆ arcs := fun a ha => List.filter_subset_self _ ((hrisingmem a).mp ha)
  rw [← keptArcs_filter, ← hkept, (h.mono hsub).eq_of_rising hrising hrising' hsame, hkept',
    keptArcs_filter]

end Kept

/-! ## The points that lie on a path -/

section Points

variable [Add α] [Sub α] [Mul α] [Div α] [Neg α] [OfNat α 0] [OfNat α 1] [LT α] [LE α]
  [DecidableLT α] [DecidableLE α] [BEq α] [Root α]

variable {path : Path α} {points others : List (Position α)} {tolerance : α}

def OnSegments (path : Path α) (tolerance : α) (p : Position α) : Prop :=
  ∃ start stop, [start, stop] <:+: path ∧ (locate p start stop tolerance).isSome

theorem onSegments_of_locateOnPath {p : Position α} {sum : α} {cut : Cut α}
    (h : locateOnPath p tolerance sum path = some cut) : OnSegments path tolerance p := by
  induction path generalizing sum with
  | nil => cases h
  | cons start rest ih =>
      cases rest with
      | nil => cases h
      | cons stop rest =>
          rw [locateOnPath] at h
          cases hlocate : locate p start stop tolerance with
          | some t =>
              exact ⟨start, stop, ⟨[], rest, rfl⟩, by rw [hlocate, Option.isSome_some]⟩
          | none =>
              simp only [hlocate] at h
              obtain ⟨a, b, hinfix, hsome⟩ := ih h
              exact ⟨a, b, List.infix_cons hinfix, hsome⟩

/-- Points among which the same ones lie on the path, in any order and any number of times. -/
def SameOnPath (path : Path α) (tolerance : α) (points others : List (Position α)) : Prop :=
  ∀ p, OnSegments path tolerance p → (p ∈ points ↔ p ∈ others)

theorem SameOnPath.located_mem (h : SameOnPath path tolerance points others) (cut : Cut α) :
    cut ∈ located path points tolerance ↔ cut ∈ located path others tolerance := by
  rw [mem_located, mem_located]
  refine exists_congr fun p => and_congr_left fun hcut => ?_
  exact h p (onSegments_of_locateOnPath hcut)

/-- The arc lengths of the cuts come from those of the located points. -/
theorem map_arc_cuts (path : Path α) (points : List (Position α)) (tolerance : α) :
    (cuts path points tolerance).map Cut.arc =
      keptArcs tolerance ((lengths path).getLast?.getD 0) none (Sorting.sort
        (fun a b => decide (a < b)) ((located path points tolerance).map Cut.arc)) := by
  rw [Sorting.sort_map, ← map_arc_thin]
  rfl

/-- The same points cut a path at the same arc lengths. -/
theorem SameOnPath.map_arc_cuts_eq (h : SameOnPath path tolerance points others)
    (hnumbers : Numbers tolerance ((located path points tolerance).map Cut.arc)) :
    (cuts path points tolerance).map Cut.arc = (cuts path others tolerance).map Cut.arc := by
  have hmem : ∀ a, a ∈ (located path points tolerance).map Cut.arc ↔
      a ∈ (located path others tolerance).map Cut.arc := fun a => by
    simp only [List.mem_map, h.located_mem]
  have hsorted : ∀ list : List α, ∀ a, a ∈ Sorting.sort (fun a b => decide (a < b)) list ↔
      a ∈ list := fun list a => (Sorting.sort_perm _ list).mem_iff
  have hothers := hnumbers.mono fun a ha => (hmem a).mpr ha
  rw [map_arc_cuts, map_arc_cuts]
  refine Numbers.keptArcs_eq (hnumbers.mono fun a => (hsorted _ a).mp) _ none
    hnumbers.sort_ascends hothers.sort_ascends fun a => ?_
  rw [hsorted, hsorted, hmem]

def PlacesApart (path : Path α) (tolerance : α) (points : List (Position α)) : Prop :=
  ∀ p ∈ points, ∀ q ∈ points, ∀ c d, locateOnPath p tolerance 0 path = some c →
    locateOnPath q tolerance 0 path = some d → c.arc = d.arc → p.x = q.x ∧ p.y = q.y

/-- The same points make the same cuts where no arc length stands for two places. -/
theorem SameOnPath.cuts_eq (h : SameOnPath path tolerance points others)
    (hapart : PlacesApart path tolerance points)
    (harcs : (cuts path points tolerance).map Cut.arc = (cuts path others tolerance).map Cut.arc) :
    cuts path points tolerance = cuts path others tolerance := by
  have hunique : ∀ c ∈ located path points tolerance, ∀ d ∈ located path points tolerance,
      c.arc = d.arc → c = d := by
    intro c hc d hd harc
    obtain ⟨p, hp, hpc⟩ := mem_located.mp hc
    obtain ⟨q, hq, hqd⟩ := mem_located.mp hd
    have hplace := hapart p hp q hq c d hpc hqd harc
    rw [locateOnPath_congr tolerance 0 path hplace, hqd] at hpc
    exact (Option.some.inj hpc).symm
  have hlength : (cuts path points tolerance).length = (cuts path others tolerance).length := by
    simpa using congrArg List.length harcs
  refine List.ext_getElem hlength fun i hi hi' => ?_
  have harc : (cuts path points tolerance)[i].arc = (cuts path others tolerance)[i].arc := by
    have hget := List.getElem_of_eq harcs (by simpa using hi)
    simpa using hget
  exact hunique _ (mem_located_of_mem_cuts (List.getElem_mem hi)) _
    ((h.located_mem _).mpr (mem_located_of_mem_cuts (List.getElem_mem hi'))) harc

/-- For exact numbers the order of the points and their repetitions play no part. -/
theorem splitAt_reordered_exact {path : Path ℝ} {points others : List (Position ℝ)} {tolerance : ℝ}
    (htol : 0 ≤ tolerance) (hsame : SameOnPath path tolerance points others)
    (hapart : PlacesApart path tolerance points) :
    splitAt path points tolerance = splitAt path others tolerance :=
  splitAt_congr_cuts path points tolerance
    (hsame.cuts_eq hapart (hsame.map_arc_cuts_eq (numbers_of_exact htol _)))

end Points

/-! ## Paths of doubles -/

/-- Where the arc lengths of the located points are finite, the arc lengths of the cuts are those of
any points of which the same ones lie on the path. Where moreover points located at one arc length
are at one place, so are the cuts and the pieces. -/
theorem splitAt_reordered (path : Path Float) (points others : List (Position Float))
    (tolerance : Float) (htol : 0 ≤ tolerance) (hsame : SameOnPath path tolerance points others)
    (hfinite : ∀ p ∈ points, ∀ cut, locateOnPath p tolerance 0 path = some cut →
      cut.arc.isFinite) :
    (cuts path points tolerance).map Cut.arc = (cuts path others tolerance).map Cut.arc ∧
      (PlacesApart path tolerance points →
        cuts path points tolerance = cuts path others tolerance ∧
          splitAt path points tolerance = splitAt path others tolerance) := by
  have hnumbers : Numbers tolerance ((located path points tolerance).map Cut.arc) := by
    refine numbers_of_finite htol fun a ha => ?_
    obtain ⟨cut, hcut, rfl⟩ := List.mem_map.mp ha
    obtain ⟨p, hp, hlocated⟩ := mem_located.mp hcut
    exact hfinite p hp cut hlocated
  have harcs := hsame.map_arc_cuts_eq hnumbers
  refine ⟨harcs, fun hapart => ?_⟩
  have hcuts := hsame.cuts_eq hapart harcs
  exact ⟨hcuts, splitAt_congr_cuts path points tolerance hcuts⟩

def turning : Path Float := [⟨0, 0, none⟩, ⟨10, 0, none⟩, ⟨10, 10, none⟩]

def turningPoints : List (Position Float) := [⟨10, 6, none⟩, ⟨3, 0, none⟩]

/-- The same points in the other order, one of them twice, and a point off the path. -/
def turningOthers : List (Position Float) :=
  [⟨3, 0, none⟩, ⟨40, 40, none⟩, ⟨10, 6, none⟩, ⟨3, 0, none⟩]

theorem turning_sameOnPath : SameOnPath turning 1 turningPoints turningOthers := by
  have hoff : ¬OnSegments turning 1 ⟨40, 40, none⟩ := by
    rintro ⟨start, stop, hsegment, hon⟩
    simp only [turning, List.infix_cons_iff, List.cons_prefix_cons, List.nil_prefix, and_true,
      List.infix_nil, List.prefix_nil, reduceCtorEq, and_false, or_false] at hsegment
    rcases hsegment with ⟨rfl, rfl⟩ | ⟨rfl, rfl⟩
    · exact absurd hon (by decide +kernel)
    · exact absurd hon (by decide +kernel)
  have hothers : ∀ p ∈ turningPoints, p ∈ turningOthers := by decide +kernel
  have hpoints : ∀ p ∈ turningOthers, p ∈ turningPoints ∨ p = ⟨40, 40, none⟩ := by decide +kernel
  intro p hp
  refine ⟨hothers p, fun hmem => (hpoints p hmem).resolve_right ?_⟩
  rintro rfl
  exact hoff hp

theorem turning_finite : ∀ p ∈ turningPoints, ∀ cut,
    locateOnPath p 1 0 turning = some cut → cut.arc.isFinite := by
  have hall : ∀ p ∈ turningPoints,
      (locateOnPath p 1 0 turning).all fun cut => cut.arc.isFinite := by decide +kernel
  intro p hp cut hcut
  simpa [hcut] using hall p hp

theorem turning_placesApart : PlacesApart turning 1 turningPoints := by
  have hall : ∀ p ∈ turningPoints, ∀ q ∈ turningPoints,
      (locateOnPath p 1 0 turning).map Cut.arc = (locateOnPath q 1 0 turning).map Cut.arc →
        p.x = q.x ∧ p.y = q.y := by decide +kernel
  intro p hp q hq c d hc hd harc
  refine hall p hp q hq ?_
  rw [hc, hd, Option.map_some, Option.map_some, harc]

/-- Three pieces in either order. -/
theorem splitAt_reordered_of_turning :
    (0 : Float) ≤ 1 ∧ SameOnPath turning 1 turningPoints turningOthers ∧
    (∀ p ∈ turningPoints, ∀ cut, locateOnPath p 1 0 turning = some cut → cut.arc.isFinite) ∧
    PlacesApart turning 1 turningPoints ∧ (splitAt turning turningPoints 1).length = 3 ∧
    splitAt turning turningPoints 1 = splitAt turning turningOthers 1 :=
  ⟨by decide +kernel, turning_sameOnPath, turning_finite, turning_placesApart, by decide +kernel,
    ((splitAt_reordered turning turningPoints turningOthers 1 (by decide +kernel)
      turning_sameOnPath turning_finite).2 turning_placesApart).2⟩

/-- A path so long that its squared lengths overflow. -/
def overlong : Path Float :=
  [⟨0, 0, none⟩, ⟨10, 0, none⟩, ⟨10, 1e200, none⟩, ⟨20, 1e200, none⟩]

def overlongPoints : List (Position Float) := [⟨5, 0, none⟩, ⟨15, 1e200, none⟩]

/-- Beyond the overflow an arc length compares with nothing. Placed before the others it hides the
cut between them. -/
theorem splitAt_depends_on_order :
    (0 : Float) ≤ 0 ∧ (∀ p ∈ overlong ++ overlongPoints, p.x.isFinite ∧ p.y.isFinite) ∧
    overlongPoints.reverse.Perm overlongPoints ∧
    (cuts overlong overlongPoints 0).map Cut.arc ≠
      (cuts overlong overlongPoints.reverse 0).map Cut.arc ∧
    (splitAt overlong overlongPoints 0).length = 2 ∧
    (splitAt overlong overlongPoints.reverse 0).length = 1 := by
  refine ⟨by decide +kernel, by decide +kernel, List.reverse_perm _, ?_, by decide +kernel,
    by decide +kernel⟩
  decide +kernel

end Geospatial.Path
