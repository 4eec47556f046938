import Geospatial.Proofs.Cell.Wrapping
import Mathlib.Data.List.Rotate
import Mathlib.Data.List.TakeWhile

/-!
# Outlines in the plane

An outline is unwrapped from its first sample off the poles on. Every such sample has one vertex, at
its latitude and at its longitude up to whole turns. From vertex to vertex the longitude changes by
at most half a turn, and every run of samples at a pole is two vertices on the pole's latitude. Back
at its first sample the longitude has changed by whole turns; unless the outline ends at a pole, it
is closed along one exactly when there are such turns.
-/

namespace Geospatial

open AddCommGroup (ModEq)

/-- A sample that is not at a pole, and the samples at a pole that follow it. -/
structure Leg (α : Type) where
  sample : Sample α
  passed : List (Sample α)
  defined : sample.atPole = false
  polar : ∀ s ∈ passed, s.atPole = true

namespace Leg

variable {α : Type}

def samples (leg : Leg α) : List (Sample α) := leg.sample :: leg.passed

/-- Samples after one that is not at a pole fall into legs. -/
theorem exists_legs (leg : Leg α) (rest : List (Sample α)) :
    ∃ (first : Leg α) (legs : List (Leg α)),
      leg.samples ++ rest = (first :: legs).flatMap samples := by
  induction rest generalizing leg with
  | nil => exact ⟨leg, [], by simp⟩
  | cons s rest ih =>
      cases hs : s.atPole with
      | true =>
          have hpolar : ∀ p ∈ leg.passed ++ [s], p.atPole = true := by
            intro p hp
            rcases List.mem_append.mp hp with hp | hp
            · exact leg.polar p hp
            · rwa [List.mem_singleton.mp hp]
          obtain ⟨first, legs, hsamples⟩ :=
            ih ⟨leg.sample, leg.passed ++ [s], leg.defined, hpolar⟩
          exact ⟨first, legs, by simpa [samples] using hsamples⟩
      | false =>
          obtain ⟨first, legs, hsamples⟩ := ih ⟨s, [], hs, by simp⟩
          refine ⟨leg, first :: legs, ?_⟩
          rw [List.flatMap_cons, ← hsamples]
          rfl

end Leg

theorem rollToDefined_isRotated {α : Type} (samples : List (Sample α)) :
    rollToDefined samples ~r samples := by
  have hroll : rollToDefined samples ~r _ := List.isRotated_append
  rwa [List.takeWhile_append_dropWhile] at hroll

/-- The samples from the first that is not at a pole on, as legs. -/
theorem exists_legs_of_defined {α : Type} {samples : List (Sample α)}
    (h : ∃ s ∈ samples, s.atPole = false) :
    ∃ (first : Leg α) (legs : List (Leg α)),
      rollToDefined samples = (first :: legs).flatMap Leg.samples := by
  have hne : samples.dropWhile (·.atPole) ≠ [] := by
    obtain ⟨s, hs, hdefined⟩ := h
    intro hnil
    rw [List.dropWhile_eq_nil_iff] at hnil
    exact absurd (hnil s hs) (by rw [hdefined]; exact Bool.false_ne_true)
  obtain ⟨head, rest, hdrop⟩ := List.exists_cons_of_ne_nil hne
  have hhead : head.atPole = false := by
    simpa only [hdrop, List.head_cons] using List.head_dropWhile_not (fun s : Sample α => s.atPole) hne
  obtain ⟨first, legs, hlegs⟩ := Leg.exists_legs ⟨head, [], hhead, by simp⟩
    (rest ++ samples.takeWhile (·.atPole))
  refine ⟨first, legs, ?_⟩
  rw [rollToDefined, hdrop, ← hlegs]
  rfl

variable {α : Type} [Field α] [LinearOrder α] [FloorRing α]

/-! ## The way along the legs -/

/-- The vertices on a pole's latitude between two longitudes, where a leg passes a pole. -/
def Leg.alongPole (leg : Leg α) (before after : α) : List (Vertex α) :=
  match leg.passed.getLast? with
  | none => []
  | some s =>
    [⟨before, if 0 < s.lat then 90.0 else -90.0⟩, ⟨after, if 0 < s.lat then 90.0 else -90.0⟩]

/-- The vertices of legs, each with the longitude of its sample, on the way to a longitude after the
last. -/
def trail (after : α) : List (Leg α × α) → List (Vertex α)
  | [] => []
  | (leg, lng) :: rest =>
    ⟨lng, leg.sample.lat⟩ ::
      (leg.alongPole lng ((rest.map Prod.snd).headD after) ++ trail after rest)

def unwrapped (lng given : α) : List (Leg α) → List α
  | [] => []
  | leg :: rest =>
    let next := lng + wrapDegrees (leg.sample.lng - given)
    next :: unwrapped next leg.sample.lng rest

theorem length_unwrapped (lng given : α) (legs : List (Leg α)) :
    (unwrapped lng given legs).length = legs.length := by
  induction legs generalizing lng given with
  | nil => rfl
  | cons leg rest ih => simp [unwrapped, ih]

theorem unwrapped_modEq {lng given : α} (h : lng ≡ given [PMOD (360 : α)]) (legs : List (Leg α)) :
    List.Forall₂ (fun leg l => l ≡ leg.sample.lng [PMOD (360 : α)]) legs
      (unwrapped lng given legs) := by
  induction legs generalizing lng given with
  | nil => exact .nil
  | cons leg rest ih =>
      have hnext : lng + wrapDegrees (leg.sample.lng - given) ≡ leg.sample.lng [PMOD (360 : α)] := by
        simpa using h.add (wrapDegrees_modEq (leg.sample.lng - given))
      exact .cons hnext (ih hnext)

namespace Trace

theorem extend_of_polar (t : Trace α) {s : Sample α} (h : s.atPole = true) :
    t.extend s = { t with pole := some (poleLatitude s.lat) } := by
  rw [extend, if_pos h]

theorem extend_of_defined (t : Trace α) {s : Sample α} (h : s.atPole = false) :
    t.extend s = ⟨t.lng + wrapDegrees (s.lng - t.given), s.lng, none,
      t.vertices ++ alongPole t.pole t.lng (t.lng + wrapDegrees (s.lng - t.given)) ++
        [⟨t.lng + wrapDegrees (s.lng - t.given), s.lat⟩]⟩ := by
  rw [extend, if_neg (by rw [h]; exact Bool.false_ne_true)]

def markOf (leg : Leg α) : Option α := leg.passed.getLast?.map fun s => poleLatitude s.lat

omit [FloorRing α] in
theorem alongPole_markOf (leg : Leg α) (before after : α) :
    alongPole (markOf leg) before after = leg.alongPole before after := by
  unfold markOf Leg.alongPole
  cases leg.passed.getLast? with
  | none => rfl
  | some s => rfl

theorem foldl_polar (t : Trace α) {run : List (Sample α)} (h : ∀ s ∈ run, s.atPole = true) :
    run.foldl extend t =
      { t with pole := (run.getLast?.map fun s => poleLatitude s.lat).or t.pole } := by
  induction run generalizing t with
  | nil => simp
  | cons s rest ih =>
      obtain ⟨hs, hrest⟩ := List.forall_mem_cons.mp h
      rw [List.foldl_cons, extend_of_polar t hs, ih _ hrest, List.getLast?_cons]
      cases rest.getLast? <;> rfl

def along (t : Trace α) (leg : Leg α) (legs : List (Leg α)) : Trace α :=
  (leg.passed ++ legs.flatMap Leg.samples).foldl extend t

def afterLeg (t : Trace α) (leg : Leg α) (s : Sample α) : Trace α :=
  let next := t.lng + wrapDegrees (s.lng - t.given)
  ⟨next, s.lng, none, t.vertices ++ leg.alongPole t.lng next ++ [⟨next, s.lat⟩]⟩

variable {t : Trace α} {leg : Leg α}

theorem along_nil (h : t.pole = none) : t.along leg [] = { t with pole := markOf leg } := by
  simp only [along, List.flatMap_nil, List.append_nil, foldl_polar t leg.polar, h, Option.or_none]
  rfl

theorem along_cons (h : t.pole = none) (next : Leg α) (rest : List (Leg α)) :
    t.along leg (next :: rest) = (t.afterLeg leg next.sample).along next rest := by
  have hpassed : leg.passed.foldl extend t = { t with pole := markOf leg } := by
    rw [foldl_polar t leg.polar, h, Option.or_none]
    rfl
  unfold along
  rw [List.foldl_append, hpassed, List.flatMap_cons, Leg.samples, List.cons_append,
    List.foldl_cons, extend_of_defined _ next.defined, alongPole_markOf]
  rfl

theorem lng_along (h : t.pole = none) (legs : List (Leg α)) :
    (t.along leg legs).lng = (unwrapped t.lng t.given legs).getLastD t.lng := by
  induction legs generalizing t leg with
  | nil => rw [along_nil h]; rfl
  | cons next rest ih =>
      rw [along_cons h, ih rfl, unwrapped, List.getLastD_cons]
      rfl

theorem given_along (h : t.pole = none) (legs : List (Leg α)) :
    (t.along leg legs).given = (legs.map fun l => l.sample.lng).getLastD t.given := by
  induction legs generalizing t leg with
  | nil => rw [along_nil h]; rfl
  | cons next rest ih =>
      rw [along_cons h, ih rfl, List.map_cons, List.getLastD_cons]
      rfl

theorem pole_along (h : t.pole = none) (legs : List (Leg α)) :
    (t.along leg legs).pole = markOf (legs.getLastD leg) := by
  induction legs generalizing t leg with
  | nil => rw [along_nil h]; rfl
  | cons next rest ih => rw [along_cons h, ih rfl, List.getLastD_cons]

/-- Up to the end of the way and along the pole passed there, if any, the vertices are those of the
legs. -/
theorem vertices_along (h : t.pole = none) (legs : List (Leg α)) (after : α) :
    (t.along leg legs).vertices ++
        alongPole (t.along leg legs).pole (t.along leg legs).lng after =
      t.vertices ++ (leg.alongPole t.lng ((unwrapped t.lng t.given legs).headD after) ++
        trail after (legs.zip (unwrapped t.lng t.given legs))) := by
  induction legs generalizing t leg with
  | nil =>
      rw [along_nil h]
      simp [alongPole_markOf, unwrapped, trail]
  | cons next rest ih =>
      have hzip := length_unwrapped
        (t.lng + wrapDegrees (next.sample.lng - t.given)) next.sample.lng rest
      rw [along_cons h, ih rfl]
      simp [afterLeg, unwrapped, trail, List.map_snd_zip, hzip]

end Trace

variable [IsStrictOrderedRing α]

theorem unwrapped_isChain (lng given : α) (legs : List (Leg α)) :
    (lng :: unwrapped lng given legs).IsChain fun a b => b - a ∈ Set.Ico (-180 : α) 180 := by
  induction legs generalizing lng given with
  | nil => simp [unwrapped]
  | cons leg rest ih =>
      refine List.isChain_cons_cons.mpr ⟨?_, ih _ _⟩
      rw [add_sub_cancel_left]
      exact wrapDegrees_mem _

/-! ## Closing the outline -/

/-- The vertices along a pole's latitude back to the first vertex of an outline that winds round the
pole. -/
def polarCap (first : Vertex α) (winding : α) : List (Vertex α) :=
  let pole : α := if 0 < first.lat then 90.0 else -90.0
  [⟨first.lng + winding, first.lat⟩, ⟨first.lng + winding, pole⟩, ⟨first.lng, pole⟩]

/-- Whole turns are more than half a turn unless there are none. -/
theorem half_turn_lt_iff {winding : α} {turns : ℤ} (h : winding = 360 * turns) :
    180 < |winding| ↔ winding ≠ 0 := by
  constructor
  · rintro hlt rfl
    rw [abs_zero] at hlt
    linarith
  · intro hne
    have hturns : turns ≠ 0 := by
      rintro rfl
      exact hne (by rw [h, Int.cast_zero, mul_zero])
    have hone : (1 : α) ≤ |(turns : α)| := by
      rw [← Int.cast_abs]
      exact_mod_cast Int.one_le_abs hturns
    rw [h, abs_mul, abs_of_pos (by norm_num : (0 : α) < 360)]
    linarith

/-- A closed outline runs along the pole passed last, if any, and else round the pole that it winds
round, if it does. -/
theorem Trace.closing_eq (t : Trace α) (first : Vertex α) {winding : α} {turns : ℤ}
    (h : winding = 360 * turns) :
    t.closing first winding = alongPole t.pole t.lng first.lng ++
      if t.pole = none ∧ winding ≠ 0 then polarCap first winding else [] := by
  have hsize : (if winding < 0 then -winding else winding) = |winding| := by
    split
    · rw [abs_of_neg ‹_›]
    · rw [abs_of_nonneg (not_lt.mp ‹_›)]
  have h180 : (180.0 : α) = 180 := by norm_num
  have h360 : (360.0 : α) = 360 := by norm_num
  have hwhole : winding / 360 = turns := by
    rw [h, mul_div_cancel_left₀ _ (by norm_num : (360 : α) ≠ 0)]
  cases hpole : t.pole with
  | some lat => simp [closing, hpole, alongPole]
  | none =>
      simp only [closing, hpole, hsize, h180, half_turn_lt_iff h, alongPole, List.nil_append,
        true_and]
      split
      · rw [h360, hwhole, nearest_intCast, ← h]
        rfl
      · rfl

/-! ## What unwrapping gives -/

/-- An outline in the plane: the legs of its samples, and a longitude for each. -/
structure Unrolling (center : α) (samples : List (Sample α)) where
  first : Leg α
  legs : List (Leg α)
  lng : α
  lngs : List α
  rotated : rollToDefined samples ~r samples
  rolled : rollToDefined samples = (first :: legs).flatMap Leg.samples
  congruent : List.Forall₂ (fun leg l => l ≡ leg.sample.lng [PMOD (360 : α)]) (first :: legs)
    (lng :: lngs)
  starts : lng ∈ Set.Ico (center - 180) (center + 180)
  steps : (lng :: lngs).IsChain fun a b => b - a ∈ Set.Ico (-180 : α) 180

namespace Unrolling

variable {center : α} {samples : List (Sample α)} (u : Unrolling center samples)

def start : Vertex α := ⟨u.lng, u.first.sample.lat⟩

def last : Leg α := u.legs.getLastD u.first

/-- By how much the longitude changes from the first vertex over all others and on to the first
sample. -/
def winding : α :=
  u.lngs.getLastD u.lng + wrapDegrees (u.first.sample.lng - u.last.sample.lng) - u.lng

def vertices : List (Vertex α) := trail u.lng ((u.first :: u.legs).zip (u.lng :: u.lngs))

omit [FloorRing α] [IsStrictOrderedRing α] in
theorem modEq_last : u.lngs.getLastD u.lng ≡ u.last.sample.lng [PMOD (360 : α)] := by
  have hlast : ∀ {legs : List (Leg α)} {lngs : List α} (leg : Leg α) (l : α),
      l ≡ leg.sample.lng [PMOD (360 : α)] →
      List.Forall₂ (fun leg l => l ≡ leg.sample.lng [PMOD (360 : α)]) legs lngs →
      lngs.getLastD l ≡ (legs.getLastD leg).sample.lng [PMOD (360 : α)] := by
    intro legs lngs leg l hl hall
    induction hall generalizing leg l with
    | nil => exact hl
    | cons hhead _ ih =>
        rw [List.getLastD_cons, List.getLastD_cons]
        exact ih _ _ hhead
  obtain ⟨hfirst, hrest⟩ := List.forall₂_cons.mp u.congruent
  exact hlast _ _ hfirst hrest

omit [IsStrictOrderedRing α] in
/-- Back at its first sample an outline has made whole turns. -/
theorem exists_winding_eq : ∃ turns : ℤ, u.winding = 360 * turns := by
  have hfirst : u.lng ≡ u.first.sample.lng [PMOD (360 : α)] := (List.forall₂_cons.mp u.congruent).1
  have hback := (u.modEq_last.add
    (wrapDegrees_modEq (u.first.sample.lng - u.last.sample.lng))).sub hfirst
  rw [add_sub_cancel, sub_self] at hback
  obtain ⟨turns, hturns⟩ := AddCommGroup.modEq_iff_zsmul.mp hback.symm
  refine ⟨turns, ?_⟩
  rw [sub_zero, zsmul_eq_mul, mul_comm] at hturns
  exact hturns.symm

def trace : Trace α := (Trace.start center u.first.sample).along u.first u.legs

end Unrolling

namespace Leg

def nearCenter (center : α) (leg : Leg α) : α := center + wrapDegrees (leg.sample.lng - center)

def unwrappedFrom (center : α) (leg : Leg α) (legs : List (Leg α)) : List α :=
  unwrapped (leg.nearCenter center) leg.sample.lng legs

variable (center : α) (leg : Leg α) (legs : List (Leg α))

theorem nearCenter_mem : leg.nearCenter center ∈ Set.Ico (center - 180) (center + 180) := by
  obtain ⟨hlow, hhigh⟩ := wrapDegrees_mem (leg.sample.lng - center)
  unfold nearCenter
  constructor <;> linarith

omit [IsStrictOrderedRing α] in
theorem unwrappedFrom_modEq :
    List.Forall₂ (fun leg l => l ≡ leg.sample.lng [PMOD (360 : α)]) (leg :: legs)
      (leg.nearCenter center :: leg.unwrappedFrom center legs) := by
  have hnear : leg.nearCenter center ≡ leg.sample.lng [PMOD (360 : α)] := by
    simpa [nearCenter] using
      (AddCommGroup.modEq_refl center).add (wrapDegrees_modEq (leg.sample.lng - center))
  exact .cons hnear (unwrapped_modEq hnear legs)

theorem unwrappedFrom_isChain : (leg.nearCenter center :: leg.unwrappedFrom center legs).IsChain
    fun a b => b - a ∈ Set.Ico (-180 : α) 180 :=
  unwrapped_isChain _ _ legs

end Leg

namespace Unrolling

variable {center : α} {samples : List (Sample α)}

def ofLegs (center : α) {first : Leg α} {legs : List (Leg α)}
    (h : rollToDefined samples = (first :: legs).flatMap Leg.samples) :
    Unrolling center samples where
  first := first
  legs := legs
  lng := first.nearCenter center
  lngs := first.unwrappedFrom center legs
  rotated := rollToDefined_isRotated samples
  rolled := h
  congruent := first.unwrappedFrom_modEq center legs
  starts := first.nearCenter_mem center
  steps := first.unwrappedFrom_isChain center legs

variable {first : Leg α} {legs : List (Leg α)}
  (h : rollToDefined samples = (first :: legs).flatMap Leg.samples)

theorem given_trace : (ofLegs center h).trace.given = (ofLegs center h).last.sample.lng := by
  have hlast : ∀ (legs : List (Leg α)) (leg : Leg α),
      (legs.map fun l => l.sample.lng).getLastD leg.sample.lng =
        (legs.getLastD leg).sample.lng := by
    intro legs
    induction legs with
    | nil => exact fun _ => rfl
    | cons l rest ih => exact fun _ => by rw [List.map_cons, List.getLastD_cons, ih, List.getLastD_cons]
  exact (Trace.given_along rfl legs).trans (hlast legs first)

theorem winding_trace :
    (ofLegs center h).trace.winding (ofLegs center h).start (ofLegs center h).first.sample.lng =
      (ofLegs center h).winding := by
  have hlng : (ofLegs center h).trace.lng =
      (ofLegs center h).lngs.getLastD (ofLegs center h).lng := Trace.lng_along rfl legs
  rw [Trace.winding, given_trace, hlng]
  rfl

theorem pole_trace_iff :
    (ofLegs center h).trace.pole = none ↔ (ofLegs center h).last.passed = [] := by
  have hpole : (ofLegs center h).trace.pole = Trace.markOf (ofLegs center h).last :=
    Trace.pole_along rfl legs
  rw [hpole, Trace.markOf, Option.map_eq_none_iff, List.getLast?_eq_none_iff]

theorem vertices_trace :
    (ofLegs center h).trace.vertices ++
        Trace.alongPole (ofLegs center h).trace.pole (ofLegs center h).trace.lng
          (ofLegs center h).lng = (ofLegs center h).vertices := by
  have hlength : (ofLegs center h).lngs.length = legs.length := length_unwrapped _ _ legs
  have hlngs : (legs.zip (ofLegs center h).lngs).map Prod.snd = (ofLegs center h).lngs :=
    List.map_snd_zip hlength.le
  refine (Trace.vertices_along rfl legs _).trans ?_
  change _ = ⟨(ofLegs center h).lng, first.sample.lat⟩ :: (first.alongPole (ofLegs center h).lng
    (((legs.zip (ofLegs center h).lngs).map Prod.snd).headD (ofLegs center h).lng) ++
      trail (ofLegs center h).lng (legs.zip (ofLegs center h).lngs))
  rw [hlngs]
  rfl

theorem unwrap_eq :
    unwrap center samples = .ok ((ofLegs center h).trace.vertices ++
      (ofLegs center h).trace.closing (ofLegs center h).start
        ((ofLegs center h).trace.winding (ofLegs center h).start
          (ofLegs center h).first.sample.lng)) := by
  have hsamples : rollToDefined samples =
      first.sample :: (first.passed ++ legs.flatMap Leg.samples) := h
  have hdefined : ¬first.sample.atPole = true := by simp [first.defined]
  rw [unwrap, hsamples]
  exact if_neg hdefined

end Unrolling

omit [IsStrictOrderedRing α] in
/-- Samples at a pole only cannot be unwrapped. -/
theorem unwrap_of_poles (center : α) {samples : List (Sample α)}
    (h : ∀ s ∈ samples, s.atPole = true) : unwrap center samples = .error .indexOutOfRange := by
  have hrolled : rollToDefined samples = samples := by
    rw [rollToDefined, List.dropWhile_eq_nil_iff.mpr h, List.nil_append,
      List.takeWhile_eq_self_iff.mpr h]
  rw [unwrap, hrolled]
  cases samples with
  | nil => rfl
  | cons s rest => exact if_pos (h s List.mem_cons_self)

/-- Unwrapping follows the legs of the samples. Back at the first sample it finds the whole turns
that the outline has made. It closes the outline round a pole exactly where the outline does not end
at one and such turns are left. -/
theorem unwrap_follows (center : α) (samples : List (Sample α))
    (h : ∃ s ∈ samples, s.atPole = false) :
    ∃ (u : Unrolling center samples) (turns : ℤ),
      u.trace.winding u.start u.first.sample.lng = u.winding ∧ u.winding = 360 * turns ∧
      (180 < |u.winding| ↔ u.winding ≠ 0) ∧
      unwrap center samples = .ok (u.vertices ++
        if u.last.passed = [] ∧ u.winding ≠ 0 then polarCap u.start u.winding else []) := by
  obtain ⟨first, legs, hrolled⟩ := exists_legs_of_defined h
  let u := Unrolling.ofLegs center hrolled
  obtain ⟨turns, hturns⟩ := u.exists_winding_eq
  refine ⟨u, turns, Unrolling.winding_trace hrolled, hturns, half_turn_lt_iff hturns, ?_⟩
  rw [Unrolling.unwrap_eq hrolled, Unrolling.winding_trace hrolled,
    Trace.closing_eq _ _ hturns, ← List.append_assoc]
  change Except.ok (u.trace.vertices ++ Trace.alongPole u.trace.pole u.trace.lng u.lng ++ _) = _
  rw [Unrolling.vertices_trace hrolled]
  simp only [Unrolling.pole_trace_iff hrolled]
  rfl

/-- Samples that begin at a pole, cross the antimeridian, pass the pole twice and end beyond it. -/
def crossing : List (Sample ℚ) :=
  [⟨0, 90, true⟩, ⟨170, 80, false⟩, ⟨-170, 85, false⟩, ⟨10, 90, true⟩, ⟨20, 90, true⟩,
    ⟨-60, 85, false⟩]

theorem unwrap_follows_of_crossing :
    (∃ s ∈ crossing, s.atPole = false) ∧
      ∃ (u : Unrolling 175 crossing) (turns : ℤ),
        u.trace.winding u.start u.first.sample.lng = u.winding ∧ u.winding = 360 * turns ∧
        (180 < |u.winding| ↔ u.winding ≠ 0) ∧
        unwrap 175 crossing = .ok (u.vertices ++
          if u.last.passed = [] ∧ u.winding ≠ 0 then polarCap u.start u.winding else []) := by
  have h : ∃ s ∈ crossing, s.atPole = false := ⟨⟨170, 80, false⟩, by simp [crossing], rfl⟩
  exact ⟨h, unwrap_follows 175 crossing h⟩

end Geospatial
