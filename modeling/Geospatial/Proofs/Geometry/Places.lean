import Geospatial.Proofs.Doubles
import Geospatial.Proofs.Geometry.Rows

/-!
# The order of geometries of doubles

Where all coordinates are numbers, and all positions have heights or none has, geometries are sorted
as the lists of their rows are in lexicographic order: of two rows that differ the first entry that
differs decides, the first rows that differ decide between lists, and a list that ends comes before
those that go on. So the order ranks such geometries.
-/

namespace Geospatial

def Position.places (p : Position Float) : List (ℤ ×ₗ ℤ ×ₗ ℤ) :=
  Doubles.place p.x :: Doubles.place p.y :: (p.z.map Doubles.place).toList

structure Position.Measured (tall : Bool) (p : Position Float) : Prop where
  x : p.x.isNaN = false
  y : p.y.isNaN = false
  z : ∀ h ∈ p.z, h.isNaN = false
  hasHeight_eq : p.hasHeight = tall

def Measured (tall : Bool) (path : Path Float) : Prop := ∀ p ∈ path, p.Measured tall

theorem Measured.mono {tall : Bool} {path others : Path Float} (h : Measured tall path)
    (hsubset : others ⊆ path) : Measured tall others := fun p hp => h p (hsubset hp)

namespace Verdict

variable {a b : Float}

theorem ofNumbers_equal_iff (ha : a.isNaN = false) (hb : b.isNaN = false) :
    ofNumbers a b = .equal ↔ Doubles.place a = Doubles.place b := by
  rw [← Doubles.beq_iff_place ha hb]
  unfold ofNumbers
  split <;> simp_all

theorem ofNumbers_true_iff (ha : a.isNaN = false) (hb : b.isNaN = false) :
    ofNumbers a b = .decided true ↔ Doubles.place a < Doubles.place b := by
  have hequal := ofNumbers_equal_iff ha hb
  rw [← Doubles.lt_iff_place ha hb]
  unfold ofNumbers at hequal ⊢
  split
  · rename_i hbeq
    have hplace := hequal.mp (if_pos hbeq)
    have hlt : ¬a < b := fun hlt =>
      ((Doubles.lt_iff_place ha hb).mp hlt).ne hplace
    simp [hlt]
  · simp

end Verdict

namespace Row

def ofPosition (tall : Bool) (p : Position Float) : Row Float :=
  ⟨p.x, p.y, if tall then some p.z else none⟩

variable {tall : Bool} {p q : Position Float}

theorem ofHeights_iff (hp : p.Measured tall) (hq : q.Measured tall) :
    (Verdict.ofHeights (ofPosition tall p).z (ofPosition tall q).z = .equal ↔
        p.z.map Doubles.place = q.z.map Doubles.place) ∧
      (Verdict.ofHeights (ofPosition tall p).z (ofPosition tall q).z = .decided true ↔
        (p.z.map Doubles.place).toList < (q.z.map Doubles.place).toList) := by
  have hpz := hp.hasHeight_eq
  have hqz := hq.hasHeight_eq
  unfold Position.hasHeight at hpz hqz
  cases tall with
  | false =>
      rw [Option.isSome_eq_false_iff, Option.isNone_iff_eq_none] at hpz hqz
      simp [ofPosition, Verdict.ofHeights, hpz, hqz]
  | true =>
      obtain ⟨h, hph⟩ := Option.isSome_iff_exists.mp hpz
      obtain ⟨k, hqk⟩ := Option.isSome_iff_exists.mp hqz
      have hh := hp.z h hph
      have hk := hq.z k hqk
      simp [ofPosition, Verdict.ofHeights, hph, hqk, Verdict.ofNumbers_equal_iff hh hk,
        Verdict.ofNumbers_true_iff hh hk, List.cons_lt_cons_iff]

theorem compare_equal_iff (hp : p.Measured tall) (hq : q.Measured tall) :
    (ofPosition tall p).compare (ofPosition tall q) = .equal ↔ p.places = q.places := by
  rw [compare, Verdict.orElse_eq_equal_iff, Verdict.orElse_eq_equal_iff, (ofHeights_iff hp hq).1]
  change Verdict.ofNumbers p.x q.x = _ ∧ Verdict.ofNumbers p.y q.y = _ ∧ _ ↔ _
  rw [Verdict.ofNumbers_equal_iff hp.x hq.x, Verdict.ofNumbers_equal_iff hp.y hq.y]
  unfold Position.places
  cases p.z <;> cases q.z <;> simp

theorem compare_true_iff (hp : p.Measured tall) (hq : q.Measured tall) :
    (ofPosition tall p).compare (ofPosition tall q) = .decided true ↔ p.places < q.places := by
  rw [compare, Verdict.orElse_eq_decided_iff, Verdict.orElse_eq_decided_iff,
    (ofHeights_iff hp hq).2]
  change Verdict.ofNumbers p.x q.x = _ ∨ Verdict.ofNumbers p.x q.x = _ ∧
    (Verdict.ofNumbers p.y q.y = _ ∨ Verdict.ofNumbers p.y q.y = _ ∧ _) ↔ _
  rw [Verdict.ofNumbers_equal_iff hp.x hq.x, Verdict.ofNumbers_equal_iff hp.y hq.y,
    Verdict.ofNumbers_true_iff hp.x hq.x, Verdict.ofNumbers_true_iff hp.y hq.y, Position.places,
    Position.places, List.cons_lt_cons_iff, List.cons_lt_cons_iff]

end Row

/-- Rows are compared as lists of places are. -/
theorem rowsBelow_iff {tall : Bool} {ps qs : Path Float} (hps : Measured tall ps)
    (hqs : Measured tall qs) :
    rowsBelow (ps.map (Row.ofPosition tall)) (qs.map (Row.ofPosition tall)) = true ↔
      ps.map Position.places < qs.map Position.places := by
  induction ps generalizing qs with
  | nil => cases qs <;> simp [rowsBelow]
  | cons p ps ih =>
      cases qs with
      | nil => simp [rowsBelow]
      | cons q qs =>
          obtain ⟨hp, hps⟩ := List.forall_mem_cons.mp hps
          obtain ⟨hq, hqs⟩ := List.forall_mem_cons.mp hqs
          rw [List.map_cons, List.map_cons, rowsBelow_cons_iff, Row.compare_true_iff hp hq,
            Row.compare_equal_iff hp hq, ih hps hqs, List.map_cons, List.map_cons,
            List.cons_lt_cons_iff]

namespace Geometry

def places (g : Geometry Float) : List (List (ℤ ×ₗ ℤ ×ₗ ℤ)) := g.positions.map Position.places

theorem rows_eq_of_measured {tall : Bool} {g : Geometry Float} (h : Measured tall g.positions) :
    g.rows = g.positions.map (Row.ofPosition tall) := by
  unfold rows
  refine List.map_congr_left fun p hp => ?_
  have htall : g.hasHeight = tall := by
    cases tall with
    | true => exact List.any_eq_true.mpr ⟨p, hp, (h p hp).hasHeight_eq⟩
    | false => exact List.any_eq_false.mpr fun q hq => by simp [(h q hq).hasHeight_eq]
  rw [htall]
  rfl

theorem precedes_eq {tall : Bool} {g h : Geometry Float} (hg : Measured tall g.positions)
    (hh : Measured tall h.positions) : g.precedes h = decide (g.places < h.places) := by
  rw [Bool.eq_iff_iff, decide_eq_true_iff, precedes, rows_eq_of_measured hg,
    rows_eq_of_measured hh]
  exact rowsBelow_iff hg hh

/-- Sorting by rows puts geometries in the lexicographic order of their rows. -/
theorem sortParts_ascends {tall : Bool} {parts : List (Geometry Float)}
    (h : ∀ part ∈ parts, Measured tall part.positions) :
    Sorting.Ascends precedes (sortParts parts) := by
  refine Sorting.sort_ascends_of_ranks ?_
  have hplaces : (fun a b : { a // a ∈ parts } => a.1.precedes b.1) =
      fun a b : { a // a ∈ parts } => decide (a.1.places < b.1.places) := by
    funext a b
    exact precedes_eq (h a a.2) (h b b.2)
  rw [hplaces]
  convert Sorting.Ranks.of_key fun a : { a // a ∈ parts } => a.1.places

/-- No geometry precedes one before it when they are in the lexicographic order of their rows. -/
theorem ascends_iff_places {tall : Bool} {parts : List (Geometry Float)}
    (h : ∀ part ∈ parts, Measured tall part.positions) :
    Sorting.Ascends precedes parts ↔ parts.Pairwise fun a b => a.places ≤ b.places := by
  refine List.Pairwise.iff_of_mem fun {a b} ha hb => ?_
  rw [precedes_eq (h b hb) (h a ha), decide_eq_false_iff_not, not_lt]

end Geometry

end Geospatial
