import Geospatial.Geometry.Normal
import Geospatial.Proofs.Sorting
import Mathlib.Order.Defs.LinearOrder

/-!
# Order of rows

Over numbers in a linear order the rows of geometries compare strictly, also where heights are
missing. Two lists of rows without a missing height are equal when neither is below the other, and
a line is determined by its rows when all of its positions have heights or none has.
-/

namespace Geospatial

variable {α : Type} [LinearOrder α] [BEq α] [LawfulBEq α]

/-! ## Verdicts -/

namespace Verdict

@[simp] theorem orElse_eq_equal_iff {v : Verdict} {next : Unit → Verdict} :
    v.orElse next = .equal ↔ v = .equal ∧ next () = .equal := by
  cases v <;> simp [orElse]

@[simp] theorem orElse_eq_decided_iff {v : Verdict} {next : Unit → Verdict} {first : Bool} :
    v.orElse next = .decided first ↔
      v = .decided first ∨ (v = .equal ∧ next () = .decided first) := by
  cases v <;> simp [orElse]

@[simp] theorem ofNumbers_eq_equal_iff {a b : α} : ofNumbers a b = .equal ↔ a = b := by
  by_cases h : a = b <;> simp [ofNumbers, h]

@[simp] theorem ofNumbers_eq_true_iff {a b : α} : ofNumbers a b = .decided true ↔ a < b := by
  by_cases h : a = b
  · simp [ofNumbers, h]
  · simp [ofNumbers, h]

theorem ofHeights_eq_equal {z w : Option (Option α)} (h : ofHeights z w = .equal) : z = w := by
  match z, w with
  | none, none => rfl
  | none, some _ => cases h
  | some _, none => cases h
  | some (some a), some (some b) => rw [ofNumbers_eq_equal_iff.mp h]
  | some none, some (some _) => cases h
  | some (some _), some none => cases h
  | some none, some none => cases h

theorem ofHeights_asymm {z w : Option (Option α)} (h : ofHeights z w = .decided true) :
    ofHeights w z ≠ .decided true := by
  match z, w with
  | none, some _ => simp [ofHeights]
  | some (some a), some (some b) =>
      have hlt := ofNumbers_eq_true_iff.mp h
      exact fun hgt => lt_asymm hlt (ofNumbers_eq_true_iff.mp hgt)

theorem ofHeights_trans {z w v : Option (Option α)} (h : ofHeights z w = .decided true)
    (h' : ofHeights w v = .decided true) : ofHeights z v = .decided true := by
  match z, w, v with
  | none, some _, some _ => rfl
  | some (some a), some (some b), some (some c) =>
      have hab := ofNumbers_eq_true_iff.mp h
      have hbc := ofNumbers_eq_true_iff.mp h'
      exact ofNumbers_eq_true_iff.mpr (hab.trans hbc)

end Verdict

/-! ## Rows -/

namespace Row

theorem compare_eq_true_iff {p q : Row α} :
    p.compare q = .decided true ↔
      p.x < q.x ∨ (p.x = q.x ∧ (p.y < q.y ∨
        (p.y = q.y ∧ Verdict.ofHeights p.z q.z = .decided true))) := by
  simp [compare]

theorem eq_of_compare {p q : Row α} (h : p.compare q = .equal) : p = q := by
  simp only [compare, Verdict.orElse_eq_equal_iff, Verdict.ofNumbers_eq_equal_iff] at h
  obtain ⟨hx, hy, hz⟩ := h
  cases p
  cases q
  exact (Row.mk.injEq ..).mpr ⟨hx, hy, Verdict.ofHeights_eq_equal hz⟩

theorem compare_asymm {p q : Row α} (h : p.compare q = .decided true) :
    q.compare p ≠ .decided true := by
  rw [compare_eq_true_iff] at h
  rw [Ne, compare_eq_true_iff]
  rcases h with hx | ⟨hx, hy | ⟨hy, hz⟩⟩
  · grind
  · grind
  · have := Verdict.ofHeights_asymm hz
    grind

theorem compare_trans {p q r : Row α} (h : p.compare q = .decided true)
    (h' : q.compare r = .decided true) : p.compare r = .decided true := by
  rw [compare_eq_true_iff] at h h' ⊢
  rcases h with hx | ⟨hx, hy | ⟨hy, hz⟩⟩ <;> rcases h' with hx' | ⟨hx', hy' | ⟨hy', hz'⟩⟩
  case inr.inr.inr.inr =>
    exact Or.inr ⟨hx.trans hx', Or.inr ⟨hy.trans hy', Verdict.ofHeights_trans hz hz'⟩⟩
  all_goals grind

def Full (r : Row α) : Prop := r.z ≠ some none

theorem eq_of_not_below {p q : Row α} (hp : p.Full) (hq : q.Full)
    (h : p.compare q ≠ .decided true) (h' : q.compare p ≠ .decided true) :
    p.compare q = .equal := by
  rw [Ne, compare_eq_true_iff] at h h'
  have hxy : p.x = q.x ∧ p.y = q.y := by grind
  have hz : Verdict.ofHeights p.z q.z = .equal := by
    rw [hxy.1, hxy.2] at h
    rw [hxy.1, hxy.2] at h'
    unfold Full at hp hq
    match hpz : p.z, hqz : q.z with
    | none, none => rfl
    | none, some w => simp [hpz, hqz, Verdict.ofHeights] at h
    | some v, none => simp [hpz, hqz, Verdict.ofHeights] at h'
    | some none, _ => exact absurd hpz hp
    | _, some none => exact absurd hqz hq
    | some (some a), some (some b) =>
        simp only [hpz, hqz, Verdict.ofHeights, Verdict.ofNumbers_eq_true_iff] at h h'
        have hab : a = b := by grind
        exact Verdict.ofNumbers_eq_equal_iff.mpr hab
  simp [compare, hxy.1, hxy.2, hz]

end Row

/-! ## Lists of rows -/

omit [LinearOrder α] [BEq α] [LawfulBEq α] in
theorem rowsBelow_cons_iff [LT α] [DecidableLT α] [BEq α] {p q : Row α} {ps qs : List (Row α)} :
    rowsBelow (p :: ps) (q :: qs) = true ↔
      p.compare q = .decided true ∨ (p.compare q = .equal ∧ rowsBelow ps qs = true) := by
  rw [rowsBelow]
  cases p.compare q <;> simp

theorem rowsBelow_asymm {ps qs : List (Row α)} (h : rowsBelow ps qs = true) :
    rowsBelow qs ps = false := by
  rw [← Bool.not_eq_true]
  induction ps generalizing qs with
  | nil =>
      cases qs with
      | nil => exact absurd h (by simp [rowsBelow])
      | cons q qs => simp [rowsBelow]
  | cons p ps ih =>
      cases qs with
      | nil => exact absurd h (by simp [rowsBelow])
      | cons q qs =>
          rw [rowsBelow_cons_iff] at h ⊢
          rcases h with h | ⟨heq, h⟩
          · rintro (h' | ⟨heq, -⟩)
            · exact Row.compare_asymm h h'
            · rw [Row.eq_of_compare heq] at h
              exact Row.compare_asymm h h
          · obtain rfl := Row.eq_of_compare heq
            rw [heq]
            rintro (h' | ⟨-, h'⟩)
            · cases h'
            · exact ih h h'

theorem rowsBelow_trans {ps qs rs : List (Row α)} (h : rowsBelow ps qs = true)
    (h' : rowsBelow qs rs = true) : rowsBelow ps rs = true := by
  induction ps generalizing qs rs with
  | nil =>
      cases rs with
      | nil => exact absurd h' (by simp [rowsBelow])
      | cons r rs => rfl
  | cons p ps ih =>
      cases qs with
      | nil => exact absurd h (by simp [rowsBelow])
      | cons q qs =>
          cases rs with
          | nil => exact absurd h' (by simp [rowsBelow])
          | cons r rs =>
              rw [rowsBelow_cons_iff] at h h' ⊢
              rcases h with h | ⟨heq, h⟩
              · rcases h' with h' | ⟨heq, -⟩
                · exact Or.inl (Row.compare_trans h h')
                · rw [← Row.eq_of_compare heq]
                  exact Or.inl h
              · rw [Row.eq_of_compare heq]
                exact h'.imp_right fun ⟨hequal, h'⟩ => ⟨hequal, ih h h'⟩

theorem rows_eq_of_not_below {ps qs : List (Row α)} (hps : ∀ r ∈ ps, r.Full)
    (hqs : ∀ r ∈ qs, r.Full) (h : rowsBelow ps qs = false) (h' : rowsBelow qs ps = false) :
    ps = qs := by
  rw [← Bool.not_eq_true] at h h'
  induction ps generalizing qs with
  | nil =>
      cases qs with
      | nil => rfl
      | cons q qs => exact absurd rfl h
  | cons p ps ih =>
      cases qs with
      | nil => exact absurd rfl h'
      | cons q qs =>
          rw [rowsBelow_cons_iff, not_or] at h h'
          have hequal := Row.eq_of_not_below (hps p List.mem_cons_self) (hqs q List.mem_cons_self)
            h.1 h'.1
          obtain rfl := Row.eq_of_compare hequal
          rw [ih (fun r hr => hps r (List.mem_cons_of_mem _ hr))
            (fun r hr => hqs r (List.mem_cons_of_mem _ hr)) (fun hlt => h.2 ⟨hequal, hlt⟩)
            fun hlt => h'.2 ⟨hequal, hlt⟩]

/-! ## Rows of geometries -/

namespace Geometry

omit [BEq α] [LawfulBEq α] [LinearOrder α] in
/-- The positions of a geometry can be read off its rows. -/
theorem positions_eq_map_rows (g : Geometry α) :
    g.positions = g.rows.map fun r => ⟨r.x, r.y, r.z.join⟩ := by
  have hposition : ∀ p ∈ g.positions,
      (⟨p.x, p.y, (if g.hasHeight then some p.z else none).join⟩ : Position α) = p := by
    intro p hp
    cases htall : g.hasHeight with
    | true => rfl
    | false =>
        have hflat : p.z = none := by
          have := List.any_eq_false.mp htall p hp
          simpa [Position.hasHeight] using this
        simp [← hflat]
  unfold rows
  rw [List.map_map]
  exact ((List.map_congr_left hposition).trans g.positions.map_id').symm

end Geometry

def EvenHeights (path : Path α) : Prop :=
  (∀ p ∈ path, p.z ≠ none) ∨ ∀ p ∈ path, p.z = none

omit [BEq α] [LawfulBEq α] [LinearOrder α] in
theorem full_of_evenHeights {g : Geometry α} (h : EvenHeights g.positions) :
    ∀ r ∈ g.rows, r.Full := by
  intro r hr
  obtain ⟨p, hp, rfl⟩ := List.mem_map.mp hr
  unfold Row.Full
  rcases h with h | h
  · have := h p hp
    split <;> simp_all
  · have hflat : g.hasHeight = false := by
      refine List.any_eq_false.mpr fun q hq => ?_
      simp [Position.hasHeight, h q hq]
    simp [hflat]

/-- Geometries with even heights of which neither precedes the other have the same positions. -/
theorem positions_eq_of_not_precedes {g h : Geometry α} (hg : EvenHeights g.positions)
    (hh : EvenHeights h.positions) (hgh : g.precedes h = false) (hhg : h.precedes g = false) :
    g.positions = h.positions := by
  have hrows := rows_eq_of_not_below (full_of_evenHeights hg) (full_of_evenHeights hh) hgh hhg
  rw [g.positions_eq_map_rows, h.positions_eq_map_rows, hrows]

theorem precedes_strict : Sorting.Strict (Geometry.precedes (α := α)) where
  asymm := rowsBelow_asymm
  trans := rowsBelow_trans

end Geospatial
