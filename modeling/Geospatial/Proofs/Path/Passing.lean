import Geospatial.Proofs.Path.Cuts
import Geospatial.Proofs.Path.Segment

/-!
# Where a path passes

Without tolerance a point is located on a segment exactly when it stands a fraction along it. So a
point is located on a path exactly when the path passes it, at an arc length at which the path does,
and what is located at one arc length is one cut. A path passes what its two parts pass, and no other
points when a position is added to it on the way.
-/

namespace Geospatial.Path

/-! ## Along a path -/

/-- A path passes a point at an arc length: on its first segment or further on. The arc length of
its start is `sum`. -/
def PassesFrom (sum : ℝ) (p : Position ℝ) (arc : ℝ) : Path ℝ → Prop
  | start :: stop :: rest =>
    (∃ t, Along p start stop t ∧ arc = sum + t * distance start stop) ∨
      PassesFrom (sum + distance start stop) p arc (stop :: rest)
  | _ => False

theorem passesFrom_cons_cons {sum arc : ℝ} {p a b : Position ℝ} {rest : Path ℝ} :
    PassesFrom sum p arc (a :: b :: rest) ↔
      (∃ t, Along p a b t ∧ arc = sum + t * distance a b) ∨
        PassesFrom (sum + distance a b) p arc (b :: rest) := Iff.rfl

theorem not_passesFrom_singleton {sum arc : ℝ} {p a : Position ℝ} : ¬PassesFrom sum p arc [a] :=
  id

theorem totalLength_cons_cons (a b : Position ℝ) (rest : Path ℝ) :
    totalLength (a :: b :: rest) = distance a b + totalLength (b :: rest) := rfl

theorem Along.arc_bounds {p a b : Position ℝ} {t : ℝ} (h : Along p a b t) (sum : ℝ) :
    sum ≤ sum + t * distance a b ∧ sum + t * distance a b ≤ sum + distance a b := by
  have hd := distance_nonneg a b
  have h0 := mul_nonneg h.nonneg hd
  have h1 := mul_le_mul_of_nonneg_right h.le_one hd
  constructor <;> linarith

theorem PassesFrom.bounds {sum arc : ℝ} {p : Position ℝ} {path : Path ℝ}
    (h : PassesFrom sum p arc path) : sum ≤ arc ∧ arc ≤ sum + totalLength path := by
  fun_induction PassesFrom sum p arc path with
  | case1 sum a b rest ih =>
      have hd := distance_nonneg a b
      have hrest := totalLength_nonneg (b :: rest)
      rw [totalLength_cons_cons]
      rcases h with ⟨t, ht, rfl⟩ | h
      · have harc := ht.arc_bounds sum
        constructor <;> linarith
      · have harc := ih h
        constructor <;> linarith
  | case2 => exact h.elim

theorem PassesFrom.place_start {sum : ℝ} {p a : Position ℝ} {rest : Path ℝ}
    (h : PassesFrom sum p sum (a :: rest)) : SamePlace p a := by
  induction rest generalizing sum a with
  | nil => exact h.elim
  | cons b rest ih =>
      by_cases hab : SamePlace a b
      · rw [passesFrom_cons_cons, distance_eq_zero_iff.mpr hab, add_zero] at h
        rcases h with ⟨t, ht, -⟩ | h
        · exact ht.of_samePlace hab
        · exact ⟨(ih h).1.trans hab.1.symm, (ih h).2.trans hab.2.symm⟩
      · have hd := distance_pos_iff.mpr hab
        rcases h with ⟨t, ht, harc⟩ | h
        · have ht0 : t = 0 := by
            have := mul_eq_zero.mp (left_eq_add.mp harc)
            exact this.resolve_right hd.ne'
          exact ht.samePlace (ht0 ▸ Along.at_start a b)
        · linarith [h.bounds.1]

theorem Along.place_stop {p a b : Position ℝ} {t : ℝ} (h : Along p a b t)
    (harc : distance a b ≤ t * distance a b) : SamePlace p b := by
  have hzero : distance p b = 0 := by
    rw [h.distance_stop]
    have hnonneg := mul_nonneg (sub_nonneg.mpr h.le_one) (distance_nonneg a b)
    linarith
  exact distance_eq_zero_iff.mp hzero

/-- What the rest of a path passes where the first segment passes a point is that point. -/
theorem PassesFrom.samePlace_first {sum arc t : ℝ} {p q a b : Position ℝ} {rest : Path ℝ}
    (hp : Along p a b t) (harc : arc = sum + t * distance a b)
    (hq : PassesFrom (sum + distance a b) q arc (b :: rest)) : SamePlace p q := by
  have hstart := hq.bounds.1
  have hpb : SamePlace p b := hp.place_stop (by linarith)
  have hend : arc = sum + distance a b := le_antisymm (harc ▸ (hp.arc_bounds sum).2) hstart
  rw [hend] at hq
  exact hpb.trans hq.place_start.symm

/-- A path passes one place only at an arc length. -/
theorem PassesFrom.samePlace {sum arc : ℝ} {p q : Position ℝ} {path : Path ℝ}
    (hp : PassesFrom sum p arc path) (hq : PassesFrom sum q arc path) : SamePlace p q := by
  fun_induction PassesFrom sum p arc path with
  | case1 sum a b rest ih =>
      rcases hp with ⟨t, ht, harc⟩ | hp
      · rcases hq with ⟨u, hu, harc'⟩ | hq
        · by_cases hab : SamePlace a b
          · exact (ht.of_samePlace hab).trans (hu.of_samePlace hab).symm
          · have htu : t = u := mul_right_cancel₀ (distance_pos_iff.mpr hab).ne' (by linarith)
            exact ht.samePlace (htu ▸ hu)
        · exact PassesFrom.samePlace_first ht harc hq
      · rcases hq with ⟨u, hu, harc⟩ | hq
        · exact (PassesFrom.samePlace_first hu harc hp).symm
        · exact ih hp hq
  | case2 => exact hp.elim

/-! ## Located and passed -/

theorem locateOnPath_passes {p : Position ℝ} {sum : ℝ} {path : Path ℝ} {cut : Cut ℝ}
    (h : locateOnPath p 0 sum path = some cut) : PassesFrom sum p cut.arc path := by
  fun_induction locateOnPath p 0 sum path with
  | case1 sum a b rest next t hloc =>
      cases h
      refine Or.inl ⟨t, along_of_locate_zero hloc, ?_⟩
      simp [next]
  | case2 sum a b rest next hloc ih => exact Or.inr (ih h)
  | case3 => cases h

theorem locateOnPath_place {p : Position ℝ} {tolerance sum : ℝ} {path : Path ℝ} {cut : Cut ℝ}
    (h : locateOnPath p tolerance sum path = some cut) : SamePlace cut.place p := by
  obtain ⟨i, hi⟩ := locateOnPath_eq_some_iff.mp h
  obtain ⟨start, stop, t, -, -, rfl⟩ := hi.here
  exact samePlace_cutPosition p start.2 stop.2 t

theorem PassesFrom.located {p : Position ℝ} {sum arc : ℝ} {path : Path ℝ}
    (h : PassesFrom sum p arc path) : ∃ cut, locateOnPath p 0 sum path = some cut := by
  fun_induction PassesFrom sum p arc path with
  | case1 sum a b rest ih =>
      cases hloc : locate p a b 0 with
      | some t => exact ⟨_, locateOnPath_of_some sum rest hloc⟩
      | none =>
          rw [locateOnPath_of_none sum rest hloc]
          rcases h with ⟨t, ht, -⟩ | h
          · exact absurd ht (locate_zero_eq_none_iff.mp hloc t)
          · exact ih h
  | case2 => exact h.elim

/-- What is located at one arc length is one cut. -/
theorem locateOnPath_eq_of_arc {p q : Position ℝ} {sum : ℝ} {path : Path ℝ} {c d : Cut ℝ}
    (hc : locateOnPath p 0 sum path = some c) (hd : locateOnPath q 0 sum path = some d)
    (harc : c.arc = d.arc) : c = d := by
  have hplace := (locateOnPath_passes hc).samePlace (harc ▸ locateOnPath_passes hd)
  rw [locateOnPath_congr 0 sum path hplace, hd] at hc
  exact (Option.some.inj hc).symm

/-- A path passes no point at two arc lengths, unless it starts and ends there. -/
def Simple (path : Path ℝ) : Prop :=
  ∀ p s t, PassesFrom 0 p s path → PassesFrom 0 p t path → s < t → s = 0 ∧ t = totalLength path

/-! Heights play no part in what a path passes. -/

theorem totalLength_map {f : Position ℝ → Position ℝ} (hf : ∀ p, SamePlace (f p) p)
    (path : Path ℝ) : totalLength (path.map f) = totalLength path := by
  induction path with
  | nil => rfl
  | cons a rest ih =>
      cases rest with
      | nil => rfl
      | cons b rest =>
          simp only [List.map_cons, totalLength_cons_cons] at ih ⊢
          rw [ih, distance_congr (hf a) (hf b)]

theorem passesFrom_map {f : Position ℝ → Position ℝ} (hf : ∀ p, SamePlace (f p) p) {sum arc : ℝ}
    {p : Position ℝ} {path : Path ℝ} (h : PassesFrom sum p arc (path.map f)) :
    PassesFrom sum p arc path := by
  induction path generalizing sum with
  | nil => exact h
  | cons a rest ih =>
      cases rest with
      | nil => exact h
      | cons b rest =>
          simp only [List.map_cons, passesFrom_cons_cons] at ih h ⊢
          rw [distance_congr (hf a) (hf b)] at h
          rcases h with ⟨t, ht, harc⟩ | h
          · exact Or.inl ⟨t, ht.congr_ends (hf a) (hf b), harc⟩
          · exact Or.inr (ih h)

theorem simple_map {f : Position ℝ → Position ℝ} (hf : ∀ p, SamePlace (f p) p) {path : Path ℝ}
    (h : Simple path) : Simple (path.map f) := by
  intro p s t hs ht hlt
  rw [totalLength_map hf]
  exact h p s t (passesFrom_map hf hs) (passesFrom_map hf ht) hlt

/-! ## Parts of a path -/

theorem totalLength_append (front back : Path ℝ) (x : Position ℝ) :
    totalLength (front ++ x :: back) = totalLength (front ++ [x]) + totalLength (x :: back) := by
  induction front with
  | nil => simp [totalLength]
  | cons a front ih =>
      cases front with
      | nil => simp [totalLength]
      | cons b front =>
          simp only [List.cons_append, totalLength_cons_cons] at ih ⊢
          rw [ih, add_assoc]

theorem totalLength_concat (front : Path ℝ) (a b : Position ℝ) :
    totalLength (front ++ [a] ++ [b]) = totalLength (front ++ [a]) + distance a b := by
  rw [List.append_assoc, List.singleton_append, totalLength_append, totalLength_cons_cons]
  simp [totalLength]

theorem verticesFrom_append (sum : ℝ) (front back : Path ℝ) (x : Position ℝ) :
    verticesFrom sum (front ++ x :: back) =
      verticesFrom sum front ++ verticesFrom (sum + totalLength (front ++ [x])) (x :: back) := by
  induction front generalizing sum with
  | nil => simp [totalLength]
  | cons a front ih =>
      cases front with
      | nil => simp [totalLength, verticesFrom_cons_cons]
      | cons b front =>
          simp only [List.cons_append, totalLength_cons_cons, verticesFrom_cons_cons] at ih ⊢
          rw [ih, add_assoc]

theorem passesFrom_append {sum arc : ℝ} {p x : Position ℝ} {front back : Path ℝ} :
    PassesFrom sum p arc (front ++ x :: back) ↔ PassesFrom sum p arc (front ++ [x]) ∨
      PassesFrom (sum + totalLength (front ++ [x])) p arc (x :: back) := by
  induction front generalizing sum with
  | nil => simp [totalLength, not_passesFrom_singleton]
  | cons a front ih =>
      cases front with
      | nil => simp [totalLength, passesFrom_cons_cons, not_passesFrom_singleton]
      | cons b front =>
          simp only [List.cons_append, totalLength_cons_cons, passesFrom_cons_cons] at ih ⊢
          rw [ih, add_assoc, or_assoc]

/-- A point is located on the front of a path, or else on what follows. -/
theorem locateOnPath_append (p : Position ℝ) (tolerance sum : ℝ) (front back : Path ℝ)
    (x : Position ℝ) :
    locateOnPath p tolerance sum (front ++ x :: back) =
      (locateOnPath p tolerance sum (front ++ [x])).or
        (locateOnPath p tolerance (sum + totalLength (front ++ [x])) (x :: back)) := by
  induction front generalizing sum with
  | nil => simp [totalLength, locateOnPath]
  | cons a front ih =>
      cases front with
      | nil =>
          cases hloc : locate p a x tolerance with
          | some t => simp [locateOnPath_of_some _ _ hloc]
          | none => simp [locateOnPath_of_none _ _ hloc, totalLength, locateOnPath]
      | cons b front =>
          cases hloc : locate p a b tolerance with
          | some t => simp [locateOnPath_of_some _ _ hloc]
          | none =>
              simp only [List.cons_append, totalLength_cons_cons,
                locateOnPath_of_none _ _ hloc] at ih ⊢
              rw [ih, add_assoc]

/-! ## Arc lengths counted from elsewhere -/

def Cut.shift (offset : ℝ) (cut : Cut ℝ) : Cut ℝ := { cut with arc := offset + cut.arc }

@[simp] theorem Cut.shift_arc (offset : ℝ) (cut : Cut ℝ) :
    (cut.shift offset).arc = offset + cut.arc := rfl

@[simp] theorem Cut.shift_place (offset : ℝ) (cut : Cut ℝ) :
    (cut.shift offset).place = cut.place := rfl

theorem verticesFrom_shift (offset sum : ℝ) (path : Path ℝ) :
    verticesFrom (offset + sum) path = (verticesFrom sum path).map fun v => (offset + v.1, v.2) := by
  induction path generalizing sum with
  | nil => rfl
  | cons a rest ih =>
      cases rest with
      | nil => rfl
      | cons b rest =>
          rw [verticesFrom_cons_cons, verticesFrom_cons_cons, add_assoc, ih, List.map_cons]

theorem vertices_append (front back : Path ℝ) (x : Position ℝ) :
    vertices (front ++ x :: back) = vertices front ++
      (vertices (x :: back)).map fun v => (totalLength (front ++ [x]) + v.1, v.2) := by
  have hback := verticesFrom_shift (totalLength (front ++ [x])) 0 (x :: back)
  rw [add_zero, verticesFrom_zero] at hback
  rw [← verticesFrom_zero, verticesFrom_append, zero_add, hback, verticesFrom_zero]

theorem passesFrom_shift {offset sum arc : ℝ} {p : Position ℝ} {path : Path ℝ} :
    PassesFrom (offset + sum) p (offset + arc) path ↔ PassesFrom sum p arc path := by
  induction path generalizing sum with
  | nil => exact Iff.rfl
  | cons a rest ih =>
      cases rest with
      | nil => exact Iff.rfl
      | cons b rest => simp only [passesFrom_cons_cons, add_assoc, add_right_inj, ih]

theorem locateOnPath_shift (p : Position ℝ) (tolerance offset sum : ℝ) (path : Path ℝ) :
    locateOnPath p tolerance (offset + sum) path =
      (locateOnPath p tolerance sum path).map (Cut.shift offset) := by
  induction path generalizing sum with
  | nil => rfl
  | cons a rest ih =>
      cases rest with
      | nil => rfl
      | cons b rest =>
          cases hloc : locate p a b tolerance with
          | some t =>
              rw [locateOnPath_of_some _ _ hloc, locateOnPath_of_some _ _ hloc]
              simp [cutOn, Cut.shift, add_assoc]
          | none => rw [locateOnPath_of_none _ _ hloc, locateOnPath_of_none _ _ hloc, add_assoc, ih]

end Geospatial.Path
