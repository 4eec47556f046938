import Mathlib

/-!
# Finite doubles

Finite doubles are ordered as their signs, exponents and significands are, so that they compare as
numbers do. Only the two zeros compare as equal and are different. A finite double taken from itself
leaves nothing, unlike an infinity or a value that is not a number. The infinities stand at the ends
of the finite doubles; a value that is not a number compares with nothing.
-/

namespace Geospatial.Doubles

open Float.Model
open Float.Model.UnpackedFloat (unpackMantissa unpackExponent unpackSign Sign)

/-! ## Bits -/

section Bits

variable {b c : BitVec Format.binary64.numBits}

/-- Bits are determined by the sign, the exponent and the significand that they hold. -/
theorem bits_ext (hsign : unpackSign b = unpackSign c)
    (hexponent : unpackExponent b = unpackExponent c) (hmantissa : unpackMantissa b = unpackMantissa c) :
    b = c := by
  have hs := congrArg BitVec.toNat hsign
  have he := congrArg BitVec.toNat hexponent
  have hm := congrArg BitVec.toNat hmantissa
  simp only [unpackSign, unpackExponent, unpackMantissa, BitVec.toNat_cast,
    BitVec.extractLsb_toNat, Nat.shiftRight_eq_div_pow] at hs he hm
  have hb := b.isLt
  have hc := c.isLt
  refine BitVec.eq_of_toNat_eq ?_
  norm_num at hs he hm hb hc
  omega

theorem ofBitVec_inj {s t : BitVec 1} (h : Sign.ofBitVec s = Sign.ofBitVec t) : s = t := by
  obtain rfl | rfl := BitVec.eq_zero_or_eq_one s <;> obtain rfl | rfl := BitVec.eq_zero_or_eq_one t
  · rfl
  · cases h
  · cases h
  · rfl

theorem toNat_implicit (m : BitVec 52) : (1#1 ++ m).toNat = 2 ^ 52 + m.toNat := by
  rw [BitVec.toNat_append, ← Nat.shiftLeft_add_eq_or_of_lt m.isLt]
  simp [Nat.shiftLeft_eq]

variable {s : Sign} {m : ℕ} {e : ℤ} {hm : 0 < m}

/-- With the least exponent a significand is as it is stored, and with the others it has a leading
one before that. -/
theorem bits_of_finite (h : UnpackedFloat.unpack Format.binary64 b = .finite s m e hm) :
    Sign.ofBitVec (unpackSign b) = s ∧
      (unpackExponent b = 0#11 ∧ m = (unpackMantissa b).toNat ∨
        e = (unpackExponent b).toNat - 1075 ∧ m = 2 ^ 52 + (unpackMantissa b).toNat) := by
  simp only [UnpackedFloat.unpack] at h
  split_ifs at h with _ _ hleast _
  · injection h with hs hmantissa _
    exact ⟨hs, Or.inl ⟨hleast, hmantissa.symm⟩⟩
  · injection h with hs hmantissa hexponent
    rw [toNat_implicit] at hmantissa
    exact ⟨hs, Or.inr ⟨hexponent.symm, hmantissa.symm⟩⟩

theorem bits_unique (hb : UnpackedFloat.unpack Format.binary64 b = .finite s m e hm)
    (hc : UnpackedFloat.unpack Format.binary64 c = .finite s m e hm) : b = c := by
  obtain ⟨hbs, hb⟩ := bits_of_finite hb
  obtain ⟨hcs, hc⟩ := bits_of_finite hc
  have hsign := ofBitVec_inj (hbs.trans hcs.symm)
  have hbshort : (unpackMantissa b).toNat < 2 ^ 52 := (unpackMantissa b).isLt
  have hcshort : (unpackMantissa c).toNat < 2 ^ 52 := (unpackMantissa c).isLt
  rcases hb with ⟨hbe, hbm⟩ | ⟨hbe, hbm⟩
  · rcases hc with ⟨hce, hcm⟩ | ⟨hce, hcm⟩
    · exact bits_ext hsign (hbe.trans hce.symm) (BitVec.eq_of_toNat_eq (hbm.symm.trans hcm))
    · omega
  · rcases hc with ⟨hce, hcm⟩ | ⟨hce, hcm⟩
    · omega
    · exact bits_ext hsign (BitVec.eq_of_toNat_eq (by omega)) (BitVec.eq_of_toNat_eq (by omega))

end Bits

/-! ## Rank -/

def rank : UnpackedFloat → ℤ ×ₗ ℤ ×ₗ ℤ
  | .finite .negative m e _ => toLex (-1, toLex (-e, -m))
  | .finite .positive m e _ => toLex (1, toLex (e, m))
  | _ => toLex (0, toLex (0, 0))

theorem unpacked_lt_iff {u v : UnpackedFloat} (hu : u.isFinite) (hv : v.isFinite) :
    u.lt v ↔ rank u < rank v := by
  cases u with
  | notANumber => cases hu
  | infinity s => cases hu
  | zero s =>
      cases v with
      | notANumber => cases hv
      | infinity t => cases hv
      | zero t => simp [UnpackedFloat.lt, UnpackedFloat.compare, rank]
      | finite t m e hm =>
          cases t <;> simp [UnpackedFloat.lt, UnpackedFloat.compare, rank, Prod.Lex.toLex_lt_toLex]
  | finite s m e hm =>
      cases v with
      | notANumber => cases hv
      | infinity t => cases hv
      | zero t =>
          cases s <;> simp [UnpackedFloat.lt, UnpackedFloat.compare, rank, Prod.Lex.toLex_lt_toLex]
      | finite t m' e' hm' =>
          cases s <;> cases t <;>
            simp [UnpackedFloat.lt, UnpackedFloat.compare, rank, Prod.Lex.toLex_lt_toLex,
              Ordering.then_eq_lt, Ordering.then_eq_gt, compare_lt_iff_lt, compare_gt_iff_gt]

theorem unpacked_of_pos {u : UnpackedFloat} (hu : u.isFinite)
    (h : (UnpackedFloat.zero .positive).lt u) : ∃ m e hm, u = .finite .positive m e hm := by
  cases u with
  | notANumber => cases hu
  | infinity s => cases hu
  | zero s => cases h
  | finite s m e hm =>
      cases s with
      | negative => cases h
      | positive => exact ⟨m, e, hm, rfl⟩

/-- Of finite values that are not zero no two have one rank. -/
theorem rank_inj {u : UnpackedFloat} {m : ℕ} {e : ℤ} {hm : 0 < m}
    (h : rank u = rank (.finite .positive m e hm)) : u = .finite .positive m e hm := by
  cases u with
  | notANumber => simp [rank] at h
  | infinity s => simp [rank] at h
  | zero s => simp [rank] at h
  | finite s m' e' hm' =>
      cases s with
      | negative => simp [rank] at h
      | positive =>
          obtain ⟨rfl, rfl⟩ : e' = e ∧ m' = m := by simpa [rank] using h
          rfl

theorem zero_le_unsigned (s : Sign) (t : UnpackedFloat) :
    (UnpackedFloat.zero s).le t = (UnpackedFloat.zero .positive).le t := by
  cases t with
  | notANumber => rfl
  | infinity r => cases r <;> rfl
  | zero r => rfl
  | finite r m e hm => cases r <;> rfl

/-- A finite value that exceeds one that is not negative is above zero. -/
theorem unpacked_pos {u t : UnpackedFloat} (hu : u.isFinite)
    (ht : (UnpackedFloat.zero .positive).le t) (h : ¬u.le t) :
    (UnpackedFloat.zero .positive).lt u := by
  cases u with
  | notANumber => cases hu
  | infinity s => cases hu
  | zero s => exact absurd ((zero_le_unsigned s t).trans ht) h
  | finite s m e hm =>
      cases s with
      | positive => rfl
      | negative =>
          cases t with
          | notANumber => cases ht
          | zero s => exact absurd rfl h
          | infinity s =>
              cases s with
              | negative => cases ht
              | positive => exact absurd rfl h
          | finite s m' e' hm' =>
              cases s with
              | negative => cases ht
              | positive => exact absurd rfl h

/-! ## Order -/

section Order

variable {a b c : Float}

theorem lt_iff_unpacked (a b : Float) : a < b ↔ a.toModel.unpack.lt b.toModel.unpack := by
  show decide (a.toModel < b.toModel) = true ↔ _
  rw [decide_eq_true_iff]
  rfl

theorem le_iff_unpacked (a b : Float) : a ≤ b ↔ a.toModel.unpack.le b.toModel.unpack := by
  show decide (a.toModel ≤ b.toModel) = true ↔ _
  rw [decide_eq_true_iff]
  rfl

theorem lt_iff_rank (ha : a.isFinite) (hb : b.isFinite) :
    a < b ↔ rank a.toModel.unpack < rank b.toModel.unpack :=
  (lt_iff_unpacked a b).trans (unpacked_lt_iff ha hb)

theorem lt_asymm (ha : a.isFinite) (hb : b.isFinite) (h : a < b) : ¬b < a := by
  rw [lt_iff_rank ha hb] at h
  rw [lt_iff_rank hb ha]
  exact h.asymm

theorem lt_between (ha : a.isFinite) (hb : b.isFinite) (hc : c.isFinite) (h : a < c) :
    a < b ∨ b < c := by
  rw [lt_iff_rank ha hc] at h
  rw [lt_iff_rank ha hb, lt_iff_rank hb hc]
  exact (lt_or_ge _ _).imp_right fun hle => hle.trans_lt h

theorem unpack_zero : (0 : Float).toModel.unpack = .zero .positive := rfl

/-- Finite doubles above zero of which neither is below the other are equal. -/
theorem eq_of_not_lt (ha : a.isFinite) (hb : b.isFinite) (hpos : 0 < a) (hab : ¬a < b)
    (hba : ¬b < a) : a = b := by
  rw [lt_iff_rank ha hb, not_lt] at hab
  rw [lt_iff_rank hb ha, not_lt] at hba
  rw [lt_iff_unpacked, unpack_zero] at hpos
  obtain ⟨m, e, hm, hunpack⟩ := unpacked_of_pos ha hpos
  have hrank := le_antisymm hba hab
  rw [hunpack] at hrank
  have hbits : a.toModel.toBits.toBitVec = b.toModel.toBits.toBitVec :=
    bits_unique hunpack (rank_inj hrank.symm)
  obtain ⟨⟨bits, _⟩⟩ := a
  obtain ⟨⟨bits', _⟩⟩ := b
  obtain rfl := UInt64.toBitVec_inj.mp hbits
  rfl

theorem pos_of_not_le {t : Float} (ha : a.isFinite) (ht : 0 ≤ t) (h : ¬a ≤ t) : 0 < a := by
  rw [le_iff_unpacked] at h
  rw [le_iff_unpacked, unpack_zero] at ht
  rw [lt_iff_unpacked, unpack_zero]
  exact unpacked_pos ha ht h

theorem unpacked_sub_self {spec : Format} {u : UnpackedFloat} (h : u.isFinite) :
    u.sub spec u = .zero .positive := by
  cases u with
  | notANumber => cases h
  | infinity s => cases h
  | zero s => cases s <;> rfl
  | finite s m e hm =>
      simp only [UnpackedFloat.sub, Int.sub_self, UnpackedFloat.normalize]
      rfl

theorem sub_self {a : Float} (h : a.isFinite) : a - a = 0 := by
  have hzero : (0 : Float) = .ofModel (.pack (.zero .positive)) := by decide +kernel
  have hsub : a - a =
      .ofModel (.pack (UnpackedFloat.sub _ a.toModel.unpack a.toModel.unpack)) := rfl
  rw [hsub, unpacked_sub_self h, hzero]

end Order

/-! ## Infinities and values that are not numbers -/

section Numbers

variable {u v w : UnpackedFloat}

/-- Where a number stands among the others, between the two infinities. -/
def standing : UnpackedFloat → ℤ ×ₗ ℤ ×ₗ ℤ
  | .infinity .negative => toLex (-2, toLex (0, 0))
  | .infinity .positive => toLex (2, toLex (0, 0))
  | u => rank u

theorem standing_of_finite (h : u.isFinite) : standing u = rank u := by
  cases u with
  | notANumber => rfl
  | infinity s => cases h
  | zero s => rfl
  | finite s m e hm => rfl

theorem unpacked_lt_iff_standing (hu : u.isNaN = false) (hv : v.isNaN = false) :
    u.lt v ↔ standing u < standing v := by
  by_cases hfinite : u.isFinite ∧ v.isFinite
  · rw [standing_of_finite hfinite.1, standing_of_finite hfinite.2]
    exact unpacked_lt_iff hfinite.1 hfinite.2
  · -- one of the two is an infinity
    cases u with
    | notANumber => cases hu
    | infinity s =>
        cases v with
        | notANumber => cases hv
        | infinity t => cases s <;> cases t <;> decide
        | zero t =>
            cases s <;>
              simp [UnpackedFloat.lt, UnpackedFloat.compare, standing, rank,
                Prod.Lex.toLex_lt_toLex]
        | finite t m e hm =>
            cases s <;> cases t <;>
              simp [UnpackedFloat.lt, UnpackedFloat.compare, standing, rank,
                Prod.Lex.toLex_lt_toLex]
    | zero s =>
        cases v with
        | notANumber => cases hv
        | infinity t =>
            cases t <;>
              simp [UnpackedFloat.lt, UnpackedFloat.compare, standing, rank,
                Prod.Lex.toLex_lt_toLex]
        | _ => exact absurd ⟨rfl, rfl⟩ hfinite
    | finite s m e hm =>
        cases v with
        | notANumber => cases hv
        | infinity t =>
            cases s <;> cases t <;>
              simp [UnpackedFloat.lt, UnpackedFloat.compare, standing, rank,
                Prod.Lex.toLex_lt_toLex]
        | _ => exact absurd ⟨rfl, rfl⟩ hfinite

/-- Two values compare from either side, or from none. -/
theorem compare_swap (u v : UnpackedFloat) : v.compare u = (u.compare v).map Ordering.swap := by
  cases u with
  | notANumber => cases v <;> rfl
  | infinity s =>
      cases v with
      | infinity t => cases s <;> cases t <;> rfl
      | _ => cases s <;> rfl
  | zero s =>
      cases v with
      | notANumber => rfl
      | zero t => rfl
      | infinity t => cases t <;> rfl
      | finite t m e hm => cases t <;> rfl
  | finite s m e hm =>
      cases v with
      | notANumber => rfl
      | zero t => cases s <;> rfl
      | infinity t => cases t <;> rfl
      | finite t m' e' hm' =>
          have hexponent : compare e' e = (compare e e').swap := Std.OrientedOrd.eq_swap
          have hmantissa : compare m' m = (compare m m').swap := Std.OrientedOrd.eq_swap
          cases s <;> cases t <;>
            simp [UnpackedFloat.compare, hexponent, hmantissa, Ordering.swap_then]

/-- A value compares with another exactly when both are numbers. -/
theorem compare_isSome_iff : (u.compare v).isSome ↔ u.isNaN = false ∧ v.isNaN = false := by
  cases u with
  | notANumber => simp [UnpackedFloat.compare, UnpackedFloat.isNaN]
  | infinity s => cases v <;> cases s <;> simp [UnpackedFloat.compare, UnpackedFloat.isNaN]
  | zero s =>
      cases v with
      | notANumber => simp [UnpackedFloat.compare, UnpackedFloat.isNaN]
      | zero t => simp [UnpackedFloat.compare, UnpackedFloat.isNaN]
      | infinity t => cases t <;> simp [UnpackedFloat.compare, UnpackedFloat.isNaN]
      | finite t m e hm => cases t <;> simp [UnpackedFloat.compare, UnpackedFloat.isNaN]
  | finite s m e hm =>
      cases v with
      | notANumber => simp [UnpackedFloat.compare, UnpackedFloat.isNaN]
      | zero t => cases s <;> simp [UnpackedFloat.compare, UnpackedFloat.isNaN]
      | infinity t => cases t <;> simp [UnpackedFloat.compare, UnpackedFloat.isNaN]
      | finite t m' e' hm' =>
          cases s <;> cases t <;> simp [UnpackedFloat.compare, UnpackedFloat.isNaN]

/-- Of two numbers one is at most the other exactly when the other is not below it. -/
theorem unpacked_le_iff_not_lt (hu : u.isNaN = false) (hv : v.isNaN = false) :
    u.le v ↔ ¬v.lt u := by
  obtain ⟨o, ho⟩ := Option.isSome_iff_exists.mp (compare_isSome_iff.mpr ⟨hu, hv⟩)
  unfold UnpackedFloat.le UnpackedFloat.lt
  rw [compare_swap u v, ho]
  cases o <;> decide

theorem numbers_of_le (h : u.le v) : u.isNaN = false ∧ v.isNaN = false := by
  refine compare_isSome_iff.mp ?_
  unfold UnpackedFloat.le at h
  cases hcompare : u.compare v with
  | none => simp [hcompare] at h
  | some o => rfl

theorem numbers_of_lt (h : u.lt v) : u.isNaN = false ∧ v.isNaN = false := by
  refine compare_isSome_iff.mp ?_
  unfold UnpackedFloat.lt at h
  cases hcompare : u.compare v with
  | none => simp [hcompare] at h
  | some o => rfl

theorem unpacked_lt_of_le_of_lt (huv : u.le v) (hvw : v.lt w) : u.lt w := by
  obtain ⟨hu, hv⟩ := numbers_of_le huv
  obtain ⟨-, hw⟩ := numbers_of_lt hvw
  rw [unpacked_le_iff_not_lt hu hv, unpacked_lt_iff_standing hv hu, not_lt] at huv
  rw [unpacked_lt_iff_standing hv hw] at hvw
  rw [unpacked_lt_iff_standing hu hw]
  exact huv.trans_lt hvw

variable {a b c : Float}

theorem not_lt_of_le (h : a ≤ b) : ¬b < a := by
  rw [le_iff_unpacked] at h
  rw [lt_iff_unpacked]
  obtain ⟨ha, hb⟩ := numbers_of_le h
  exact (unpacked_le_iff_not_lt ha hb).mp h

theorem lt_of_le_of_lt (hab : a ≤ b) (hbc : b < c) : a < c := by
  rw [le_iff_unpacked] at hab
  rw [lt_iff_unpacked] at hbc ⊢
  exact unpacked_lt_of_le_of_lt hab hbc

/-- Two numbers compare, infinite ones too. -/
theorem le_or_lt (ha : a.isNaN = false) (hb : b.isNaN = false) : a ≤ b ∨ b < a := by
  rw [le_iff_unpacked, lt_iff_unpacked, unpacked_le_iff_not_lt ha hb]
  exact (em _).symm

/-- Where a double stands among the others, the two zeros at one place. -/
def place (a : Float) : ℤ ×ₗ ℤ ×ₗ ℤ := standing a.toModel.unpack

theorem lt_iff_place (ha : a.isNaN = false) (hb : b.isNaN = false) : a < b ↔ place a < place b :=
  (lt_iff_unpacked a b).trans (unpacked_lt_iff_standing ha hb)

/-- Two numbers are equal exactly when neither is below the other. -/
theorem unpacked_beq_iff (hu : u.isNaN = false) (hv : v.isNaN = false) :
    u.beq v ↔ ¬u.lt v ∧ ¬v.lt u := by
  obtain ⟨o, ho⟩ := Option.isSome_iff_exists.mp (compare_isSome_iff.mpr ⟨hu, hv⟩)
  unfold UnpackedFloat.beq UnpackedFloat.lt
  rw [compare_swap u v, ho]
  cases o <;> decide

theorem beq_iff_place (ha : a.isNaN = false) (hb : b.isNaN = false) :
    (a == b) = true ↔ place a = place b := by
  change a.toModel.unpack.beq b.toModel.unpack = true ↔ _
  rw [unpacked_beq_iff ha hb, unpacked_lt_iff_standing ha hb, unpacked_lt_iff_standing hb ha,
    not_lt, not_lt]
  exact ⟨fun h => le_antisymm h.2 h.1, fun h => ⟨h.ge, h.le⟩⟩

end Numbers

end Geospatial.Doubles
