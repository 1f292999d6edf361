import Handset.Proofs.Number.Rationals
import Mathlib

/-!
# Differences of doubles

The difference of two finite doubles is taken on machine numbers, which are taken apart into sign,
significand and exponent, subtracted and rounded. If the second one does not pass the first one, the
difference is a zero of either sign, a positive number or positive infinity: rounding keeps the sign.
-/
namespace Handset.Double

open Float.Model Float.Model.UnpackedFloat

variable {d : Double}

/-! ### Machine numbers -/

def sign (d : Double) : Sign :=
  if d.negative then .negative else .positive

/-- A finite double as sign, significand and exponent. -/
def unpacked (d : Double) : UnpackedFloat :=
  if h : d.magnitude.1 = 0 then .zero d.sign
  else .finite d.sign d.magnitude.1 d.magnitude.2 (Nat.pos_of_ne_zero h)

theorem unpacked_zero (h : d.exponentField = 0) (hzero : d.fraction = 0) :
    d.unpacked = .zero d.sign := by
  have hm : d.magnitude.1 = 0 := by rw [magnitude, if_pos h, hzero]
  rw [unpacked, dif_pos hm]

theorem unpacked_subnormal (h : d.exponentField = 0) (hpos : 0 < d.fraction) :
    d.unpacked = .finite d.sign d.fraction (-1074) hpos := by
  have hm : d.magnitude = (d.fraction, -1074) := by rw [magnitude, if_pos h]
  have hne : ¬d.fraction = 0 := by omega
  simp only [unpacked, hm, hne, dite_false]

theorem unpacked_normal (h : d.exponentField ≠ 0) (hpos : 0 < 2 ^ 52 + d.fraction) :
    d.unpacked = .finite d.sign (2 ^ 52 + d.fraction) ((d.exponentField : Int) - 1075) hpos := by
  have hm : d.magnitude = (2 ^ 52 + d.fraction, (d.exponentField : Int) - 1075) := by
    rw [magnitude, if_neg h]
    rfl
  have hne : ¬2 ^ 52 + d.fraction = 0 := by omega
  simp only [unpacked, hm, hne, dite_false]

theorem toNat_unpackExponent (d : Double) :
    (@unpackExponent Format.binary64 d.bits.toBitVec).toNat = d.exponentField := by
  simp [unpackExponent, exponentField]

theorem unpackExponent_ne_last (h : d.isFinite = true) :
    @unpackExponent Format.binary64 d.bits.toBitVec ≠ -1#_ := by
  rw [← BitVec.toNat_ne_iff_ne, toNat_unpackExponent]
  exact isFinite_iff.mp h

theorem toNat_unpackMantissa (d : Double) :
    (@unpackMantissa Format.binary64 d.bits.toBitVec).toNat = d.fraction := by
  simp [unpackMantissa, fraction]

theorem ofBitVec_unpackSign (d : Double) :
    Sign.ofBitVec (@unpackSign Format.binary64 d.bits.toBitVec) = d.sign := by
  have hlt : d.bits.toNat < 2 ^ 64 := d.bits.toNat_lt
  have hsign : (@unpackSign Format.binary64 d.bits.toBitVec).toNat = d.bits.toNat / 2 ^ 63 := by
    rw [unpackSign, BitVec.toNat_cast, BitVec.extractLsb_toNat, Nat.shiftRight_eq_div_pow]
    exact Nat.mod_eq_of_lt (Nat.div_lt_of_lt_mul hlt)
  have hzero : @unpackSign Format.binary64 d.bits.toBitVec = 0#1 ↔ ¬d.negative = true := by
    rw [negative_iff, ← BitVec.toNat_inj, hsign, BitVec.toNat_ofNat]
    omega
  by_cases h : d.negative = true <;> simp [Sign.ofBitVec, sign, hzero, h]

/-- The machine number of a finite double has the same sign, significand and exponent. -/
theorem unpack_bits (h : d.isFinite = true) :
    UnpackedFloat.unpack Format.binary64 d.bits.toBitVec = d.unpacked := by
  have hfirst : @unpackExponent Format.binary64 d.bits.toBitVec = 0#_ ↔ d.exponentField = 0 := by
    rw [← BitVec.toNat_inj, toNat_unpackExponent]
    rfl
  have hnone : @unpackMantissa Format.binary64 d.bits.toBitVec = 0#_ ↔ d.fraction = 0 := by
    rw [← BitVec.toNat_inj, toNat_unpackMantissa]
    rfl
  have hlead : (1#1 ++ @unpackMantissa Format.binary64 d.bits.toBitVec).toNat = 2 ^ 52 + d.fraction := by
    rw [BitVec.toNat_append, ← Nat.shiftLeft_add_eq_or_of_lt (BitVec.isLt _), toNat_unpackMantissa]
    rfl
  unfold UnpackedFloat.unpack
  simp only [ofBitVec_unpackSign, toNat_unpackExponent, toNat_unpackMantissa, hlead]
  rw [if_neg (unpackExponent_ne_last h)]
  by_cases hsmall : d.exponentField = 0
  · rw [if_pos (hfirst.mpr hsmall)]
    by_cases hzero : d.fraction = 0
    · rw [dif_pos (hnone.mpr hzero), unpacked_zero hsmall hzero]
    · simp only [dif_neg (mt hnone.mp hzero), hsmall]
      rw [unpacked_subnormal hsmall (Nat.pos_of_ne_zero hzero)]
      rfl
  · rw [if_neg (mt hfirst.mp hsmall), unpacked_normal hsmall (by omega)]
    rfl

/-- A finite double loses nothing when it becomes a machine number. -/
theorem unpack_toFloat (h : d.isFinite = true) : d.toFloat.toModel.unpack = d.unpacked := by
  have hnumber : ¬@isNaNBits Format.binary64 d.bits.toBitVec = true := by
    simp only [isNaNBits, unpackExponent_ne_last h, false_and, decide_false, Bool.false_eq_true,
      not_false_eq_true]
  have hpack : UnpackedFloat.pack Format.binary64 (UnpackedFloat.unpack Format.binary64 d.bits.toBitVec) =
      d.bits.toBitVec := by
    rw [pack_unpack, if_neg hnumber]
  calc d.toFloat.toModel.unpack
      = UnpackedFloat.unpack Format.binary64
          (UnpackedFloat.pack Format.binary64 (UnpackedFloat.unpack Format.binary64 d.bits.toBitVec)) := rfl
    _ = d.unpacked := by rw [hpack, unpack_bits h]

/-! ### Differences -/

/-- A zero of either sign or a positive number. -/
def Upward : UnpackedFloat → Prop
  | .zero _ => True
  | .finite s _ _ _ => s = .positive
  | _ => False

/-- The number that a finite machine number stands for. -/
def worth : UnpackedFloat → ℚ
  | .finite s m e _ => s.apply m * 2 ^ e
  | _ => 0

theorem worth_unpacked (d : Double) : worth d.unpacked = d.value := by
  unfold unpacked value
  split
  next h => simp [worth, h]
  next => by_cases hs : d.negative = true <;> simp [worth, sign, Sign.apply, hs]

theorem unpacked_cases (d : Double) :
    (∃ s, d.unpacked = .zero s) ∨ ∃ s m e h, d.unpacked = .finite s m e h := by
  unfold unpacked
  split
  · exact .inl ⟨_, rfl⟩
  next h => exact .inr ⟨_, _, _, Nat.pos_of_ne_zero h, rfl⟩

theorem upward_round (spec : Format) (m : Nat) (e : Int) :
    Upward (UnpackedFloat.round spec .positive m e) := by
  simp only [UnpackedFloat.round, roundWithAccuracy]
  split
  · trivial
  · rfl

theorem upward_normalize (spec : Format) {m : Int} (h : 0 ≤ m) (e : Int) :
    Upward (UnpackedFloat.normalize spec m e .positive) := by
  unfold UnpackedFloat.normalize
  split
  next hlt => exact absurd h (Int.not_le.mpr (Int.compare_eq_lt.mp hlt))
  next => trivial
  next => exact upward_round _ _ _

theorem aligned (s : Sign) (m : Nat) {e e' : Int} (h : e' ≤ e) :
    ((s.apply ((decreaseExponent m e e').1 : Int) : Int) : ℚ) * 2 ^ e' = s.apply m * 2 ^ e := by
  have hm : ((decreaseExponent m e e').1 : ℚ) * 2 ^ e' = m * 2 ^ e := by
    have hexp : e = ((e - e').toNat : Int) + e' := by omega
    rw [decreaseExponent, Nat.shiftLeft_eq, Nat.cast_mul, Nat.cast_pow]
    conv_rhs => rw [hexp, zpow_add₀ (by norm_num), zpow_natCast]
    push_cast
    ring
  cases s with
  | positive => simpa [Sign.apply] using hm
  | negative => simpa [Sign.apply] using hm

theorem upward_sub {a b : Double} (h : b.value ≤ a.value) :
    Upward (UnpackedFloat.sub Format.binary64 a.unpacked b.unpacked) := by
  rw [← worth_unpacked, ← worth_unpacked] at h
  rcases unpacked_cases a with ⟨s, ha⟩ | ⟨s, m, e, hm, ha⟩ <;>
    rcases unpacked_cases b with ⟨s', hb⟩ | ⟨s', m', e', hm', hb⟩ <;> rw [ha, hb] at h ⊢
  · unfold UnpackedFloat.sub
    dsimp only
    split <;> trivial
  · cases s' with
    | negative => rfl
    | positive =>
      have hpos : (0 : ℚ) < m' * 2 ^ e' := by positivity
      exact absurd h (not_le.mpr (by simpa [worth, Sign.apply] using hpos))
  · cases s with
    | positive => rfl
    | negative =>
      have hpos : (0 : ℚ) < m * 2 ^ e := by positivity
      exact absurd h (not_le.mpr (by simpa [worth, Sign.apply] using hpos))
  · unfold UnpackedFloat.sub
    apply upward_normalize
    have hpow : (0 : ℚ) < 2 ^ min e e' := by positivity
    have halign := aligned s m (min_le_left e e')
    have halign' := aligned s' m' (min_le_right e e')
    dsimp only [worth] at h
    rw [← halign, ← halign'] at h
    have hle := le_of_mul_le_mul_right h hpow
    exact Int.sub_nonneg.mpr (by exact_mod_cast hle)

theorem sub_eq_pack {a b : Double} (ha : a.isFinite = true) (hb : b.isFinite = true) :
    a.sub b =
      ⟨UInt64.ofBitVec (UnpackedFloat.pack Format.binary64
        (UnpackedFloat.sub Format.binary64 a.unpacked b.unpacked))⟩ := by
  rw [← unpack_toFloat ha, ← unpack_toFloat hb]
  rfl

section Components

variable (s : Sign) (exponent : BitVec 11) (mantissa : BitVec 52)

/-- The double with the given parts. -/
def ofComponents : Double :=
  ⟨UInt64.ofBitVec (packComponents Format.binary64 s exponent mantissa)⟩

theorem toNat_bits_ofComponents :
    (ofComponents s exponent mantissa).bits.toNat =
      s.toBitVec.toNat * 2 ^ 63 + exponent.toNat * 2 ^ 52 + mantissa.toNat := by
  have hexponent : exponent.toNat < 2 ^ 11 := exponent.isLt
  have hmantissa : mantissa.toNat < 2 ^ 52 := mantissa.isLt
  have hbits : (ofComponents s exponent mantissa).bits.toNat =
      (s.toBitVec ++ exponent ++ mantissa).toNat := rfl
  rw [hbits, BitVec.toNat_append, BitVec.toNat_append, ← Nat.shiftLeft_add_eq_or_of_lt hexponent,
    ← Nat.shiftLeft_add_eq_or_of_lt hmantissa, Nat.shiftLeft_eq, Nat.shiftLeft_eq]
  omega

theorem negative_ofComponents_positive : (ofComponents .positive exponent mantissa).negative = false := by
  have hexponent : exponent.toNat < 2 ^ 11 := exponent.isLt
  have hmantissa : mantissa.toNat < 2 ^ 52 := mantissa.isLt
  rw [← Bool.not_eq_true, negative_iff, toNat_bits_ofComponents]
  simp only [Sign.toBitVec, BitVec.toNat_ofNat]
  omega

theorem exponentField_ofComponents : (ofComponents s exponent mantissa).exponentField = exponent.toNat := by
  have hexponent : exponent.toNat < 2 ^ 11 := exponent.isLt
  have hmantissa : mantissa.toNat < 2 ^ 52 := mantissa.isLt
  rw [exponentField_eq, toNat_bits_ofComponents]
  omega

theorem fraction_ofComponents : (ofComponents s exponent mantissa).fraction = mantissa.toNat := by
  have hmantissa : mantissa.toNat < 2 ^ 52 := mantissa.isLt
  rw [fraction_eq, toNat_bits_ofComponents]
  omega

end Components

/-- A number that is no less than zero, or positive infinity. -/
def NotNegative (d : Double) : Prop :=
  d.isNaN = false ∧ (d.negative = false ∨ d.isZero = true)

theorem notNegative_ofComponents {exponent : BitVec 11} {mantissa : BitVec 52}
    (h : exponent.toNat = 2047 → mantissa.toNat = 0) :
    (ofComponents .positive exponent mantissa).NotNegative := by
  refine ⟨?_, .inl (negative_ofComponents_positive _ _)⟩
  simpa [isNaN, exponentField_ofComponents, fraction_ofComponents] using h

theorem notNegative_pack {u : UnpackedFloat} (h : Upward u) :
    NotNegative ⟨UInt64.ofBitVec (UnpackedFloat.pack Format.binary64 u)⟩ := by
  cases u with
  | notANumber => exact h.elim
  | infinity s => exact h.elim
  | zero s => cases s <;> exact ⟨by decide, by decide⟩
  | finite s m e hm =>
    obtain rfl : s = .positive := h
    simp only [UnpackedFloat.pack]
    split
    · exact notNegative_ofComponents fun _ => rfl
    next hsmall =>
      split
      · refine notNegative_ofComponents fun hlast => ?_
        rw [BitVec.toNat_ofNat] at hlast
        omega
      · exact notNegative_ofComponents fun hlast => absurd hlast (by decide)

theorem notNegative_sub {a b : Double} (ha : a.isFinite = true) (hb : b.isFinite = true)
    (h : b.value ≤ a.value) : (a.sub b).NotNegative := by
  rw [sub_eq_pack ha hb]
  exact notNegative_pack (upward_sub h)

end Handset.Double

namespace Handset.Num

open Double

/-- Neither a negative number nor undefined, and so at least zero. -/
theorem zero_le_of_notNegative {d : Double} (h : d.NotNegative) : (int 0).le (double d) = true := by
  obtain ⟨hnan, hsign⟩ := h
  by_cases hfinite : d.isFinite = true
  · rw [int_le_iff (c := double d) hfinite, Int.cast_zero, value, Double.value]
    rcases hsign with hneg | hzero
    · rw [hneg, if_neg Bool.false_ne_true, one_mul]
      positivity
    · obtain ⟨hfield, hfraction⟩ := isZero_iff.mp hzero
      simp [magnitude, hfield, hfraction]
  · have hlast : d.exponentField = 2047 := by simpa [Double.isFinite] using hfinite
    have hinf : d.isInfinite = true := by simpa [isInfinite, isNaN, hlast] using hnan
    have hneg : d.negative = false := by
      refine hsign.resolve_right fun hzero => ?_
      have hfirst := (isZero_iff.mp hzero).1
      omega
    simp [Num.le, Num.lt, hnan, hinf, hneg]

end Handset.Num
