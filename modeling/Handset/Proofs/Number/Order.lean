import Handset.Proofs.Number.Differences

/-!
# The order of doubles

Positive finite doubles are ordered as their bits, since the exponent stands above the fraction. The bits of a
rounded quotient are in turn bounded from below: a quotient of at least one half that is at least a multiple
of `2 ^ -53` is rounded to no less than this multiple.
-/
namespace Handset.Double

open Float.Model Float.Model.UnpackedFloat

variable {a b d : Double}

/-! ### Bits -/

theorem bits_eq (h : d.bits.toNat < 2047 * 2 ^ 52) :
    d.bits.toNat = d.exponentField * 2 ^ 52 + d.fraction ∧ d.exponentField < 2047 ∧
      d.fraction < 2 ^ 52 := by
  rw [exponentField_eq, fraction_eq]
  omega

theorem unpack_of_bits (hsmall : 2 ^ 52 ≤ d.bits.toNat) (hlarge : d.bits.toNat < 2047 * 2 ^ 52) :
    ∃ h, d.toFloat.toModel.unpack =
      .finite .positive (2 ^ 52 + d.fraction) ((d.exponentField : Int) - 1075) h := by
  obtain ⟨hbits, hfield, hfraction⟩ := bits_eq hlarge
  have hneg : ¬d.negative = true := by
    rw [negative_iff]
    omega
  have hsign : d.sign = .positive := by rw [sign, if_neg hneg]
  have hnormal : d.exponentField ≠ 0 := by omega
  have hpos : 0 < 2 ^ 52 + d.fraction := by omega
  refine ⟨hpos, ?_⟩
  rw [unpack_toFloat (isFinite_iff.mpr hfield.ne), unpacked_normal hnormal hpos, hsign]

theorem compare_finite {m n : Nat} {e f : Int} {hm : 0 < m} {hn : 0 < n}
    (h : e < f ∨ e = f ∧ m < n) :
    UnpackedFloat.compare (.finite .positive m e hm) (.finite .positive n f hn) = some .lt := by
  rcases h with h | ⟨rfl, h⟩
  · simp [UnpackedFloat.compare, Int.compare_eq_lt.mpr h]
  · simp [UnpackedFloat.compare, Nat.compare_eq_lt.mpr h]

/-- Positive normal doubles are ordered as their bits. -/
theorem lt_of_bits_lt (hsmall : 2 ^ 52 ≤ a.bits.toNat) (hlarge : b.bits.toNat < 2047 * 2 ^ 52)
    (h : a.bits.toNat < b.bits.toNat) : a.lt b = true := by
  obtain ⟨hm, ha⟩ := unpack_of_bits hsmall (h.trans hlarge)
  obtain ⟨hn, hb⟩ := unpack_of_bits (hsmall.trans h.le) hlarge
  obtain ⟨habits, -, hafraction⟩ := bits_eq (h.trans hlarge)
  obtain ⟨hbbits, -, hbfraction⟩ := bits_eq hlarge
  have hcompare : a.toFloat.toModel.unpack.compare b.toFloat.toModel.unpack = some .lt := by
    rw [ha, hb]
    apply compare_finite
    omega
  have hlt : a.toFloat.toModel.unpack.lt b.toFloat.toModel.unpack = true := by
    rw [UnpackedFloat.lt, hcompare]
    rfl
  exact decide_eq_true (decide_eq_true hlt)

/-! ### Quotients from below -/

variable {num den : Nat}

/-- The last place of a quotient of at least one half. -/
theorem le_lastPlace (hden : 0 < den) (hhalf : den ≤ 2 * num) : -53 ≤ lastPlace num den := by
  have hnum : num ≠ 0 := by omega
  have hlog : den.log2 ≤ num.log2 + 1 := by
    rw [← Nat.log2_two_mul hnum, Nat.le_log2 (by omega)]
    exact (Nat.log2_self_le hden.ne').trans hhalf
  unfold lastPlace
  generalize hE : (num.log2 : Int) - den.log2 - 52 = E
  have hE' : -53 ≤ E := by omega
  -- at `-53` itself the quotient is not too short, since it is at least one half
  have hlong (h : E = -53) : ¬num <<< (-E).toNat < den <<< 52 := by
    have hshift : (-E).toNat = 53 := by omega
    rw [hshift, Nat.shiftLeft_eq, Nat.shiftLeft_eq]
    omega
  by_cases h : E = -53
  · have hneg : ¬0 ≤ E := by omega
    simp only [hneg, hlong h, if_false, decide_false, Bool.false_eq_true]
    omega
  · dsimp only
    split <;> omega

theorem le_scaledQuotient {k n : Nat} {e : Int} (hden : 0 < den) (he : e = -(n + 1 : Nat))
    (h : k * den ≤ num * 2 ^ (n + 1)) : k ≤ scaledQuotient num den e := by
  have hneg : ¬0 ≤ e := by omega
  have hshift : (-e).toNat = n + 1 := by omega
  rw [scaledQuotient, if_neg hneg, hshift, Nat.shiftLeft_eq]
  exact le_roundQuotient hden h

/-- A quotient of at least one half and at least `2 * k` times `2 ^ -53` is rounded to no less. -/
theorem le_bits_of_ofRatio? {k : Nat} (hden : 0 < den) (hhalf : den ≤ 2 * num) (hk : k ≤ 2 ^ 52)
    (h : k * den ≤ num * 2 ^ 52) (hd : ofRatio? false num den = some d) :
    1021 * 2 ^ 52 + 2 * k ≤ d.bits.toNat ∧ d.bits.toNat < 2047 * 2 ^ 52 := by
  have hnum : num ≠ 0 := by omega
  have hplace := le_lastPlace hden hhalf
  rw [ofRatio?, if_neg hnum] at hd
  dsimp only at hd
  generalize lastPlace num den = e at hd hplace
  have hq (he : e = -53) : 2 * k ≤ scaledQuotient num den e :=
    le_scaledQuotient (n := 52) hden he (by rw [Nat.mul_assoc]; omega)
  have hq' (he : e = -52) : k ≤ scaledQuotient num den e := le_scaledQuotient (n := 51) hden he h
  generalize scaledQuotient num den e = q at hd hq hq'
  split at hd
  next hlarge =>
    obtain rfl := Option.some.inj hd
    rw [Nat.shiftLeft_eq, Nat.shiftLeft_eq] at hlarge
    rw [Nat.shiftLeft_eq, ofFields, UInt64.toNat_ofNat']
    simp only [Bool.false_eq_true, if_false, Nat.add_zero]
    omega
  next => cases hd

end Handset.Double
