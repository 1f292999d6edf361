import Handset.Proofs.Number.Quotients
import Handset.Value
import Mathlib.Algebra.Order.Field.Power
import Mathlib.Algebra.Order.Ring.Rat
import Mathlib.Tactic.Linarith

/-!
# The numbers that doubles stand for

A finite double stands for a rational number. Integers are compared with doubles as with these numbers,
without rounding. An integer that is rounded to a double may go up, but never past a finite double that it
did not pass before.
-/
namespace Handset.Double

variable {d : Double}

/-- The number that a finite double stands for. -/
def value (d : Double) : ℚ :=
  (if d.negative then -1 else 1) * (d.magnitude.1 * 2 ^ d.magnitude.2)

theorem exponentField_eq (d : Double) : d.exponentField = d.bits.toNat / 2 ^ 52 % 2 ^ 11 := by
  rw [exponentField, Nat.shiftRight_eq_div_pow]
  rfl

theorem fraction_eq (d : Double) : d.fraction = d.bits.toNat % 2 ^ 52 := rfl

theorem negative_iff : d.negative = true ↔ 2 ^ 63 ≤ d.bits.toNat := decide_eq_true_iff

theorem isFinite_iff : d.isFinite = true ↔ d.exponentField ≠ 2047 := by
  simp [isFinite]

theorem isZero_iff : d.isZero = true ↔ d.exponentField = 0 ∧ d.fraction = 0 := by
  have hlt : d.bits.toNat < 2 ^ 64 := d.bits.toNat_lt
  have hbits : d.isZero = true ↔ d.bits.toNat % 2 ^ 63 = 0 := beq_iff_eq
  rw [hbits, exponentField_eq, fraction_eq]
  omega

/-! ### Order -/

theorem ratio_pos (d : Double) : 0 < d.ratio.2 := by
  unfold ratio
  split
  split
  · exact Nat.one_pos
  · rw [Nat.shiftLeft_eq, Nat.one_mul]
    exact Nat.two_pow_pos _

theorem ratio_eq (d : Double) : (d.ratio.1 : ℚ) = d.magnitude.1 * 2 ^ d.magnitude.2 * d.ratio.2 := by
  unfold ratio
  rcases d.magnitude with ⟨m, q⟩
  dsimp only
  split
  next h =>
    have hq : (q.toNat : Int) = q := Int.toNat_of_nonneg h
    have hpow : (2 : ℚ) ^ q.toNat = 2 ^ q := by rw [← zpow_natCast, hq]
    simp [Nat.shiftLeft_eq, hpow]
  next h =>
    have hq : ((-q).toNat : Int) = -q := Int.toNat_of_nonneg (by omega)
    have hpow : (2 : ℚ) ^ (-q).toNat = 2 ^ (-q) := by rw [← zpow_natCast, hq]
    have hne : (2 : ℚ) ^ q ≠ 0 := by positivity
    simp [Nat.shiftLeft_eq, hpow, mul_assoc, mul_inv_cancel₀ hne]

theorem compareInt_spec (i : Int) (d : Double) :
    (compareInt i d = .lt ↔ (i : ℚ) < d.value) ∧ (compareInt i d = .gt ↔ d.value < i) := by
  have hpos : (0 : ℚ) < d.ratio.2 := by exact_mod_cast ratio_pos d
  obtain ⟨n, hn, hcompare⟩ : ∃ n : Int, (n : ℚ) = d.value * d.ratio.2 ∧
      compareInt i d = compare (i * (d.ratio.2 : Int)) n := by
    refine ⟨if d.negative then -(d.ratio.1 : Int) else d.ratio.1, ?_, rfl⟩
    rw [value]
    split
    · rw [Int.cast_neg, Int.cast_natCast, ratio_eq]
      ring
    · rw [Int.cast_natCast, ratio_eq]
      ring
  have hscaled : ((i * (d.ratio.2 : Int) : Int) : ℚ) = i * d.ratio.2 := by push_cast; rfl
  rw [hcompare, Int.compare_eq_lt, Int.compare_eq_gt, ← Int.cast_lt (R := ℚ), ← Int.cast_lt (R := ℚ),
    hscaled, hn, mul_lt_mul_iff_left₀ hpos, mul_lt_mul_iff_left₀ hpos]
  exact ⟨Iff.rfl, Iff.rfl⟩

end Handset.Double

namespace Handset.Num

open Double

/-- The number that a finite number stands for. -/
def value : Num → ℚ
  | int i => i
  | double d => d.value

def isFinite : Num → Bool
  | int _ => true
  | double d => d.isFinite

variable {c : Num}

theorem not_isNaN_of_isFinite {d : Double} (h : d.isFinite = true) :
    d.isNaN = false ∧ d.isInfinite = false := by
  rw [isFinite_iff] at h
  simp [isNaN, isInfinite, h]

theorem lt_int_iff (hc : c.isFinite = true) (i : Int) : c.lt (int i) = true ↔ c.value < i := by
  cases c with
  | int j => simp [Num.lt, value]
  | double d =>
    obtain ⟨hnan, hinf⟩ := not_isNaN_of_isFinite hc
    simp only [Num.lt, hnan, hinf, Bool.false_eq_true, if_false, beq_iff_eq]
    exact (compareInt_spec i d).2

theorem int_le_iff (hc : c.isFinite = true) (i : Int) : (int i).le c = true ↔ (i : ℚ) ≤ c.value := by
  cases c with
  | int j => simp [Num.le, Num.lt, Num.eq, value, ← Int.le_iff_lt_or_eq]
  | double d =>
    obtain ⟨hnan, hinf⟩ := not_isNaN_of_isFinite hc
    have hfinite : d.isFinite = true := hc
    obtain ⟨hlt, hgt⟩ := compareInt_spec i d
    have hle : (compareInt i d = .lt ∨ compareInt i d = .eq) ↔ ¬compareInt i d = .gt := by
      cases compareInt i d <;> simp
    simp only [Num.le, Num.lt, Num.eq, hnan, hinf, hfinite, Bool.false_eq_true, if_false, Bool.true_and,
      Bool.or_eq_true, beq_iff_eq]
    rw [hle, hgt, not_lt]
    rfl

/-- Only finite numbers equal an integer, and exactly the one that they stand for. -/
theorem eq_int_iff (c : Num) (i : Int) : c.eq (int i) = true ↔ c.isFinite = true ∧ c.value = i := by
  cases c with
  | int j => simp [Num.eq, isFinite, value]
  | double d =>
    obtain ⟨hlt, hgt⟩ := compareInt_spec i d
    have heq : compareInt i d = .eq ↔ ¬compareInt i d = .lt ∧ ¬compareInt i d = .gt := by
      cases compareInt i d <;> simp
    simp only [Num.eq, Bool.and_eq_true, beq_iff_eq]
    rw [heq, hlt, hgt, not_lt, not_lt, ← le_antisymm_iff]
    rfl

end Handset.Num

namespace Handset.Double

/-! ### Rounding an integer -/

theorem roundQuotient_le_of_le {num den k : Nat} (hden : 0 < den) (h : num ≤ k * den) :
    roundQuotient num den ≤ k := by
  rcases Nat.lt_or_eq_of_le h with hlt | rfl
  · exact roundQuotient_le hlt
  · unfold roundQuotient
    rw [Nat.mul_div_cancel _ hden, Nat.mul_mod_left]
    simp only [Nat.mul_zero]
    rw [if_neg (by omega)]

theorem le_roundQuotient {num den k : Nat} (hden : 0 < den) (h : k * den ≤ num) :
    k ≤ roundQuotient num den := by
  have hq : k ≤ num / den := (Nat.le_div_iff_mul_le hden).mpr h
  unfold roundQuotient
  dsimp only
  split <;> omega

theorem lastPlace_one {n : Nat} (hn : n ≠ 0) : lastPlace n 1 = (n.log2 : Int) - 52 := by
  have hlog : Nat.log2 1 = 0 := by decide
  have hle := Nat.log2_self_le hn
  have hshort : ∀ k, ¬n * 2 ^ k < 2 ^ (n.log2 + k) := by
    intro k
    rw [Nat.pow_add]
    exact Nat.not_lt.mpr (Nat.mul_le_mul_right _ hle)
  unfold lastPlace
  simp only [hlog, Nat.shiftLeft_eq, Nat.one_mul, Int.sub_zero, Nat.cast_zero]
  split
  next he =>
    have hexp : 52 + ((n.log2 : Int) - 52).toNat = n.log2 := by omega
    rw [hexp, decide_eq_false (Nat.not_lt.mpr hle), if_neg Bool.false_ne_true]
    omega
  next he =>
    have hexp : n.log2 + (-((n.log2 : Int) - 52)).toNat = 52 := by omega
    have hnot := hshort (-((n.log2 : Int) - 52)).toNat
    rw [hexp] at hnot
    rw [decide_eq_false hnot, if_neg Bool.false_ne_true]
    omega

theorem magnitude_lt (d : Double) : d.magnitude.1 < 2 ^ 53 := by
  have hfraction : d.fraction < 2 ^ 52 := Nat.mod_lt _ (by decide)
  unfold magnitude
  split <;> dsimp only <;> omega

theorem magnitude_exponent_le {d : Double} (h : d.isFinite = true) : d.magnitude.2 ≤ 971 := by
  have hfield : d.exponentField < 2048 := Nat.mod_lt _ (by decide)
  have hlast := isFinite_iff.mp h
  unfold magnitude
  split <;> dsimp only <;> omega

/-- A significand of 53 bits, or the next one, with the exponent that its place gives. -/
theorem value_ofFields {place m : Nat} (hle : 2 ^ 52 ≤ m) (hm : m ≤ 2 ^ 53)
    (hlt : place * 2 ^ 52 + m < 2047 * 2 ^ 52) :
    (ofFields false (place * 2 ^ 52 + m)).isFinite = true ∧
      (ofFields false (place * 2 ^ 52 + m)).value = m * 2 ^ ((place : Int) - 1074) := by
  generalize hd : ofFields false (place * 2 ^ 52 + m) = d
  have hbits : d.bits.toNat = place * 2 ^ 52 + m := by
    rw [← hd]
    simp only [ofFields, Bool.false_eq_true, if_false, Nat.add_zero, UInt64.toNat_ofNat']
    omega
  have hneg : ¬d.negative = true := by
    rw [negative_iff, hbits]
    omega
  rw [isFinite_iff, value, if_neg hneg, one_mul]
  rcases Nat.lt_or_eq_of_le hm with hshort | rfl
  · have hfield : d.exponentField = place + 1 := by rw [exponentField_eq, hbits]; omega
    have hfraction : d.fraction = m - 2 ^ 52 := by rw [fraction_eq, hbits]; omega
    have hmagnitude : d.magnitude = (m, (place : Int) - 1074) := by
      rw [magnitude, if_neg (by omega), hfield, hfraction]
      exact Prod.ext (by omega) (by dsimp only; omega)
    rw [hmagnitude]
    exact ⟨by omega, rfl⟩
  · have hfield : d.exponentField = place + 2 := by rw [exponentField_eq, hbits]; omega
    have hfraction : d.fraction = 0 := by rw [fraction_eq, hbits]; omega
    have hmagnitude : d.magnitude = (2 ^ 52, (place : Int) - 1074 + 1) := by
      rw [magnitude, if_neg (by omega), hfield, hfraction]
      exact Prod.ext rfl (by dsimp only; omega)
    rw [hmagnitude, zpow_add_one₀ (by norm_num)]
    refine ⟨by omega, ?_⟩
    push_cast
    ring

section Rounding

variable {n : Nat}

theorem scaledQuotient_one_bounds (hn : n ≠ 0) :
    2 ^ 52 ≤ scaledQuotient n 1 ((n.log2 : Int) - 52) ∧
      scaledQuotient n 1 ((n.log2 : Int) - 52) ≤ 2 ^ 53 := by
  have hle := Nat.log2_self_le hn
  have hlt : n < 2 ^ (n.log2 + 1) := Nat.lt_log2_self
  unfold scaledQuotient
  split
  next he =>
    have hexp : n.log2 = 52 + ((n.log2 : Int) - 52).toNat := by omega
    generalize ((n.log2 : Int) - 52).toNat = k at hexp
    rw [hexp] at hle hlt
    rw [Nat.shiftLeft_eq, Nat.one_mul]
    refine ⟨le_roundQuotient (Nat.two_pow_pos _) ?_, roundQuotient_le ?_⟩
    · rwa [← Nat.pow_add]
    · rwa [← Nat.pow_add, Nat.add_right_comm] at *
  next he =>
    have hexp : n.log2 + (-((n.log2 : Int) - 52)).toNat = 52 := by omega
    generalize (-((n.log2 : Int) - 52)).toNat = k at hexp
    rw [Nat.shiftLeft_eq]
    refine ⟨le_roundQuotient Nat.one_pos ?_, roundQuotient_le ?_⟩
    · rw [Nat.mul_one, ← hexp, Nat.pow_add]
      exact Nat.mul_le_mul_right _ hle
    · have hexp' : n.log2 + 1 + k = 53 := by omega
      rw [Nat.mul_one, ← hexp', Nat.pow_add]
      exact Nat.mul_lt_mul_of_pos_right hlt (Nat.two_pow_pos _)

/-- Rounding an integer does not take it past a number with a significand of 53 bits. -/
theorem scaledQuotient_one_le {m : Nat} {q : Int} (hn : n ≠ 0) (hm : m < 2 ^ 53)
    (h : (n : ℚ) ≤ m * 2 ^ q) :
    (scaledQuotient n 1 ((n.log2 : Int) - 52) : ℚ) * 2 ^ ((n.log2 : Int) - 52) ≤ m * 2 ^ q := by
  have hle := Nat.log2_self_le hn
  unfold scaledQuotient
  split
  next he =>
    -- the number is a multiple of the last place, so rounding up stops there
    have hpow : (2 : ℚ) ^ (n.log2 : Int) < 2 ^ (53 + q) := by
      have hlog : (2 : ℚ) ^ (n.log2 : Int) ≤ n := by exact_mod_cast hle
      have hm' : (m : ℚ) < 2 ^ (53 : Int) := by exact_mod_cast hm
      have hq : (0 : ℚ) < 2 ^ q := by positivity
      rw [zpow_add₀ (by norm_num)]
      exact (hlog.trans h).trans_lt (mul_lt_mul_of_pos_right hm' hq)
    have hexp := (zpow_lt_zpow_iff_right₀ (by norm_num : (1 : ℚ) < 2)).mp hpow
    obtain ⟨k, hk⟩ : ∃ k : Nat, q = ((n.log2 : Int) - 52) + k :=
      ⟨(q - ((n.log2 : Int) - 52)).toNat, by omega⟩
    have hplace : (2 : ℚ) ^ ((n.log2 : Int) - 52) = 2 ^ ((n.log2 : Int) - 52).toNat := by
      rw [← zpow_natCast, Int.toNat_of_nonneg he]
    generalize ((n.log2 : Int) - 52).toNat = j at *
    rw [hk, zpow_add₀ (by norm_num), hplace, zpow_natCast] at h
    rw [hk, zpow_add₀ (by norm_num), hplace, zpow_natCast]
    have hmultiple : n ≤ m * 2 ^ k * 2 ^ j := by
      have : (n : ℚ) ≤ ((m * 2 ^ k * 2 ^ j : Nat) : ℚ) := by
        push_cast
        linarith
      exact_mod_cast this
    have hround : roundQuotient n (1 <<< j) ≤ m * 2 ^ k := by
      rw [Nat.shiftLeft_eq, Nat.one_mul]
      exact roundQuotient_le_of_le (Nat.two_pow_pos _) hmultiple
    have hround' : (roundQuotient n (1 <<< j) : ℚ) ≤ m * 2 ^ k := by exact_mod_cast hround
    have hj : (0 : ℚ) < 2 ^ j := by positivity
    calc (roundQuotient n (1 <<< j) : ℚ) * 2 ^ j ≤ m * 2 ^ k * 2 ^ j :=
          mul_le_mul_of_nonneg_right hround' hj.le
      _ = m * (2 ^ j * 2 ^ k) := by ring
  next he =>
    -- an integer of at most 52 bits is not rounded
    have hround : roundQuotient (n <<< (-((n.log2 : Int) - 52)).toNat) 1 ≤
        n * 2 ^ (-((n.log2 : Int) - 52)).toNat := by
      rw [Nat.shiftLeft_eq]
      exact roundQuotient_le_of_le Nat.one_pos (Nat.le_of_eq (Nat.mul_one _).symm)
    have hround' : (roundQuotient (n <<< (-((n.log2 : Int) - 52)).toNat) 1 : ℚ) ≤
        n * 2 ^ (-((n.log2 : Int) - 52)) := by
      have hexp : ((-((n.log2 : Int) - 52)).toNat : Int) = -((n.log2 : Int) - 52) := by omega
      rw [← hexp, zpow_natCast]
      exact_mod_cast hround
    have hpos : (0 : ℚ) < 2 ^ ((n.log2 : Int) - 52) := by positivity
    calc (roundQuotient (n <<< (-((n.log2 : Int) - 52)).toNat) 1 : ℚ) * 2 ^ ((n.log2 : Int) - 52)
        ≤ n * 2 ^ (-((n.log2 : Int) - 52)) * 2 ^ ((n.log2 : Int) - 52) :=
          mul_le_mul_of_nonneg_right hround' hpos.le
      _ = n := by rw [mul_assoc, ← zpow_add₀ (by norm_num), neg_add_cancel, zpow_zero, mul_one]
      _ ≤ m * 2 ^ q := h

/-- What does not pass a finite double is a finite double. -/
theorem place_lt_of_le {place m k : Nat} {q : Int} (hlow : 2 ^ 52 ≤ m) (hhigh : m ≤ 2 ^ 53)
    (hk : k < 2 ^ 53) (hq : q ≤ 971) (h : (m : ℚ) * 2 ^ ((place : Int) - 1074) ≤ k * 2 ^ q) :
    place * 2 ^ 52 + m < 2047 * 2 ^ 52 := by
  have htwo : (1 : ℚ) ≤ 2 := by norm_num
  have hbelow : (k : ℚ) * 2 ^ q < 2 ^ (53 : Int) * 2 ^ (971 : Int) := by
    have hk' : (k : ℚ) < 2 ^ (53 : Int) := by exact_mod_cast hk
    have hq' : (2 : ℚ) ^ q ≤ 2 ^ (971 : Int) := zpow_le_zpow_right₀ htwo hq
    exact mul_lt_mul hk' hq' (by positivity) (by positivity)
  refine Nat.lt_of_not_le fun hover => absurd (h.trans_lt hbelow) (not_lt.mpr ?_)
  by_cases hplace : place = 2045
  · obtain rfl : m = 2 ^ 53 := by omega
    subst hplace
    norm_num
  · have hm : (2 : ℚ) ^ (52 : Int) ≤ m := by exact_mod_cast hlow
    have hexp : (2 : ℚ) ^ (972 : Int) ≤ 2 ^ ((place : Int) - 1074) :=
      zpow_le_zpow_right₀ htwo (by omega)
    calc (2 : ℚ) ^ (53 : Int) * 2 ^ (971 : Int) = 2 ^ (52 : Int) * 2 ^ (972 : Int) := by
          rw [← zpow_add₀ (by norm_num), ← zpow_add₀ (by norm_num)]
          rfl
      _ ≤ m * 2 ^ ((place : Int) - 1074) := mul_le_mul hm hexp (by positivity) (by positivity)

/-- The double nearest to an integer does not pass any finite double that the integer does not pass. -/
theorem exists_ofInt?_le {d : Double} (hd : d.isFinite = true) (h : (n : ℚ) ≤ d.value) :
    ∃ b, ofInt? n = some b ∧ b.isFinite = true ∧ b.value ≤ d.value := by
  have hsign : decide ((n : Int) < 0) = false := by simp
  unfold ofInt? ofRatio?
  rw [Int.natAbs_natCast, hsign]
  by_cases hn : n = 0
  · rw [if_pos hn]
    refine ⟨_, rfl, by decide, ?_⟩
    have hzero : (zero false).value = 0 := by
      have hm : (zero false).magnitude.1 = 0 := by decide
      simp [value, hm]
    rw [hzero]
    simpa [hn] using h
  have hplus : ¬d.negative = true := by
    intro hneg
    have hpos : (0 : ℚ) < n := by exact_mod_cast Nat.pos_of_ne_zero hn
    have hvalue : d.value ≤ 0 := by
      rw [value, if_pos hneg, neg_one_mul, neg_nonpos]
      positivity
    linarith
  have hvalue : d.value = d.magnitude.1 * 2 ^ d.magnitude.2 := by rw [value, if_neg hplus, one_mul]
  rw [hvalue] at h
  obtain ⟨hlow, hhigh⟩ := scaledQuotient_one_bounds hn
  have hround := scaledQuotient_one_le hn (magnitude_lt d) h
  rw [if_neg hn]
  simp only [lastPlace_one hn]
  generalize scaledQuotient n 1 ((n.log2 : Int) - 52) = m at *
  have hplace : (((n.log2 : Int) - 52 + 1074).toNat : Int) = (n.log2 : Int) - 52 + 1074 := by omega
  have hexp : (n.log2 : Int) - 52 = (((n.log2 : Int) - 52 + 1074).toNat : Int) - 1074 := by omega
  generalize ((n.log2 : Int) - 52 + 1074).toNat = place at *
  rw [hexp] at hround
  have hfits := place_lt_of_le hlow hhigh (magnitude_lt d) (magnitude_exponent_le hd) hround
  obtain ⟨hfinite, hb⟩ := value_ofFields hlow hhigh hfits
  rw [Nat.shiftLeft_eq, Nat.shiftLeft_eq, if_pos hfits]
  exact ⟨_, rfl, hfinite, by rw [hb, hvalue]; exact hround⟩

end Rounding

end Handset.Double
