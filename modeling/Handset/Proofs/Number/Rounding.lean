import Handset.Number.Decimal
import Handset.Proofs.Number.Rationals
import Mathlib.Tactic.FieldSimp

/-!
# The numbers that round to a double

Around each finite double lies the interval of the numbers that are nearer to it than to any other double. Its
ends belong to it if the significand is even. Below a power of two the doubles lie twice as close, so there the
interval reaches down half as far. Every quotient in the interval is rounded to the double.
-/
namespace Handset.Double

variable {num den m : Nat} {e : Int}

/-! ### Rounding to a significand -/

theorem roundQuotient_eq (hden : 0 < den) (hlow : 2 * (m * den) ≤ 2 * num + den)
    (hhigh : 2 * num ≤ 2 * (m * den) + den)
    (hodd : m % 2 = 1 → 2 * (m * den) < 2 * num + den ∧ 2 * num < 2 * (m * den) + den) :
    roundQuotient num den = m := by
  have hnum := Nat.div_add_mod num den
  have hrem := Nat.mod_lt num hden
  unfold roundQuotient
  dsimp only
  generalize num / den = q at *
  generalize num % den = r at *
  -- the quotient rounded down is the number itself or the one before it
  have hle : q ≤ m := by
    by_contra hlt
    have : (m + 1) * den ≤ q * den := Nat.mul_le_mul_right den (by omega)
    rw [Nat.add_mul, Nat.mul_comm q] at this
    omega
  have hge : m ≤ q + 1 := by
    by_contra hlt
    have : (q + 2) * den ≤ m * den := Nat.mul_le_mul_right den (by omega)
    rw [Nat.add_mul, Nat.mul_comm q] at this
    omega
  rcases Nat.eq_or_lt_of_le hle with rfl | hlt
  · rw [Nat.mul_comm q den] at hhigh hodd
    rw [if_neg (by omega)]
  · obtain rfl : m = q + 1 := by omega
    rw [Nat.add_mul, Nat.mul_comm q den] at hlow hodd
    rw [if_pos (by omega)]

/-- Scaling a quotient gives one of natural numbers again. -/
theorem exists_scaledQuotient_eq (hden : 0 < den) (num : Nat) (e : Int) :
    ∃ a b : Nat, 0 < b ∧ scaledQuotient num den e = roundQuotient a b ∧ (a : ℚ) = num / den / 2 ^ e * b := by
  have hpos : (0 : ℚ) < den := by exact_mod_cast hden
  have hpow : (2 : ℚ) ^ e ≠ 0 := by positivity
  unfold scaledQuotient
  split
  next he =>
    have htwo : (2 : ℚ) ^ e.toNat = 2 ^ e := by rw [← zpow_natCast, Int.toNat_of_nonneg he]
    refine ⟨num, den <<< e.toNat, by rw [Nat.shiftLeft_eq]; positivity, rfl, ?_⟩
    rw [Nat.shiftLeft_eq]
    push_cast
    rw [htwo]
    field_simp
  next he =>
    have htwo : (2 : ℚ) ^ (-e).toNat = (2 ^ e)⁻¹ := by
      rw [← zpow_natCast, Int.toNat_of_nonneg (by omega), zpow_neg]
    refine ⟨num <<< (-e).toNat, den, hden, rfl, ?_⟩
    rw [Nat.shiftLeft_eq]
    push_cast
    rw [htwo]
    field_simp

/-- A quotient within half a place of a significand is rounded to it; from the middle only to an even one. -/
theorem scaledQuotient_eq (hden : 0 < den) (hlow : (m : ℚ) - 1 / 2 ≤ num / den / 2 ^ e)
    (hhigh : (num : ℚ) / den / 2 ^ e ≤ m + 1 / 2)
    (hodd : m % 2 = 1 → (m : ℚ) - 1 / 2 < num / den / 2 ^ e ∧ (num : ℚ) / den / 2 ^ e < m + 1 / 2) :
    scaledQuotient num den e = m := by
  obtain ⟨a, b, hb, hscaled, ha⟩ := exists_scaledQuotient_eq hden num e
  have hpos : (0 : ℚ) < b := by exact_mod_cast hb
  generalize (num : ℚ) / den / 2 ^ e = x at *
  rw [hscaled]
  refine roundQuotient_eq hb ?_ ?_ fun h => ⟨?_, ?_⟩
  · have : (2 * (m * b) : ℚ) ≤ 2 * a + b := by nlinarith
    exact_mod_cast this
  · have : (2 * a : ℚ) ≤ 2 * (m * b) + b := by nlinarith
    exact_mod_cast this
  · have : (2 * (m * b) : ℚ) < 2 * a + b := by nlinarith [(hodd h).1]
    exact_mod_cast this
  · have : (2 * a : ℚ) < 2 * (m * b) + b := by nlinarith [(hodd h).2]
    exact_mod_cast this

/-! ### The last place of a quotient -/

theorem quotient_lt_iff (num : Nat) (hden : 0 < den) (n : Nat) (e : Int) :
    (num : ℚ) / den < 2 ^ ((n : Int) + e) ↔
      if 0 ≤ e then num < den <<< (n + e.toNat) else num <<< (-e).toNat < den <<< n := by
  have hpos : (0 : ℚ) < den := by exact_mod_cast hden
  have hpow : (0 : ℚ) < 2 ^ e := by positivity
  rw [div_lt_iff₀ hpos, zpow_add₀ (by norm_num), zpow_natCast, ← Nat.cast_lt (α := ℚ), ← Nat.cast_lt (α := ℚ)]
  split
  next he =>
    have htwo : (2 : ℚ) ^ e.toNat = 2 ^ e := by rw [← zpow_natCast, Int.toNat_of_nonneg he]
    rw [Nat.shiftLeft_eq]
    push_cast
    rw [pow_add, htwo, mul_comm]
  next he =>
    have htwo : (2 : ℚ) ^ (-e).toNat = (2 ^ e)⁻¹ := by
      rw [← zpow_natCast, Int.toNat_of_nonneg (by omega), zpow_neg]
    rw [Nat.shiftLeft_eq, Nat.shiftLeft_eq]
    push_cast
    rw [htwo, ← div_eq_mul_inv, div_lt_iff₀ hpow]
    ring_nf

/-- The place that the bit lengths give is the last place or the one above it. -/
theorem quotient_log2_bounds (hden : 0 < den) (hnum : 0 < num) :
    (2 : ℚ) ^ ((num.log2 : Int) - den.log2 - 1) ≤ num / den ∧
      (num : ℚ) / den < 2 ^ ((num.log2 : Int) - den.log2 + 1) := by
  have hpos : (0 : ℚ) < den := by exact_mod_cast hden
  have hnum' : (2 : ℚ) ^ (num.log2 : Int) ≤ num := by exact_mod_cast Nat.log2_self_le hnum.ne'
  have hnum'' : (num : ℚ) < 2 ^ ((num.log2 : Int) + 1) := by exact_mod_cast @Nat.lt_log2_self num
  have hden' : (2 : ℚ) ^ (den.log2 : Int) ≤ den := by exact_mod_cast Nat.log2_self_le hden.ne'
  have hden'' : (den : ℚ) < 2 ^ ((den.log2 : Int) + 1) := by exact_mod_cast @Nat.lt_log2_self den
  constructor
  · rw [le_div_iff₀ hpos]
    calc (2 : ℚ) ^ ((num.log2 : Int) - den.log2 - 1) * den
        ≤ 2 ^ ((num.log2 : Int) - den.log2 - 1) * 2 ^ ((den.log2 : Int) + 1) := by gcongr
      _ = 2 ^ (num.log2 : Int) := by rw [← zpow_add₀ (by norm_num)]; congr 1; ring
      _ ≤ num := hnum'
  · rw [div_lt_iff₀ hpos]
    calc (num : ℚ) < 2 ^ ((num.log2 : Int) + 1) := hnum''
      _ = 2 ^ ((num.log2 : Int) - den.log2 + 1) * 2 ^ (den.log2 : Int) := by
          rw [← zpow_add₀ (by norm_num)]; congr 1; ring
      _ ≤ 2 ^ ((num.log2 : Int) - den.log2 + 1) * den := by gcongr

/-- A quotient has at most 53 bits down to its last place, and no less, unless it is very small. -/
theorem lastPlace_spec (hden : 0 < den) (hnum : 0 < num) :
    (num : ℚ) / den < 2 ^ (53 + lastPlace num den) ∧ -1074 ≤ lastPlace num den ∧
      (lastPlace num den = -1074 ∨ (2 : ℚ) ^ (52 + lastPlace num den) ≤ num / den) := by
  obtain ⟨hlow, hhigh⟩ := quotient_log2_bounds hden hnum
  have hshort := quotient_lt_iff num hden 52 ((num.log2 : Int) - den.log2 - 52)
  have hexp : ((52 : Nat) : Int) + ((num.log2 : Int) - den.log2 - 52) = num.log2 - den.log2 := by ring
  rw [hexp] at hshort
  -- the last place is the one the bit lengths give, or the next if the quotient is short
  have hplace : lastPlace num den = max ((num.log2 : Int) - den.log2 - 52) (-1074) ∧
        (2 : ℚ) ^ ((num.log2 : Int) - den.log2) ≤ num / den ∨
      lastPlace num den = max ((num.log2 : Int) - den.log2 - 52 - 1) (-1074) ∧
        (num : ℚ) / den < 2 ^ ((num.log2 : Int) - den.log2) := by
    unfold lastPlace
    dsimp only
    split at hshort
    next he =>
      simp only [he, if_true, decide_eq_true_iff]
      split
      next hlt => exact .inr ⟨rfl, hshort.mpr hlt⟩
      next hlt => exact .inl ⟨rfl, not_lt.mp (mt hshort.mp hlt)⟩
    next he =>
      simp only [he, if_false, decide_eq_true_iff]
      split
      next hlt => exact .inr ⟨rfl, hshort.mpr hlt⟩
      next hlt => exact .inl ⟨rfl, not_lt.mp (mt hshort.mp hlt)⟩
  have hmono {a b : Int} (h : a ≤ b) : (2 : ℚ) ^ a ≤ 2 ^ b := zpow_le_zpow_right₀ (by norm_num) h
  rcases hplace with ⟨hplace, hlong⟩ | ⟨hplace, hshort⟩
  · refine ⟨hhigh.trans_le (hmono (by omega)), by omega, ?_⟩
    rcases le_total ((num.log2 : Int) - den.log2 - 52) (-1074) with h | h
    · exact .inl (by omega)
    · exact .inr ((hmono (by omega)).trans hlong)
  · refine ⟨hshort.trans_le (hmono (by omega)), by omega, ?_⟩
    rcases le_total ((num.log2 : Int) - den.log2 - 52 - 1) (-1074) with h | h
    · exact .inl (by omega)
    · exact .inr ((hmono (by omega)).trans hlow)

/-! ### The interval of a double -/

variable {d : Double} {x : ℚ}

/-- The number lies in the interval of those that round to the double, its sign apart. -/
structure Attracts (d : Double) (x : ℚ) : Prop where
  low : (4 * d.magnitude.1 : ℚ) - d.reach ≤ x / 2 ^ (d.magnitude.2 - 2)
  high : x / 2 ^ (d.magnitude.2 - 2) ≤ 4 * d.magnitude.1 + 2
  odd : d.magnitude.1 % 2 = 1 → (4 * d.magnitude.1 : ℚ) - d.reach < x / 2 ^ (d.magnitude.2 - 2) ∧
    x / 2 ^ (d.magnitude.2 - 2) < 4 * d.magnitude.1 + 2

theorem magnitude_cases (d : Double) :
    -1074 ≤ d.magnitude.2 ∧ (2 ^ 52 ≤ d.magnitude.1 ∨ d.magnitude.2 = -1074) := by
  unfold magnitude
  split
  · exact ⟨le_refl _, .inr rfl⟩
  · dsimp only
    omega

theorem reach_le (d : Double) : d.reach ≤ 2 := by
  unfold reach
  split <;> omega

/-- A double is put together from its sign and its other bits. -/
theorem ofFields_bits (d : Double) : ofFields d.negative (d.bits.toNat % 2 ^ 63) = d := by
  have hlt : d.bits.toNat < 2 ^ 64 := d.bits.toNat_lt
  have hsign : (if d.negative then 1 <<< 63 else 0) = d.bits.toNat / 2 ^ 63 * 2 ^ 63 := by
    split
    next hneg =>
      rw [negative_iff] at hneg
      omega
    next hneg =>
      rw [negative_iff] at hneg
      omega
  rw [ofFields, hsign, Nat.mod_add_div']
  exact congrArg Double.mk (UInt64.ofNat_toNat)

/-- The bits of a finite double are put together from its significand and its exponent. -/
theorem ofFields_magnitude (h : d.isFinite = true) {rest : Nat}
    (hrest : (rest : Int) = (d.magnitude.2 + 1074) * 2 ^ 52 + d.magnitude.1) :
    ofFields d.negative rest = d ∧ rest < 2047 * 2 ^ 52 := by
  have hfield := isFinite_iff.mp h
  have hbits : rest = d.bits.toNat % 2 ^ 63 := by
    rw [magnitude] at hrest
    rw [exponentField_eq, fraction_eq] at hrest
    split at hrest <;> dsimp only at hrest <;> omega
  rw [exponentField_eq] at hfield
  refine ⟨?_, by omega⟩
  rw [hbits, ofFields_bits]

/-- A quotient counted in places higher by `k` is halved `k` times. -/
theorem div_zpow_add (x : ℚ) (e k : Int) : x / 2 ^ (e + k) = x / 2 ^ e / 2 ^ k := by
  rw [zpow_add₀ (by norm_num), div_div]

theorem Attracts.quarters_bounds (h : d.Attracts x) (hm : 0 < d.magnitude.1) :
    2 ≤ x / 2 ^ (d.magnitude.2 - 2) ∧ x / 2 ^ (d.magnitude.2 - 2) < 2 ^ 55 := by
  have hlow := h.low
  have hhigh := h.high
  have hone : (1 : ℚ) ≤ d.magnitude.1 := by exact_mod_cast hm
  have hreach : (d.reach : ℚ) ≤ 2 := by exact_mod_cast d.reach_le
  have hlt : (d.magnitude.1 : ℚ) + 1 ≤ 2 ^ 53 := by exact_mod_cast magnitude_lt d
  constructor <;> linarith

theorem Attracts.num_pos (h : d.Attracts (num / den)) (hm : 0 < d.magnitude.1) : 0 < num := by
  obtain ⟨htwo, -⟩ := h.quarters_bounds hm
  rcases Nat.eq_zero_or_pos num with rfl | hpos
  · rw [Nat.cast_zero, zero_div, zero_div] at htwo
    linarith
  · exact hpos

theorem scaledQuotient_of_attracts (hden : 0 < den) (h : d.Attracts (num / den)) :
    scaledQuotient num den d.magnitude.2 = d.magnitude.1 := by
  -- four quarters make a place
  have hfour := div_zpow_add (num / den) (d.magnitude.2 - 2) 2
  rw [sub_add_cancel] at hfour
  have hreach : (d.reach : ℚ) ≤ 2 := by exact_mod_cast d.reach_le
  obtain ⟨hlow, hhigh, hodd⟩ := h
  refine scaledQuotient_eq hden ?_ ?_ fun h => ?_
  · rw [hfour]
    linarith
  · rw [hfour]
    linarith
  · obtain ⟨hlow, hhigh⟩ := hodd h
    rw [hfour]
    exact ⟨by linarith, by linarith⟩

theorem lastPlace_le_of_attracts (hm : 0 < d.magnitude.1) (hden : 0 < den) (h : d.Attracts (num / den)) :
    lastPlace num den ≤ d.magnitude.2 := by
  obtain ⟨hmin, -⟩ := magnitude_cases d
  obtain ⟨-, hplace, hfull⟩ := lastPlace_spec hden (h.num_pos hm)
  rcases hfull with hfull | hfull
  · omega
  · have hbelow : (num / den : ℚ) < 2 ^ ((55 : Int) + (d.magnitude.2 - 2)) := by
      rw [zpow_add₀ (by norm_num), ← div_lt_iff₀ (by positivity)]
      exact (h.quarters_bounds hm).2
    have hexp := (zpow_lt_zpow_iff_right₀ (by norm_num : (1 : ℚ) < 2)).mp (hfull.trans_lt hbelow)
    omega

/-- Where the last place is less than that of the double, the double is a power of two and the quotient is below
it: its significand has all bits set and rounds up. -/
theorem place_of_attracts_of_lt (hm : 0 < d.magnitude.1) (hden : 0 < den) (h : d.Attracts (num / den))
    (hless : lastPlace num den < d.magnitude.2) :
    lastPlace num den = d.magnitude.2 - 1 ∧ -1074 < d.magnitude.2 ∧ d.magnitude.1 = 2 ^ 52 ∧
      scaledQuotient num den (d.magnitude.2 - 1) = 2 ^ 53 := by
  obtain ⟨hfits, hplace, -⟩ := lastPlace_spec hden (h.num_pos hm)
  obtain ⟨-, hnormal⟩ := magnitude_cases d
  have hreach : d.reach = if d.magnitude.1 = 2 ^ 52 ∧ -1074 < d.magnitude.2 then 1 else 2 := rfl
  have hlow := h.low
  have hmono {a b : Int} (h : a ≤ b) : (2 : ℚ) ^ a ≤ 2 ^ b := zpow_le_zpow_right₀ (by norm_num) h
  have habove : (num / den : ℚ) / 2 ^ (d.magnitude.2 - 2) < 2 ^ 54 := by
    rw [div_lt_iff₀ (by positivity), ← zpow_natCast, ← zpow_add₀ (by norm_num)]
    exact hfits.trans_le (hmono (by push_cast; omega))
  have hmin : -1074 < d.magnitude.2 := by omega
  have hsmall : 4 * d.magnitude.1 < 2 ^ 54 + d.reach := by
    have : (4 * d.magnitude.1 : ℚ) < 2 ^ 54 + d.reach := by linarith
    exact_mod_cast this
  have hpower : d.magnitude.1 = 2 ^ 52 := by split at hreach <;> omega
  rw [hreach, if_pos ⟨hpower, hmin⟩, hpower] at hlow
  push_cast at hlow
  have hexp : lastPlace num den = d.magnitude.2 - 1 := by
    have hbelow : (2 : ℚ) ^ ((53 : Int) + (d.magnitude.2 - 2)) < 2 ^ (53 + lastPlace num den) := by
      refine lt_of_le_of_lt ?_ hfits
      rw [zpow_add₀ (by norm_num), ← le_div_iff₀ (by positivity)]
      exact le_trans (by norm_num) hlow
    have := (zpow_lt_zpow_iff_right₀ (by norm_num : (1 : ℚ) < 2)).mp hbelow
    omega
  -- two quarters make a place
  have htwo := div_zpow_add (num / den) (d.magnitude.2 - 2) 1
  rw [show d.magnitude.2 - 2 + 1 = d.magnitude.2 - 1 by ring, zpow_one] at htwo
  refine ⟨hexp, hmin, hpower, scaledQuotient_eq hden ?_ ?_ nofun⟩
  · rw [htwo]
    push_cast
    linarith
  · rw [htwo]
    push_cast
    linarith

theorem ofRatio?_of_attracts (hd : d.isFinite = true) (hm : 0 < d.magnitude.1) (hden : 0 < den)
    (h : d.Attracts (num / den)) : ofRatio? d.negative num den = some d := by
  obtain ⟨hmin, -⟩ := magnitude_cases d
  obtain ⟨hfields, hsmall⟩ : ofFields d.negative (((lastPlace num den + 1074).toNat <<< 52) +
      scaledQuotient num den (lastPlace num den)) = d ∧
      ((lastPlace num den + 1074).toNat <<< 52) + scaledQuotient num den (lastPlace num den) < 2047 <<< 52 := by
    rw [Nat.shiftLeft_eq, Nat.shiftLeft_eq]
    apply ofFields_magnitude hd
    rcases (lastPlace_le_of_attracts hm hden h).eq_or_lt with hplace | hless
    · rw [hplace, scaledQuotient_of_attracts hden h]
      omega
    · obtain ⟨hplace, hmin', hpower, hquotient⟩ := place_of_attracts_of_lt hm hden h hless
      rw [hplace, hquotient, hpower]
      omega
  rw [ofRatio?, if_neg (h.num_pos hm).ne']
  dsimp only
  rw [if_pos hsmall, hfields]

end Handset.Double
