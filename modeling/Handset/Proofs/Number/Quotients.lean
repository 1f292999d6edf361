import Handset.Number.Double
import Mathlib.Tactic.Ring

/-!
# Quotients that fit

A quotient whose dividend has at most a thousand bits has a nearest double: the exponent of its last
place stays far below the largest one, and the rounded significand has at most 53 bits, or is `2 ^ 53`
itself.
-/
namespace Handset.Double

theorem roundQuotient_le {num den k : Nat} (h : num < k * den) : roundQuotient num den ≤ k := by
  have hq : num / den < k := Nat.div_lt_of_lt_mul (Nat.mul_comm k den ▸ h)
  unfold roundQuotient
  dsimp only
  split <;> omega

/-- The quotient of `num` by `den · 2 ^ e` is below `2 ^ 53`. -/
private def Fits (num den : Nat) (e : Int) : Prop :=
  num * 2 ^ (-e).toNat < den * 2 ^ (53 + e.toNat)

private theorem scaledQuotient_le_of_fits {num den : Nat} {e : Int} (h : Fits num den e) :
    scaledQuotient num den e ≤ 2 ^ 53 := by
  unfold Fits at h
  unfold scaledQuotient
  split
  next he =>
    have h0 : (-e).toNat = 0 := by omega
    apply roundQuotient_le
    calc num = num * 2 ^ (-e).toNat := by rw [h0, pow_zero, mul_one]
      _ < den * 2 ^ (53 + e.toNat) := h
      _ = 2 ^ 53 * den <<< e.toNat := by rw [Nat.shiftLeft_eq]; ring
  next he =>
    have h0 : e.toNat = 0 := by omega
    apply roundQuotient_le
    calc num <<< (-e).toNat = num * 2 ^ (-e).toNat := Nat.shiftLeft_eq _ _
      _ < den * 2 ^ (53 + e.toNat) := h
      _ = 2 ^ 53 * den := by rw [h0]; ring

private theorem Fits.mono {num den : Nat} {e e' : Int} (h : Fits num den e) (he : e ≤ e') :
    Fits num den e' := by
  have h1 : 2 ^ (-e').toNat ≤ 2 ^ (-e).toNat := Nat.pow_le_pow_right (by omega) (by omega)
  have h2 : 2 ^ (53 + e.toNat) ≤ 2 ^ (53 + e'.toNat) := Nat.pow_le_pow_right (by omega) (by omega)
  calc num * 2 ^ (-e').toNat ≤ num * 2 ^ (-e).toNat := Nat.mul_le_mul_left _ h1
    _ < den * 2 ^ (53 + e.toNat) := h
    _ ≤ den * 2 ^ (53 + e'.toNat) := Nat.mul_le_mul_left _ h2

private theorem fits_log2 {num den : Nat} (hden : den ≠ 0) :
    Fits num den ((num.log2 : Int) - den.log2 - 52) := by
  have hnum : num < 2 ^ (num.log2 + 1) := Nat.lt_log2_self
  have hd : 2 ^ den.log2 ≤ den := Nat.log2_self_le hden
  unfold Fits
  generalize num.log2 = a at hnum
  generalize den.log2 = b at hd
  have hexp : a + 1 + (-((a : Int) - b - 52)).toNat = b + (53 + ((a : Int) - b - 52).toNat) := by
    omega
  calc num * 2 ^ (-((a : Int) - b - 52)).toNat
      < 2 ^ (a + 1) * 2 ^ (-((a : Int) - b - 52)).toNat :=
        Nat.mul_lt_mul_of_pos_right hnum (Nat.two_pow_pos _)
    _ = 2 ^ b * 2 ^ (53 + ((a : Int) - b - 52).toNat) := by rw [← pow_add, hexp, pow_add]
    _ ≤ den * 2 ^ (53 + ((a : Int) - b - 52).toNat) := Nat.mul_le_mul_right _ hd

private theorem fits_pred {num den : Nat} {e : Int}
    (h : num * 2 ^ (-e).toNat < den * 2 ^ (52 + e.toNat)) : Fits num den (e - 1) := by
  unfold Fits
  by_cases he : 1 ≤ e
  · have h1 : (-(e - 1)).toNat = (-e).toNat := by omega
    have h2 : 53 + (e - 1).toNat = 52 + e.toNat := by omega
    rw [h1, h2]
    exact h
  · have h1 : (-(e - 1)).toNat = (-e).toNat + 1 := by omega
    have h2 : 53 + (e - 1).toNat = 52 + e.toNat + 1 := by omega
    rw [h1, h2, pow_succ, pow_succ, ← mul_assoc, ← mul_assoc]
    exact Nat.mul_lt_mul_of_pos_right h (by omega)

private theorem fits_lastPlace {num den : Nat} (hden : den ≠ 0) :
    Fits num den (lastPlace num den) := by
  unfold lastPlace
  generalize hE : (num.log2 : Int) - den.log2 - 52 = E
  have hfits : Fits num den E := hE ▸ fits_log2 hden
  have hshort (h : num * 2 ^ (-E).toNat < den * 2 ^ (52 + E.toNat)) :
      Fits num den (max (E - 1) (-1074)) := (fits_pred h).mono (le_max_left _ _)
  have hlong : Fits num den (max E (-1074)) := hfits.mono (le_max_left _ _)
  by_cases he : 0 ≤ E
  · have h0 : (-E).toNat = 0 := by omega
    by_cases h : num < den <<< (52 + E.toNat)
    · simp only [he, h, if_true, decide_true]
      exact hshort (by rwa [h0, pow_zero, mul_one, ← Nat.shiftLeft_eq])
    · simpa only [he, h, if_true, decide_false, Bool.false_eq_true, if_false] using hlong
  · have h0 : E.toNat = 0 := by omega
    by_cases h : num <<< (-E).toNat < den <<< 52
    · simp only [he, h, if_true, if_false, decide_true]
      exact hshort (by rwa [h0, ← Nat.shiftLeft_eq, ← Nat.shiftLeft_eq])
    · simpa only [he, h, if_false, decide_false, Bool.false_eq_true] using hlong

private theorem lastPlace_le {num den : Nat} (h : num.log2 < 1000) : lastPlace num den ≤ 947 := by
  unfold lastPlace
  dsimp only
  split <;> omega

/-- A dividend of at most a thousand bits is below the largest double times any divisor. -/
theorem isSome_ofRatio? (negative : Bool) {num den : Nat} (hden : den ≠ 0)
    (h : num.log2 < 1000) : (ofRatio? negative num den).isSome = true := by
  unfold ofRatio?
  by_cases hnum : num = 0
  · simp [hnum]
  · have hfits : Fits num den (lastPlace num den) := fits_lastPlace hden
    have hq := scaledQuotient_le_of_fits hfits
    have he : lastPlace num den ≤ 947 := lastPlace_le h
    rw [if_neg hnum]
    dsimp only
    rw [if_pos]
    · rfl
    · have : (lastPlace num den + 1074).toNat ≤ 2021 := by omega
      rw [Nat.shiftLeft_eq, Nat.shiftLeft_eq]
      omega

end Handset.Double
