import Handset.Proofs.Number.Words

/-!
# Exact results and words of 32 bits

When the result on integers is the one on words: for sums, products and shifts to the left exactly if it is in
the range of a word, for the operations on bits always, for quotients and remainders rounded down exactly if
the division leaves no remainder or both numbers are on one side of zero. Words take the count of a shift
modulo 32.
-/
namespace Handset.Bitwise

variable {x y z : BitVec 32} {i j r : Int} {k n : Nat}

/-! ### The range of words -/

theorem within_toInt (x : BitVec 32) : Within 31 x.toInt :=
  ⟨x.le_toInt, x.toInt_lt⟩

/-- The number itself, or its complement if it is negative. -/
def magnitude : Int → Nat
  | .ofNat m => m
  | .negSucc m => m

theorem within_iff : Within k i ↔ magnitude i < 2 ^ k := by
  have hcast : ((2 ^ k : Nat) : Int) = 2 ^ k := by rw [Nat.cast_pow, Nat.cast_two]
  rw [Within, ← hcast]
  cases i with
  | ofNat m =>
    rw [magnitude, Int.ofNat_eq_natCast]
    omega
  | negSucc m =>
    rw [magnitude]
    omega

/-- A number with the bits of a word is the word's number if it is in range. -/
theorem eq_toInt_iff (h : BitVec.ofInt 32 r = z) : r = z.toInt ↔ Within 31 r := by
  constructor
  · rintro rfl
    exact within_toInt z
  · rintro ⟨hlow, hhigh⟩
    rw [← h, BitVec.toInt_ofInt_eq_self (by decide) hlow hhigh]

theorem add_eq_toInt_iff : x.toInt + y.toInt = (x + y).toInt ↔ Within 31 (x.toInt + y.toInt) :=
  eq_toInt_iff (by rw [BitVec.ofInt_add, BitVec.ofInt_toInt, BitVec.ofInt_toInt])

theorem sub_eq_toInt_iff : x.toInt - y.toInt = (x - y).toInt ↔ Within 31 (x.toInt - y.toInt) :=
  eq_toInt_iff (by rw [Int.sub_eq_add_neg, BitVec.ofInt_add, BitVec.ofInt_neg, BitVec.ofInt_toInt,
    BitVec.ofInt_toInt, BitVec.sub_eq_add_neg])

theorem mul_eq_toInt_iff : x.toInt * y.toInt = (x * y).toInt ↔ Within 31 (x.toInt * y.toInt) :=
  eq_toInt_iff (by rw [BitVec.ofInt_mul, BitVec.ofInt_toInt, BitVec.ofInt_toInt])

theorem neg_eq_toInt_iff : -x.toInt = (-x).toInt ↔ x.toInt ≠ -2 ^ 31 := by
  refine (eq_toInt_iff (by rw [BitVec.ofInt_neg, BitVec.ofInt_toInt])).trans ?_
  obtain ⟨hlow, hhigh⟩ := within_toInt x
  unfold Within
  omega

/-! ### Operations on bits -/

theorem ldiff_lt_two_pow {m : Nat} (h : m < 2 ^ k) (n : Nat) : Nat.ldiff m n < 2 ^ k := by
  rw [← without_eq_ldiff, without]
  exact Nat.xor_lt_two_pow h (Nat.lt_of_le_of_lt Nat.and_le_left h)

theorem within_land (hi : Within k i) (hj : Within k j) : Within k (Int.land i j) := by
  rw [within_iff] at hi hj ⊢
  cases i with
  | ofNat m =>
    cases j with
    | ofNat n => exact Nat.and_lt_two_pow m hj
    | negSucc n => exact ldiff_lt_two_pow hi n
  | negSucc m =>
    cases j with
    | ofNat n => exact ldiff_lt_two_pow hj m
    | negSucc n => exact Nat.or_lt_two_pow hi hj

theorem within_lnot (hi : Within k i) : Within k (Int.lnot i) := by
  rw [within_iff] at hi ⊢
  cases i <;> exact hi

theorem within_lor (hi : Within k i) (hj : Within k j) : Within k (Int.lor i j) := by
  have hcomplements : Int.lor i j = Int.lnot (Int.land (Int.lnot i) (Int.lnot j)) := by
    cases i <;> cases j <;> rfl
  rw [hcomplements]
  exact within_lnot (within_land (within_lnot hi) (within_lnot hj))

theorem within_xor (hi : Within k i) (hj : Within k j) : Within k (Int.xor i j) := by
  have hmagnitude : magnitude (Int.xor i j) = magnitude i ^^^ magnitude j := by
    cases i <;> cases j <;> rfl
  rw [within_iff] at hi hj ⊢
  rw [hmagnitude]
  exact Nat.xor_lt_two_pow hi hj

theorem land_eq_toInt (x y : BitVec 32) : Int.land x.toInt y.toInt = (x &&& y).toInt :=
  (eq_toInt_iff (by rw [ofInt_land, BitVec.ofInt_toInt, BitVec.ofInt_toInt])).mpr
    (within_land (within_toInt x) (within_toInt y))

theorem lor_eq_toInt (x y : BitVec 32) : Int.lor x.toInt y.toInt = (x ||| y).toInt :=
  (eq_toInt_iff (by rw [ofInt_lor, BitVec.ofInt_toInt, BitVec.ofInt_toInt])).mpr
    (within_lor (within_toInt x) (within_toInt y))

theorem xor_eq_toInt (x y : BitVec 32) : Int.xor x.toInt y.toInt = (x ^^^ y).toInt :=
  (eq_toInt_iff (by rw [ofInt_xor, BitVec.ofInt_toInt, BitVec.ofInt_toInt])).mpr
    (within_xor (within_toInt x) (within_toInt y))

theorem lnot_eq_toInt (x : BitVec 32) : Int.lnot x.toInt = (~~~x).toInt :=
  (eq_toInt_iff (by rw [ofInt_lnot, BitVec.ofInt_toInt])).mpr (within_lnot (within_toInt x))

/-! ### Quotients and remainders -/

/-- Rounding down is rounding towards zero if nothing is rounded or both numbers are on one side of zero. -/
theorem fdiv_eq_tdiv_iff (hj : j ≠ 0) : i.fdiv j = i.tdiv j ↔ j ∣ i ∨ (0 ≤ i ↔ 0 ≤ j) := by
  rw [Int.fdiv_eq_tdiv]
  by_cases hdvd : j ∣ i
  · simp [hdvd]
  · rcases Int.lt_or_gt_of_ne hj with hneg | hpos
    · rw [if_neg hdvd, if_neg (Int.not_le.mpr hneg), if_neg (Int.not_le.mpr hneg),
        Int.sign_eq_neg_one_of_neg hneg]
      split <;> omega
    · rw [if_neg hdvd, if_pos (Int.le_of_lt hpos), if_pos (Int.le_of_lt hpos), Int.sign_eq_one_of_pos hpos]
      split <;> omega

theorem fmod_eq_tmod_iff (hj : j ≠ 0) : i.fmod j = i.tmod j ↔ j ∣ i ∨ (0 ≤ i ↔ 0 ≤ j) := by
  rw [Int.fmod_eq_tmod]
  by_cases hdvd : j ∣ i
  · simp [hdvd]
  · rw [if_neg hdvd]
    split <;> split <;> omega

theorem fdiv_eq_toInt_iff (hy : y.toInt ≠ 0) :
    x.toInt.fdiv y.toInt = (x.sdiv y).toInt ↔
      (y.toInt ∣ x.toInt ∨ (0 ≤ x.toInt ↔ 0 ≤ y.toInt)) ∧ ¬(x.toInt = -2 ^ 31 ∧ y.toInt = -1) := by
  by_cases hlargest : x.toInt = -2 ^ 31 ∧ y.toInt = -1
  · -- the one quotient out of range
    have hhigh := (within_toInt (x.sdiv y)).2
    have hquotient : Int.fdiv (-2 ^ 31) (-1) = 2 ^ 31 := by decide
    rw [hlargest.1, hlargest.2, hquotient]
    exact iff_of_false (Int.ne_of_gt hhigh) fun h => h.2 ⟨rfl, rfl⟩
  · have hwords : x ≠ BitVec.intMin 32 ∨ y ≠ -1#32 := by
      by_contra h
      obtain ⟨hx, hy⟩ := not_or.mp h
      exact hlargest (by rw [not_not.mp hx, not_not.mp hy]; decide)
    rw [BitVec.toInt_sdiv_of_ne_or_ne x y hwords, fdiv_eq_tdiv_iff hy]
    exact (and_iff_left hlargest).symm

theorem fmod_eq_toInt_iff (hy : y.toInt ≠ 0) :
    x.toInt.fmod y.toInt = (x.srem y).toInt ↔ y.toInt ∣ x.toInt ∨ (0 ≤ x.toInt ↔ 0 ≤ y.toInt) := by
  rw [BitVec.toInt_srem]
  exact fmod_eq_tmod_iff hy

/-! ### Shifts -/

theorem two_pow_le_two_pow (h : k ≤ n) : (2 : Int) ^ k ≤ 2 ^ n := by
  exact_mod_cast Nat.pow_le_pow_right (by decide) h

theorem ofInt_mul_two_pow (x : BitVec 32) (n : Nat) : BitVec.ofInt 32 (x.toInt * 2 ^ n) = x <<< n := by
  have hpower : BitVec.ofInt 32 (2 ^ n) = BitVec.twoPow 32 n := by
    apply BitVec.eq_of_toNat_eq
    rw [BitVec.toNat_ofInt, BitVec.toNat_twoPow]
    exact_mod_cast Int.toNat_natCast _
  rw [BitVec.ofInt_mul, BitVec.ofInt_toInt, hpower, BitVec.shiftLeft_eq_mul_twoPow]

/-- Only zero stays in range when it is shifted by 32 places or more. -/
theorem shl_eq_toInt_iff (x : BitVec 32) (n : Nat) :
    x.toInt * 2 ^ n = (x <<< (n % 32)).toInt ↔ Within 31 (x.toInt * 2 ^ n) := by
  by_cases hcount : n < 32
  · rw [Nat.mod_eq_of_lt hcount]
    exact eq_toInt_iff (ofInt_mul_two_pow x n)
  · constructor
    · intro h
      rw [h]
      exact within_toInt _
    · rintro ⟨hlow, hhigh⟩
      have hpower : (2 : Int) ^ 32 ≤ 2 ^ n := two_pow_le_two_pow (by omega)
      have hzero : x.toInt = 0 := by
        generalize (2 : Int) ^ n = p at *
        rcases Int.lt_trichotomy x.toInt 0 with hneg | hzero | hpos
        · have := Int.mul_le_mul_of_nonneg_right (Int.le_sub_one_of_lt hneg) (by omega : 0 ≤ p)
          omega
        · exact hzero
        · have := Int.mul_le_mul_of_nonneg_right hpos (by omega : 0 ≤ p)
          omega
      obtain rfl : x = 0#32 := BitVec.toInt_inj.mp (hzero.trans BitVec.toInt_zero.symm)
      rw [BitVec.zero_shiftLeft, BitVec.toInt_zero, Int.zero_mul]

theorem shr_eq_toInt_iff (x : BitVec 32) (n : Nat) :
    x.toInt / 2 ^ n = (x.sshiftRight (n % 32)).toInt ↔ n < 32 ∨ Within (n % 32) x.toInt := by
  rw [BitVec.toInt_sshiftRight, Int.shiftRight_eq_div_pow, Nat.cast_pow, Nat.cast_two]
  by_cases hcount : n < 32
  · simp [Nat.mod_eq_of_lt hcount, hcount]
  · obtain ⟨hlow, hhigh⟩ := within_toInt x
    have hpower : (2 : Int) ^ 31 ≤ 2 ^ n := two_pow_le_two_pow (by omega)
    rw [ediv_eq_sign_iff.mpr ⟨by omega, by omega⟩, eq_comm, ediv_eq_sign_iff]
    exact (or_iff_right hcount).symm

theorem toInt_emod (x : BitVec 32) : x.toInt % 2 ^ 32 = x.toNat := by
  have hlt := x.isLt
  rw [BitVec.toInt_eq_toNat_cond]
  split <;> omega

theorem toNat_lt_iff (hk : k < 32) : x.toNat < 2 ^ k ↔ 0 ≤ x.toInt ∧ x.toInt < 2 ^ k := by
  have hlt := x.isLt
  have hpower : (2 : Int) ^ k ≤ 2 ^ 31 := two_pow_le_two_pow (by omega)
  have hcast : (x.toNat < 2 ^ k) ↔ (x.toNat : Int) < 2 ^ k := by exact_mod_cast Iff.rfl
  rw [hcast, BitVec.toInt_eq_toNat_cond]
  split <;> omega

theorem ushr_eq_toInt_iff (x : BitVec 32) (n : Nat) :
    x.toInt % 2 ^ 32 / 2 ^ n = (x >>> (n % 32)).toInt ↔
      if n < 32 then 0 < n ∨ 0 ≤ x.toInt else 0 ≤ x.toInt ∧ x.toInt < 2 ^ (n % 32) := by
  have hlt := x.isLt
  by_cases hcount : n < 32
  · rw [if_pos hcount, Nat.mod_eq_of_lt hcount, toInt_emod, BitVec.toInt_ushiftRight]
    split
    next hzero =>
      rw [hzero, Int.pow_zero, Int.ediv_one, BitVec.toInt_eq_toNat_cond]
      split <;> omega
    next hne =>
      have hquotient : (x.toNat : Int) / 2 ^ n = (x.toNat >>> n : Nat) := by
        rw [Nat.shiftRight_eq_div_pow]
        exact_mod_cast rfl
      exact iff_of_true hquotient (.inl (Nat.pos_of_ne_zero hne))
  · have hpower : (2 : Int) ^ 32 ≤ 2 ^ n := two_pow_le_two_pow (by omega)
    have hgone : (x.toNat : Int) / 2 ^ n = (0#32).toInt := Int.ediv_eq_zero_of_lt (by omega) (by omega)
    rw [if_neg hcount, toInt_emod, hgone, BitVec.toInt_inj, ← toNat_lt_iff (Nat.mod_lt n (by decide)),
      eq_comm, ← BitVec.toNat_inj, BitVec.toNat_ushiftRight, Nat.shiftRight_eq_div_pow]
    exact Nat.div_eq_zero_iff_lt (Nat.two_pow_pos _)

end Handset.Bitwise
