import Handset.Number.Bitwise
import Mathlib.Data.Int.Bitwise

/-!
# Integers, bits and words

The operations on the bits of unbounded integers are those of two's complement, and cut to any number of bits
they are the operations on words of so many bits. The low word of a number is its remainder and the rest its
quotient, and the two joined are the number again, whatever its sign and size.
-/
namespace Handset.Bitwise

variable {w : Nat} {i j lo hi : Int}

/-! ### The bits of unbounded integers -/

theorem without_eq_ldiff (m n : Nat) : without m n = Nat.ldiff m n := by
  apply Nat.eq_of_testBit_eq
  intro place
  rw [without, Nat.testBit_xor, Nat.testBit_and, Nat.testBit_ldiff]
  cases m.testBit place <;> cases n.testBit place <;> rfl

theorem both_eq_land (i j : Int) : both i j = Int.land i j := by
  cases i with
  | ofNat m =>
    cases j with
    | ofNat n => rfl
    | negSucc n => exact congrArg Int.ofNat (without_eq_ldiff m n)
  | negSucc m =>
    cases j with
    | ofNat n => exact congrArg Int.ofNat (without_eq_ldiff n m)
    | negSucc n => rfl

theorem either_eq_lor (i j : Int) : either i j = Int.lor i j := by
  cases i with
  | ofNat m =>
    cases j with
    | ofNat n => rfl
    | negSucc n => exact congrArg Int.negSucc (without_eq_ldiff n m)
  | negSucc m =>
    cases j with
    | ofNat n => exact congrArg Int.negSucc (without_eq_ldiff m n)
    | negSucc n => rfl

theorem oneOf_eq_xor (i j : Int) : oneOf i j = Int.xor i j := by
  cases i <;> cases j <;> rfl

theorem flip_eq_lnot (i : Int) : flip i = Int.lnot i := by
  cases i with
  | ofNat m =>
    rw [flip, Int.lnot, Int.negSucc_eq, Int.ofNat_eq_natCast]
    omega
  | negSucc m =>
    rw [flip, Int.lnot, Int.negSucc_eq]
    omega

/-! ### The low word and the rest -/

/-- Below a number of ones in the low bits, taking bits away is subtraction. -/
theorem without_eq_sub {n : Nat} (hn : n < 2 ^ w) (k : Nat) :
    without (2 ^ w * k + (2 ^ w - 1)) n = 2 ^ w * k + (2 ^ w - (n + 1)) := by
  have hones : 2 ^ w - 1 < 2 ^ w := by omega
  have hrest : 2 ^ w - (n + 1) < 2 ^ w := by omega
  apply Nat.eq_of_testBit_eq
  intro place
  rw [without, Nat.testBit_xor, Nat.testBit_and, Nat.testBit_two_pow_mul_add k hones,
    Nat.testBit_two_pow_mul_add k hrest, Nat.testBit_two_pow_sub_one, Nat.testBit_two_pow_sub_succ hn]
  by_cases hplace : place < w
  · simp [hplace]
  · have hhigh : n.testBit place = false :=
      Nat.testBit_lt_two_pow (hn.trans_le (Nat.pow_le_pow_right (by omega) (by omega)))
    simp [hplace, hhigh]

theorem either_eq_add (hlow : 0 ≤ lo) (hword : lo < 2 ^ 32) (hi : Int) :
    either (hi * 2 ^ 32) lo = hi * 2 ^ 32 + lo := by
  obtain ⟨n, rfl⟩ := Int.eq_ofNat_of_zero_le hlow
  have hn : n < 2 ^ 32 := by omega
  cases hi with
  | ofNat k =>
    have hshifted : Int.ofNat k * 2 ^ 32 = Int.ofNat (2 ^ 32 * k) := by
      simp only [Int.ofNat_eq_natCast]
      omega
    have hsum : 2 ^ 32 * k ||| n = 2 ^ 32 * k + n := (Nat.two_pow_add_eq_or_of_lt hn k).symm
    rw [hshifted]
    change ((2 ^ 32 * k ||| n : Nat) : Int) = _
    rw [hsum]
    rfl
  | negSucc k =>
    have hshifted : Int.negSucc k * 2 ^ 32 = Int.negSucc (2 ^ 32 * k + (2 ^ 32 - 1)) := by omega
    rw [hshifted]
    change Int.negSucc (without (2 ^ 32 * k + (2 ^ 32 - 1)) n) = _
    rw [without_eq_sub hn]
    omega

/-- The `w` lowest bits are the remainder, of negative numbers too. -/
theorem both_mask (w : Nat) (r : Int) : both r (2 ^ w - 1 : Nat) = r % 2 ^ w := by
  have hpos : 0 < 2 ^ w := Nat.two_pow_pos w
  cases r with
  | ofNat m =>
    change ((m &&& (2 ^ w - 1) : Nat) : Int) = (m : Int) % 2 ^ w
    rw [Nat.and_two_pow_sub_one_eq_mod, Int.natCast_emod, Nat.cast_pow, Nat.cast_two]
  | negSucc m =>
    have hsame : without (2 ^ w - 1) m = without (2 ^ w - 1) (m % 2 ^ w) := by
      rw [without, without, Nat.and_comm, Nat.and_two_pow_sub_one_eq_mod, Nat.and_comm,
        Nat.and_two_pow_sub_one_eq_mod, Nat.mod_mod]
    have hless := Nat.mod_lt m hpos
    have hrest := without_eq_sub hless 0
    rw [Nat.mul_zero, Nat.zero_add, Nat.zero_add, ← hsame] at hrest
    change ((without (2 ^ w - 1) m : Nat) : Int) = _
    rw [hrest, Int.negSucc_emod m (by exact_mod_cast hpos)]
    push_cast [Nat.cast_sub (Nat.succ_le_of_lt hless)]
    rw [Int.sub_sub, Int.add_comm]

/-- The range of numbers of `k` bits and a sign. -/
def Within (k : Nat) (i : Int) : Prop :=
  -2 ^ k ≤ i ∧ i < 2 ^ k

instance (k : Nat) (i : Int) : Decidable (Within k i) :=
  inferInstanceAs (Decidable (_ ∧ _))

/-- Of a number of `k` bits and a sign, a shift by `k` places leaves the sign. -/
theorem ediv_eq_sign_iff {k : Nat} : i / 2 ^ k = (if i < 0 then -1 else 0) ↔ Within k i := by
  have hpos : (0 : Int) < 2 ^ k := Int.pow_pos (by decide)
  have hparts := Int.ediv_mul_add_emod i (2 ^ k)
  have hrest := Int.emod_nonneg i (Int.ne_of_gt hpos)
  have hless := Int.emod_lt_of_pos i hpos
  rw [Within]
  generalize (2 : Int) ^ k = p at *
  constructor
  · intro hquotient
    rw [hquotient] at hparts
    split at hparts <;> omega
  · rintro ⟨hlow, hhigh⟩
    split
    next hneg =>
      exact ((Int.ediv_emod_unique (r := i + p) hpos).mpr ⟨by omega, by omega, by omega⟩).1
    next hnonneg => exact Int.ediv_eq_zero_of_lt (by omega) hhigh

/-- The number of a pair of words: the high word 32 places up, with the bits of the low word. -/
def join (lo hi : Int) : Int :=
  Int.lor (hi * 2 ^ 32) lo

theorem join_eq_add (hlow : 0 ≤ lo) (hword : lo < 2 ^ 32) (hi : Int) : join lo hi = hi * 2 ^ 32 + lo := by
  rw [join, ← either_eq_lor, either_eq_add hlow hword]

theorem join_split (r : Int) : join (r % 2 ^ 32) (r / 2 ^ 32) = r := by
  rw [join_eq_add (Int.emod_nonneg r (by decide)) (Int.emod_lt_of_pos r (by decide))]
  exact Int.ediv_mul_add_emod r (2 ^ 32)

/-! ### Words of a fixed number of bits -/

theorem getLsbD_ofInt (i : Int) (place : Nat) :
    (BitVec.ofInt w i).getLsbD place = (decide (place < w) && i.testBit place) := by
  cases i with
  | ofNat m => exact BitVec.getLsbD_ofNat w m place
  | negSucc m =>
    rw [BitVec.ofInt_negSucc_eq_not_ofNat, BitVec.getLsbD_not, BitVec.getLsbD_ofNat]
    by_cases hplace : place < w <;> simp [hplace, Int.testBit]

theorem ofInt_land (i j : Int) : BitVec.ofInt w (Int.land i j) = BitVec.ofInt w i &&& BitVec.ofInt w j := by
  apply BitVec.eq_of_getLsbD_eq
  intro place hplace
  simp only [BitVec.getLsbD_and, getLsbD_ofInt, Int.testBit_land, hplace, decide_true, Bool.true_and]

theorem ofInt_lor (i j : Int) : BitVec.ofInt w (Int.lor i j) = BitVec.ofInt w i ||| BitVec.ofInt w j := by
  apply BitVec.eq_of_getLsbD_eq
  intro place hplace
  simp only [BitVec.getLsbD_or, getLsbD_ofInt, Int.testBit_lor, hplace, decide_true, Bool.true_and]

theorem ofInt_xor (i j : Int) : BitVec.ofInt w (Int.xor i j) = BitVec.ofInt w i ^^^ BitVec.ofInt w j := by
  apply BitVec.eq_of_getLsbD_eq
  intro place hplace
  simp only [BitVec.getLsbD_xor, getLsbD_ofInt, Int.testBit_lxor, hplace, decide_true, Bool.true_and]

theorem ofInt_lnot (i : Int) : BitVec.ofInt w (Int.lnot i) = ~~~BitVec.ofInt w i := by
  apply BitVec.eq_of_getLsbD_eq
  intro place hplace
  simp only [BitVec.getLsbD_not, getLsbD_ofInt, Int.testBit_lnot, hplace, decide_true, Bool.true_and]

end Handset.Bitwise
