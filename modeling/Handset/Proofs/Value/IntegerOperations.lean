import Handset.Machine.Semantics
import Handset.Proofs.Number.Words

/-!
# Operations on integers among the values

On values that count as integers every operation has the result that it has on integers of any size: sums,
products, quotients and remainders rounded down, the operations on bits, and shifts as products with and
quotients by powers of two. Only a shift towards the higher bits can fail: a number has a limited number of
digits, and the memory has room for a limited number of new ones.
-/
namespace Handset

namespace Value

variable {v w : Value} {x y : Int} {memory : Memory}

theorem num?_of_int? (h : v.int? = some x) : v.num? = some (.int x) := by
  cases v with
  | bool b => cases h; rfl
  | int i => cases h; rfl
  | _ => cases h

theorem add_ints (hx : v.int? = some x) (hy : w.int? = some y) : v.add w = .ok (.int (x + y)) := by
  cases v <;> cases hx <;> cases w <;> cases hy <;> rfl

theorem sub_ints (hx : v.int? = some x) (hy : w.int? = some y) : v.sub w = .ok (.int (x - y)) := by
  rw [sub, onNumbers, num?_of_int? hx, num?_of_int? hy]

theorem mul_ints (hx : v.int? = some x) (hy : w.int? = some y) : v.mul w memory = .ok (.int (x * y)) := by
  simp only [mul, onNumbers, num?_of_int? hx, num?_of_int? hy]

theorem floorDiv_ints (hx : v.int? = some x) (hy : w.int? = some y) (hzero : y ≠ 0) :
    v.floorDiv w = .ok (.int (x.fdiv y)) := by
  simp only [floorDiv, num?_of_int? hx, num?_of_int? hy, if_neg hzero]

theorem floorMod_ints (hx : v.int? = some x) (hy : w.int? = some y) (hzero : y ≠ 0) :
    v.floorMod w = .ok (.int (x.fmod y)) := by
  cases v with
  | bool b => simp only [floorMod, num?_of_int? hx, num?_of_int? hy, if_neg hzero]
  | int i => simp only [floorMod, num?_of_int? hx, num?_of_int? hy, if_neg hzero]
  | _ => cases hx

/-- On two truth values the operations on bits have a truth value. -/
theorem and_ints (hx : v.int? = some x) (hy : w.int? = some y) :
    ∃ u, v.and w = .ok u ∧ u.int? = some (Int.land x y) := by
  rw [← Bitwise.both_eq_land]
  cases v <;> cases hx <;> cases w <;> cases hy
  case bool.refl.bool.refl b c => exact ⟨_, rfl, by cases b <;> cases c <;> rfl⟩
  all_goals exact ⟨_, rfl, rfl⟩

theorem and_mask (hx : v.int? = some x) (width : Nat) :
    v.and (.int (2 ^ width - 1 : Nat)) = .ok (.int (x % 2 ^ width)) := by
  rw [← Bitwise.both_mask]
  cases v <;> cases hx <;> rfl

theorem or_ints (hx : v.int? = some x) (hy : w.int? = some y) :
    ∃ u, v.or w = .ok u ∧ u.int? = some (Int.lor x y) := by
  rw [← Bitwise.either_eq_lor]
  cases v <;> cases hx <;> cases w <;> cases hy
  case bool.refl.bool.refl b c => exact ⟨_, rfl, by cases b <;> cases c <;> rfl⟩
  all_goals exact ⟨_, rfl, rfl⟩

theorem xor_ints (hx : v.int? = some x) (hy : w.int? = some y) :
    ∃ u, v.xor w = .ok u ∧ u.int? = some (Int.xor x y) := by
  rw [← Bitwise.oneOf_eq_xor]
  cases v <;> cases hx <;> cases w <;> cases hy
  case bool.refl.bool.refl b c => exact ⟨_, rfl, by cases b <;> cases c <;> rfl⟩
  all_goals exact ⟨_, rfl, rfl⟩

theorem neg_int (hx : v.int? = some x) : v.neg = .ok (.int (-x)) := by
  simp only [neg, num?_of_int? hx]

theorem complement_int (hx : v.int? = some x) : v.complement = .ok (.int (Int.lnot x)) := by
  rw [complement, hx, ← Bitwise.flip_eq_lnot]

/-- The number shifted up by so many places has no more than the digits of 30 bits that a number can have,
and the memory has room for the places. -/
def Fits (memory : Memory) (x : Int) (count : Nat) : Prop :=
  x = 0 ∨ (x.natAbs.log2 / 30 + 1 + (count + 29) / 30 ≤ 2305843009213693945 ∧ count ≤ memory.places)

theorem shiftUp_ints (hx : v.int? = some x) (hy : w.int? = some y) :
    v.shiftUp w memory =
      if y < 0 then .error .badValue
      else if x = 0 then .ok (.int 0)
      else if 2305843009213693945 < x.natAbs.log2 / 30 + 1 + (y.toNat + 29) / 30 then .error .tooLarge
      else if memory.places < y.toNat then .error .outOfMemory
      else .ok (.int (x * 2 ^ y.toNat)) := by
  have hpower : Bitwise.up x y.toNat = x * 2 ^ y.toNat := by
    rw [Bitwise.up_eq_mul, Nat.one_shiftLeft, Nat.cast_pow, Nat.cast_two]
  rw [← hpower]
  unfold shiftUp
  rw [hx, hy]
  rfl

theorem shiftUp_of_fits (hx : v.int? = some x) (hy : w.int? = some y) (hcount : 0 ≤ y)
    (hfits : Fits memory x y.toNat) : v.shiftUp w memory = .ok (.int (x * 2 ^ y.toNat)) := by
  rw [shiftUp_ints hx hy, if_neg (Int.not_lt.mpr hcount)]
  split
  next hzero => rw [hzero, Int.zero_mul]
  next hne =>
    obtain ⟨hdigits, hmemory⟩ := hfits.resolve_left hne
    rw [if_neg (by omega), if_neg (by omega)]

theorem shiftUp_of_not_fits (hx : v.int? = some x) (hy : w.int? = some y) (hcount : 0 ≤ y)
    (hfits : ¬Fits memory x y.toNat) :
    v.shiftUp w memory = .error .tooLarge ∨ v.shiftUp w memory = .error .outOfMemory := by
  have hne : x ≠ 0 := fun hzero => hfits (.inl hzero)
  rw [shiftUp_ints hx hy, if_neg (Int.not_lt.mpr hcount), if_neg hne]
  split
  next => exact .inl rfl
  next hdigits =>
    have hmemory : memory.places < y.toNat := by
      by_contra hsmall
      exact hfits (.inr ⟨by omega, by omega⟩)
    exact .inr (if_pos hmemory)

/-- What falls off at the lower end is rounded down. -/
theorem shiftDown_ints (hx : v.int? = some x) (hy : w.int? = some y) (hcount : 0 ≤ y) :
    v.shiftDown w = .ok (.int (x / 2 ^ y.toNat)) := by
  unfold shiftDown
  rw [hx, hy]
  dsimp only
  rw [if_neg (Int.not_lt.mpr hcount)]
  split
  next hsmall =>
    have hlt : x.natAbs < 2 ^ y.toNat :=
      Nat.lt_of_lt_of_le Nat.lt_log2_self (Nat.pow_le_pow_right (by decide) hsmall)
    have hcast : (x.natAbs : Int) < 2 ^ y.toNat := by exact_mod_cast hlt
    rw [Bitwise.ediv_eq_sign_iff.mpr ⟨by omega, by omega⟩]
  next => rw [Bitwise.down, Int.shiftRight_eq_div_pow, Nat.cast_pow, Nat.cast_two]

theorem shiftUp_of_negative_count (hx : v.int? = some x) (hy : w.int? = some y) (hcount : y < 0) :
    v.shiftUp w memory = .error .badValue := by
  rw [shiftUp_ints hx hy, if_pos hcount]

theorem shiftDown_of_negative_count (hx : v.int? = some x) (hy : w.int? = some y) (hcount : y < 0) :
    v.shiftDown w = .error .badValue := by
  unfold shiftDown
  rw [hx, hy]
  exact if_pos hcount

end Value

end Handset
