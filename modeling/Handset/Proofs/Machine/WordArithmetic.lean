import Handset.Proofs.Machine.ExactArithmetic
import Handset.Proofs.Number.SignedWords

/-!
# Arithmetic on single registers, beside words of 32 bits

Operations on single registers compute with integers of any size, divide rounding down and shift by the whole
count. Words of 32 bits wrap around, divide rounding towards zero and take counts modulo 32. The two are
compared on the numbers of words, operation by operation: what stays in range and does not mix signs agrees.
-/
namespace Handset.Act

open Step

open Dex (Instruction)

open Bitwise (Within)

variable {m t : Machine} {i : Instruction} {n : Nat} {u : Value} {r : Int} {op : BinaryOp} {x y z : BitVec 32}

/-! ### Operations on words -/

/-- The result of an operation on words: sums, differences and products wrap around, quotients are rounded
towards zero, remainders have the sign of the first word, and counts are taken modulo 32. -/
def wordResult? (op : BinaryOp) (x y : BitVec 32) : Option (BitVec 32) :=
  match op with
  | .add => some (x + y)
  | .sub => some (x - y)
  | .mul => some (x * y)
  | .floorDiv => if y = 0 then none else some (x.sdiv y)
  | .rem => if y = 0 then none else some (x.srem y)
  | .and => some (x &&& y)
  | .or => some (x ||| y)
  | .xor => some (x ^^^ y)
  | .shl => some (x <<< (y.toNat % 32))
  | .shr => some (x.sshiftRight (y.toNat % 32))
  | .ushr => some (x >>> (y.toNat % 32))
  | .trueDiv => none

/-- The result of an operation on one word. -/
def wordOfOne (op : UnaryOp) (x : BitVec 32) : BitVec 32 :=
  match op with
  | .neg => -x
  | .not => ~~~x

/-- The numbers on which the exact result is the result on words. -/
def Agrees (op : BinaryOp) (x y : Int) : Prop :=
  match op with
  | .add => Within 31 (x + y)
  | .sub => Within 31 (x - y)
  | .mul => Within 31 (x * y)
  | .floorDiv => (y ∣ x ∨ (0 ≤ x ↔ 0 ≤ y)) ∧ ¬(x = -2 ^ 31 ∧ y = -1)
  | .rem => y ∣ x ∨ (0 ≤ x ↔ 0 ≤ y)
  | .and | .or | .xor => True
  | .shl => Within 31 (x * 2 ^ y.toNat)
  | .shr => y.toNat < 32 ∨ Within (y.toNat % 32) x
  | .ushr => if y.toNat < 32 then 0 < y.toNat ∨ 0 ≤ x else 0 ≤ x ∧ x < 2 ^ (y.toNat % 32)
  | .trueDiv => False

instance (op : BinaryOp) (x y : Int) : Decidable (Agrees op x y) :=
  match op with
  | .add | .sub | .mul | .shl => inferInstanceAs (Decidable (Within _ _))
  | .floorDiv => inferInstanceAs (Decidable (_ ∧ _))
  | .rem | .shr => inferInstanceAs (Decidable (_ ∨ _))
  | .and | .or | .xor => inferInstanceAs (Decidable True)
  | .ushr => inferInstanceAs (Decidable (if y.toNat < 32 then _ else _))
  | .trueDiv => inferInstanceAs (Decidable False)

theorem toNat_toInt (h : 0 ≤ y.toInt) : y.toInt.toNat = y.toNat := by
  have hlt := y.isLt
  have hvalue := y.toInt_eq_toNat_cond
  split at hvalue <;> omega

theorem toInt_ne_zero (h : y ≠ 0) : y.toInt ≠ 0 :=
  fun hzero => h (BitVec.toInt_inj.mp (hzero.trans BitVec.toInt_zero.symm))

theorem exact_eq_word_iff (hr : integerResult? .single op x.toInt y.toInt = some r)
    (hz : wordResult? op x y = some z) : r = z.toInt ↔ Agrees op x.toInt y.toInt := by
  cases op with
  | add => cases hr; cases hz; exact Bitwise.add_eq_toInt_iff
  | sub => cases hr; cases hz; exact Bitwise.sub_eq_toInt_iff
  | mul => cases hr; cases hz; exact Bitwise.mul_eq_toInt_iff
  | floorDiv =>
    obtain ⟨hzero, ⟨⟩⟩ := Option.ite_none_left_eq_some.mp hr
    obtain ⟨-, ⟨⟩⟩ := Option.ite_none_left_eq_some.mp hz
    exact Bitwise.fdiv_eq_toInt_iff hzero
  | rem =>
    obtain ⟨hzero, ⟨⟩⟩ := Option.ite_none_left_eq_some.mp hr
    obtain ⟨-, ⟨⟩⟩ := Option.ite_none_left_eq_some.mp hz
    exact Bitwise.fmod_eq_toInt_iff hzero
  | and => cases hr; cases hz; exact iff_of_true (Bitwise.land_eq_toInt x y) trivial
  | or => cases hr; cases hz; exact iff_of_true (Bitwise.lor_eq_toInt x y) trivial
  | xor => cases hr; cases hz; exact iff_of_true (Bitwise.xor_eq_toInt x y) trivial
  | shl =>
    obtain ⟨hcount, ⟨⟩⟩ := Option.ite_none_left_eq_some.mp hr
    cases hz
    rw [Agrees, ← toNat_toInt (Int.not_lt.mp hcount)]
    exact Bitwise.shl_eq_toInt_iff x _
  | shr =>
    obtain ⟨hcount, ⟨⟩⟩ := Option.ite_none_left_eq_some.mp hr
    cases hz
    rw [Agrees, ← toNat_toInt (Int.not_lt.mp hcount)]
    exact Bitwise.shr_eq_toInt_iff x _
  | ushr =>
    obtain ⟨hcount, ⟨⟩⟩ := Option.ite_none_left_eq_some.mp hr
    cases hz
    rw [Agrees, ← toNat_toInt (Int.not_lt.mp hcount)]
    exact Bitwise.ushr_eq_toInt_iff x _
  | trueDiv => cases hr

theorem integerOfOne_eq_word_iff (op : UnaryOp) (x : BitVec 32) :
    integerOfOne op x.toInt = (wordOfOne op x).toInt ↔ (op = .neg → x.toInt ≠ -2 ^ 31) := by
  cases op with
  | neg => exact Bitwise.neg_eq_toInt_iff.trans (imp_iff_right rfl).symm
  | not => exact iff_of_true (Bitwise.lnot_eq_toInt x) nofun

/-- Words have an exact result wherever they have one, shifts by negative counts apart. -/
theorem exists_exact (hz : wordResult? op x y = some z)
    (hcount : ¬(BinaryOp.isShift op = true ∧ y.toInt < 0)) :
    ∃ r, integerResult? .single op x.toInt y.toInt = some r := by
  cases op with
  | floorDiv => exact ⟨_, if_neg (toInt_ne_zero (Option.ite_none_left_eq_some.mp hz).1)⟩
  | rem => exact ⟨_, if_neg (toInt_ne_zero (Option.ite_none_left_eq_some.mp hz).1)⟩
  | shl => exact ⟨_, if_neg fun hneg => hcount ⟨rfl, hneg⟩⟩
  | shr => exact ⟨_, if_neg fun hneg => hcount ⟨rfl, hneg⟩⟩
  | ushr => exact ⟨_, if_neg fun hneg => hcount ⟨rfl, hneg⟩⟩
  | trueDiv => cases hz
  | _ => exact ⟨_, rfl⟩

/-! ### Operations on single registers -/

/-- After an operation that writes a number into a register: the register holds it, no other register is
changed, and the machine has moved on by one. -/
structure RegisterWritten (m t : Machine) (n : Nat) (r : Int) : Prop where
  value : Holds t n r
  others : ∀ k, k ≠ n → t.registers[k]? = m.registers[k]?
  rest : t = { m with registers := t.registers, pc := m.pc + 1 }

theorem registerWritten_of_store (hu : u.int? = some r) (hrange : n < m.registers.size) :
    ∃ t, (do store .single n u; advance 1 : Act Unit).on m = (.ok (), t) ∧ RegisterWritten m t n r := by
  have hset := on_setRegister n u m
  rw [if_pos hrange] at hset
  exact ⟨_, on_bind_ok hset _, ⟨u, Array.getElem?_setIfInBounds_self_of_lt hrange, hu⟩,
    fun k hk => Array.getElem?_setIfInBounds_ne hk.symm, rfl⟩

/-- No shift of a word comes near the size that a number can have. -/
theorem fits_of_words (memory : Memory) (x y : BitVec 32) : Value.Fits memory x.toInt y.toInt.toNat := by
  by_cases hzero : x.toInt = 0
  · exact .inl hzero
  · obtain ⟨hlow, hhigh⟩ := Bitwise.within_toInt x
    have hlog : x.toInt.natAbs.log2 < 32 := (Nat.log2_lt (by omega)).mpr (by omega)
    have hcount := (Bitwise.within_toInt y).2
    have hplaces := memory.places_ge
    exact .inr ⟨by omega, by omega⟩

theorem room_of_words (x y : BitVec 32) : Room m .single op i x.toInt y.toInt where
  first := nofun
  second := by
    rw [ite_self]
    exact nofun
  result _ := fits_of_words m.memory x y

/-- With the numbers of words in the operands' registers and a destination in range, an operation on single
registers leaves the exact result in its destination and changes no other register; a shift by a negative
count fails and changes nothing. What is left is the result on words exactly on the numbers where the two
agree: sums, differences, products and left shifts that stay in range; quotients and remainders of numbers on
one side of zero or with nothing to be rounded; the operations on bits always; right shifts by less than 32
places, an unsigned one of a negative number by one place at least; and those by more places of numbers that
have no more bits than the count modulo 32. -/
theorem single_results_beside_words (pools : Pools) (i : Instruction) (m : Machine) (x y : BitVec 32)
    (hrange : i.a < m.registers.size) (hx : Holds m i.b x.toInt) :
    (∀ op z, Holds m i.c y.toInt → wordResult? op x y = some z →
      (BinaryOp.isShift op = true ∧ y.toInt < 0 →
        (perform pools (.binary .single op) i).on m = (.error .badValue, m)) ∧
      (¬(BinaryOp.isShift op = true ∧ y.toInt < 0) →
        ∃ r t, integerResult? .single op x.toInt y.toInt = some r ∧
          (perform pools (.binary .single op) i).on m = (.ok (), t) ∧ RegisterWritten m t i.a r ∧
          (r = z.toInt ↔ Agrees op x.toInt y.toInt))) ∧
    ∀ op, ∃ t, (perform pools (.unary .single op) i).on m = (.ok (), t) ∧
      RegisterWritten m t i.a (integerOfOne op x.toInt) ∧
      (integerOfOne op x.toInt = (wordOfOne op x).toInt ↔ (op = .neg → x.toInt ≠ -2 ^ 31)) := by
  have hfirst : Carries m .single i.b x.toInt := hx
  refine ⟨fun op z hy hz => ⟨fun ⟨hshift, hneg⟩ => ?_, fun hcount => ?_⟩, fun op => ?_⟩
  · exact on_binary_of_negative_count hfirst nofun hy hshift hneg
  · obtain ⟨r, hr⟩ := exists_exact hz hcount
    obtain ⟨u, hu, hbinary⟩ := on_binary hfirst (by rw [ite_self]; exact hy) hr (room_of_words x y)
    obtain ⟨t, hstore, hwritten⟩ := registerWritten_of_store hu hrange
    exact ⟨r, t, hr, hbinary.trans hstore, hwritten, exact_eq_word_iff hr hz⟩
  · obtain ⟨u, hu, hunary⟩ := on_unary hfirst nofun
    obtain ⟨t, hstore, hwritten⟩ := registerWritten_of_store hu hrange
    exact ⟨t, hunary.trans hstore, hwritten, integerOfOne_eq_word_iff op x⟩

/-- The largest word, one, and two numbers on either side of zero. -/
def wordBounds : Machine :=
  { registers := #[.int 0, .int 2147483647, .int 1, .int (-7), .int 2] }

/-- A difference in range, a quotient that is rounded, and a negative count. -/
theorem single_results_of_wordBounds :
    (∃ t, (perform {} (.binary .single .sub) ⟨513, 0, 0⟩).on wordBounds = (.ok (), t) ∧
      RegisterWritten wordBounds t 0 (2147483647#32 - 1#32).toInt) ∧
    (∃ t, (perform {} (.binary .single .floorDiv) ⟨1027, 0, 0⟩).on wordBounds = (.ok (), t) ∧
      RegisterWritten wordBounds t 0 (-4) ∧ -4 ≠ ((-7#32).sdiv 2#32).toInt) ∧
    (perform {} (.binary .single .shl) ⟨769, 0, 0⟩).on wordBounds = (.error .badValue, wordBounds) := by
  have hsub := (single_results_beside_words {} ⟨513, 0, 0⟩ wordBounds 2147483647#32 1#32 (by decide)
    ⟨_, rfl, rfl⟩).1 .sub _ ⟨_, rfl, rfl⟩ rfl
  have hdiv := (single_results_beside_words {} ⟨1027, 0, 0⟩ wordBounds (-7#32) 2#32 (by decide)
    ⟨_, rfl, rfl⟩).1 .floorDiv _ ⟨_, rfl, rfl⟩ rfl
  have hshl := (single_results_beside_words {} ⟨769, 0, 0⟩ wordBounds 2147483647#32 (-7#32) (by decide)
    ⟨_, rfl, rfl⟩).1 .shl _ ⟨_, rfl, rfl⟩ rfl
  obtain ⟨_, t, -, hsubbed, hdifference, hagrees⟩ := hsub.2 nofun
  obtain ⟨_, s, ⟨⟩, hdivided, hquotient, hdiffers⟩ := hdiv.2 nofun
  refine ⟨⟨t, hsubbed, ?_⟩, ⟨s, hdivided, hquotient, ?_⟩, hshl.1 (by decide)⟩
  · rwa [← hagrees.mpr (by decide)]
  · exact fun heq => absurd (hdiffers.mp heq) (by decide)

/-- The sum of the largest word and one is out of range, and the quotient and the remainder of -7 and 2 are
rounded down. -/
theorem single_results_not_words :
    (wordResult? .add 2147483647#32 1#32).map BitVec.toInt = some (-2147483648) ∧
    (wordResult? .floorDiv (-7#32) 2#32).map BitVec.toInt = some (-3) ∧
    (wordResult? .rem (-7#32) 2#32).map BitVec.toInt = some (-1) ∧
    ((perform {} (.binary .single .add) ⟨513, 0, 0⟩).on wordBounds).2.registers[0]? = some (.int 2147483648) ∧
    ((perform {} (.binary .single .floorDiv) ⟨1027, 0, 0⟩).on wordBounds).2.registers[0]? = some (.int (-4)) ∧
    ((perform {} (.binary .single .rem) ⟨1027, 0, 0⟩).on wordBounds).2.registers[0]? = some (.int 1) :=
  ⟨by decide, by decide, by decide, rfl, rfl, rfl⟩

end Handset.Act
