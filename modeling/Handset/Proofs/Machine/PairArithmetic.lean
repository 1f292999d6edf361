import Handset.Proofs.Machine.ExactArithmetic

/-!
# Arithmetic on pairs of registers

A pair is read as the number that its words make together, whatever integers they are, and a result is written
as its remainder by 2^32 and the rest. So an operation on pairs leaves the exact result, of any sign and size:
there is no upper end to the high word.
-/
namespace Handset.Act

open Step

open Dex (Instruction)

open Bitwise (join)

variable {m t : Machine} {i : Instruction} {n : Nat} {u : Value} {r : Int}

/-- After an operation that writes a number into a pair: the words make the number, the low one has 32 bits,
no other register is changed, and the machine has moved on by one. -/
structure PairWritten (m t : Machine) (n : Nat) (r : Int) : Prop where
  words : ∃ lo hi, Holds t n lo ∧ Holds t (n + 1) hi ∧ 0 ≤ lo ∧ lo < 2 ^ 32 ∧ join lo hi = r
  others : ∀ k, k ≠ n → k ≠ n + 1 → t.registers[k]? = m.registers[k]?
  rest : t = { m with registers := t.registers, pc := m.pc + 1 }

theorem on_setPair (hu : u.int? = some r) (hroom : n + 1 < m.registers.size) :
    (setPair n u).on m = (.ok (), { m with
      registers :=
        (m.registers.setIfInBounds n (.int (r % 2 ^ 32))).setIfInBounds (n + 1) (.int (r / 2 ^ 32)) }) := by
  have hlow : u.and (.int wordMask) = .ok (.int (r % 2 ^ 32)) := Value.and_mask hu 32
  have hhigh := Value.shiftDown_ints (w := .int 32) (y := 32) hu rfl (by decide)
  have hfirst := on_setRegister n (.int (r % 2 ^ 32)) m
  rw [if_pos (Nat.lt_of_succ_lt hroom)] at hfirst
  rw [setPair, hlow, on_bind_ok (on_lift _ _), on_bind_ok hfirst, hhigh, on_bind_ok (on_lift _ _),
    on_setRegister, if_pos (by rw [Array.size_setIfInBounds]; exact hroom)]
  rfl

theorem pairWritten_of_store (hu : u.int? = some r) (hroom : n + 1 < m.registers.size) :
    ∃ t, (do store .wide n u; advance 1 : Act Unit).on m = (.ok (), t) ∧ PairWritten m t n r := by
  refine ⟨_, on_bind_ok (on_setPair hu hroom) _, ⟨r % 2 ^ 32, r / 2 ^ 32, ⟨.int _, ?_, rfl⟩, ⟨.int _, ?_, rfl⟩,
    Int.emod_nonneg r (by decide), Int.emod_lt_of_pos r (by decide), Bitwise.join_split r⟩, ?_, rfl⟩
  · change ((m.registers.setIfInBounds n _).setIfInBounds (n + 1) _)[n]? = some (.int (r % 2 ^ 32))
    rw [Array.getElem?_setIfInBounds_ne (Nat.succ_ne_self n),
      Array.getElem?_setIfInBounds_self_of_lt (Nat.lt_of_succ_lt hroom)]
  · refine Array.getElem?_setIfInBounds_self_of_lt ?_
    rw [Array.size_setIfInBounds]
    exact hroom
  · intro k hlow hhigh
    exact (Array.getElem?_setIfInBounds_ne hhigh.symm).trans (Array.getElem?_setIfInBounds_ne hlow.symm)

/-- With a destination in range, which may overlap the operands: an operation on pairs of registers that hold
any integers leaves the exact result on the numbers of the pairs, in two words of which the low one has 32
bits, and changes no other register. Divisions are by other numbers than zero and round down, shifts are by the
integer in one register, and an unsigned shift is of the lowest 64 bits. Only if a high word or a number to be
shifted left is too large for that, the operation fails, and then nothing is changed. -/
theorem pair_results_exact (pools : Pools) (i : Instruction) (m : Machine)
    (hrange : i.a + 1 < m.registers.size) :
    (∀ op x y r, Carries m .wide i.b x → Carries m (if BinaryOp.isShift op then .single else .wide) i.c y →
      integerResult? .wide op x y = some r →
        (Room m .wide op i x y →
          ∃ t, (perform pools (.binary .wide op) i).on m = (.ok (), t) ∧ PairWritten m t i.a r) ∧
        (¬Room m .wide op i x y →
          ∃ e, Overflows e ∧ (perform pools (.binary .wide op) i).on m = (.error e, m))) ∧
    ∀ op x, Carries m .wide i.b x →
      (Readable m .wide i.b →
        ∃ t, (perform pools (.unary .wide op) i).on m = (.ok (), t) ∧
          PairWritten m t i.a (integerOfOne op x)) ∧
      (¬Readable m .wide i.b →
        ∃ e, Overflows e ∧ (perform pools (.unary .wide op) i).on m = (.error e, m)) := by
  refine ⟨fun op x y r hx hy hr => ⟨fun hroom => ?_, on_binary_of_not_room hx hy hr⟩,
    fun op x hx => ⟨fun hread => ?_, fun hread => ?_⟩⟩
  · obtain ⟨u, hu, hbinary⟩ := on_binary hx hy hr hroom
    rw [perform, hbinary]
    exact pairWritten_of_store hu hrange
  · obtain ⟨u, hu, hunary⟩ := on_unary hx hread
    rw [perform, hunary]
    exact pairWritten_of_store hu hrange
  · obtain ⟨e, he, hload⟩ := on_load_of_unreadable hx hread
    exact ⟨e, he, on_bind_error hload _⟩

/-- A pair with a low word of more than 32 bits beside one with a negative low word. -/
def neighbours : Machine :=
  { registers := #[.int (-1), .int 5, .int 1099511627776, .bool true] }

/-- The destination takes the high word of the first operand and the low word of the second. -/
theorem pair_results_of_neighbours :
    (∃ t, (perform {} (.binary .wide .mul) ⟨528, 0, 0⟩).on neighbours = (.ok (), t) ∧
      PairWritten neighbours t 1 (-1103806595072)) ∧
    (∃ t, (perform {} (.binary .wide .ushr) ⟨784, 0, 0⟩).on neighbours = (.ok (), t) ∧
      PairWritten neighbours t 1 9223372036854775807) := by
  have hvalues : join (-1) 5 = -1 ∧ join 1099511627776 1 = 1103806595072 ∧
      integerResult? .wide .ushr (-1) 1 = some 9223372036854775807 := by decide +kernel
  obtain ⟨hfirst, hsecond, hshifted⟩ := hvalues
  have hfive : Holds neighbours 1 5 := ⟨_, rfl, rfl⟩
  have htrue : Holds neighbours 3 1 := ⟨_, rfl, rfl⟩
  have hpair : Carries neighbours .wide 0 (-1) := ⟨-1, 5, ⟨_, rfl, rfl⟩, hfive, hfirst⟩
  have hother : Carries neighbours .wide 2 1103806595072 :=
    ⟨1099511627776, 1, ⟨_, rfl, rfl⟩, htrue, hsecond⟩
  have hread : Readable neighbours .wide 0 := readable_of_fits hfive (.inr (by decide +kernel))
  have hreadOther : Readable neighbours .wide 2 := readable_of_fits htrue (.inr (by decide +kernel))
  exact ⟨((pair_results_exact {} ⟨528, 0, 0⟩ neighbours (by decide)).1 .mul _ _ _ hpair hother rfl).1
      ⟨hread, hreadOther, nofun⟩,
    ((pair_results_exact {} ⟨784, 0, 0⟩ neighbours (by decide)).1 .ushr _ _ _ hpair htrue hshifted).1
      ⟨hread, nofun, nofun⟩⟩

/-- The number one in a pair, a count that no number can be shifted by, and one that is too large for the memory. -/
def farShift : Machine :=
  { registers := #[.int 1, .int 0, .int 1180591620717411303424, .int 1152921504606846976] }

/-- A left shift by a count that is not negative, with its destination in range, can fail in two ways. -/
theorem pair_shift_fails :
    Carries farShift .wide 0 1 ∧ Carries farShift .single 2 (2 ^ 70) ∧ Carries farShift .single 3 (2 ^ 60) ∧
    0 + 1 < farShift.registers.size ∧
    (perform {} (.binary .wide .shl) ⟨512, 0, 0⟩).on farShift = (.error .tooLarge, farShift) ∧
    (perform {} (.binary .wide .shl) ⟨768, 0, 0⟩).on farShift = (.error .outOfMemory, farShift) :=
  ⟨⟨1, 0, ⟨_, rfl, rfl⟩, ⟨_, rfl, rfl⟩, by decide +kernel⟩, ⟨_, rfl, rfl⟩, ⟨_, rfl, rfl⟩, by decide, rfl, rfl⟩

end Handset.Act
