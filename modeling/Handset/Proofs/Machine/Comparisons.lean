import Handset.Proofs.Machine.WordArithmetic
import Handset.Proofs.Number.Positions

/-!
# Comparisons

A comparison of two numbers leaves 1, 0 or -1 for the order in which they stand on the line of numbers: integers
of any size, truth values and doubles in single registers, and the integers of pairs. The inverted forms leave the
opposite of what the others do, for all numbers and not only where one of them is undefined.
-/
namespace Handset

namespace Num

variable {x y : Num}

/-- 1 if the first number is the greater one, -1 if it is the smaller one, and 0 if they are equal. -/
def against (x y : Num) : Int :=
  if y.position < x.position then 1 else if x.position < y.position then -1 else 0

theorem against_eq (hx : x.isNaN = false) (hy : y.isNaN = false) :
    x.against y = if y.lt x then 1 else if x.lt y then -1 else 0 := by
  simp only [against, lt_iff hx hy, lt_iff hy hx]

theorem against_swap (x y : Num) : y.against x = -x.against y := by
  unfold against
  rcases lt_trichotomy x.position y.position with h | h | h
  · rw [if_pos h, if_neg h.not_gt, if_pos h]
    rfl
  · rw [h, if_neg (lt_irrefl _), if_neg (lt_irrefl _)]
    rfl
  · rw [if_neg h.not_gt, if_pos h, if_pos h]

theorem against_eq_zero_iff : x.against y = 0 ↔ x.position = y.position := by
  unfold against
  rcases lt_trichotomy x.position y.position with h | h | h
  · rw [if_neg h.not_gt, if_pos h]
    exact iff_of_false (by decide) h.ne
  · rw [h, if_neg (lt_irrefl _), if_neg (lt_irrefl _)]
    exact iff_of_true rfl rfl
  · rw [if_pos h]
    exact iff_of_false (by decide) h.ne'

end Num

namespace Act

open Step

open Dex (Instruction)

variable {m : Machine} {i : Instruction} {n : Nat} {v w : Value} {x y : Num} {width : Width}

/-- The number in a register, which is not an undefined one, or the integer that the words of a pair make. -/
def Operand (m : Machine) (width : Width) (n : Nat) (x : Num) : Prop :=
  match width with
  | .single => ∃ v, m.registers[n]? = some v ∧ v.num? = some x ∧ x.isNaN = false
  | .wide => ∃ j, Carries m .wide n j ∧ x = .int j

theorem Operand.on_load (h : Operand m width n x) (hread : Readable m width n) :
    ∃ v, (load width n).on m = (.ok v, m) ∧ v.num? = some x ∧ x.isNaN = false := by
  cases width with
  | single =>
    obtain ⟨v, hv, hx⟩ := h
    exact ⟨v, on_register_of_some hv, hx⟩
  | wide =>
    obtain ⟨j, hj, rfl⟩ := h
    obtain ⟨v, hload, hv⟩ := Act.on_load hj hread
    exact ⟨v, hload, Value.num?_of_int? hv, rfl⟩

theorem Operand.on_load_of_unreadable (h : Operand m width n x) (hread : ¬Readable m width n) :
    ∃ e, Overflows e ∧ (load width n).on m = (.error e, m) := by
  obtain ⟨rfl, -⟩ := Classical.not_imp.mp hread
  obtain ⟨j, hj, -⟩ := h
  exact Act.on_load_of_unreadable hj hread

theorem ordered_less (hv : v.num? = some x) (hw : w.num? = some y) :
    Value.ordered .less v w = .ok (x.lt y) := by
  cases v <;> cases hv <;> simp only [Value.ordered, hw] <;> rfl

/-- The first test of an inverted comparison is whether the first operand is the smaller one. -/
theorem compareValues_eq (hv : v.num? = some x) (hw : w.num? = some y) (hx : x.isNaN = false)
    (hy : y.isNaN = false) (inverted : Bool) :
    compareValues inverted v w = .ok (if inverted then -x.against y else x.against y) := by
  have hless : Value.compare .lt v w = .ok (x.lt y) := ordered_less hv hw
  have hgreater : Value.compare .gt v w = .ok (y.lt x) := ordered_less hw hv
  rw [compareValues]
  cases inverted with
  | false =>
    rw [if_neg Bool.false_ne_true, if_neg Bool.false_ne_true, if_neg Bool.false_ne_true, hgreater, hless,
      Num.against_eq hx hy]
    cases y.lt x <;> cases x.lt y <;> rfl
  | true =>
    rw [if_pos rfl, if_pos rfl, if_pos rfl, hgreater, hless, ← Num.against_swap, Num.against_eq hy hx]
    cases x.lt y <;> cases y.lt x <;> rfl

/-- With the destination in range and numbers in the operands' registers that are not undefined ones, or
integers in pairs of registers: a comparison leaves 1 if the first number is the greater one, 0 if they are
equal and -1 if the first is the smaller one, and an inverted comparison leaves the opposite. It changes no
other register, and only if the high word of a pair is too large for it the comparison fails and changes
nothing. Operands that change places give the opposite, so the two kinds agree on equal numbers only. -/
theorem comparison_results (pools : Pools) (i : Instruction) (m : Machine) (width : Width) (x y : Num)
    (hrange : i.a < m.registers.size) (hx : Operand m width i.b x) (hy : Operand m width i.c y) :
    (∀ inverted,
      (Readable m width i.b ∧ Readable m width i.c →
        ∃ t, (perform pools (.compare width inverted) i).on m = (.ok (), t) ∧
          RegisterWritten m t i.a (if inverted then -x.against y else x.against y)) ∧
      (¬(Readable m width i.b ∧ Readable m width i.c) →
        ∃ e, Overflows e ∧ (perform pools (.compare width inverted) i).on m = (.error e, m))) ∧
    y.against x = -x.against y ∧ (-x.against y = x.against y ↔ x.position = y.position) := by
  refine ⟨fun inverted => ⟨fun ⟨hfirst, hsecond⟩ => ?_, fun hread => ?_⟩, Num.against_swap x y, ?_⟩
  · obtain ⟨v, hv, hvx, hxnan⟩ := hx.on_load hfirst
    obtain ⟨w, hw, hwy, hynan⟩ := hy.on_load hsecond
    have hresult := compareValues_eq hvx hwy hxnan hynan inverted
    generalize (if inverted then -x.against y else x.against y) = r at hresult ⊢
    obtain ⟨t, hstore, hwritten⟩ := registerWritten_of_store (u := .int r) rfl hrange
    refine ⟨t, ?_, hwritten⟩
    rw [perform, compare, on_bind_ok hv, on_bind_ok hw, hresult, on_bind_ok (on_lift _ _)]
    exact hstore
  · by_cases hfirst : Readable m width i.b
    · obtain ⟨v, hv, -⟩ := hx.on_load hfirst
      obtain ⟨e, he, hw⟩ := hy.on_load_of_unreadable fun hsecond => hread ⟨hfirst, hsecond⟩
      exact ⟨e, he, by rw [perform, compare, on_bind_ok hv, on_bind_error hw]⟩
    · obtain ⟨e, he, hv⟩ := hx.on_load_of_unreadable hfirst
      exact ⟨e, he, on_bind_error hv _⟩
  · rw [← Num.against_eq_zero_iff]
    omega

/-- Negative infinity beside -5, which is the low word of a pair whose high word is a truth value. -/
def mixedMachine : Machine :=
  { registers := #[.none, .double ⟨0xFFF0000000000000⟩, .int (-5), .bool true, .int 0] }

/-- Negative infinity is below -5, and the pair of -5 and 1, which is -5, is below the pair of 1 and 0. -/
theorem comparisons_of_mixedMachine :
    (∃ t, (perform {} (.compare .single false) ⟨0x201, 0, 0⟩).on mixedMachine = (.ok (), t) ∧
      RegisterWritten mixedMachine t 0 (-1)) ∧
    (∃ t, (perform {} (.compare .single true) ⟨0x201, 0, 0⟩).on mixedMachine = (.ok (), t) ∧
      RegisterWritten mixedMachine t 0 1) ∧
    ∃ t, (perform {} (.compare .wide false) ⟨0x302, 0, 0⟩).on mixedMachine = (.ok (), t) ∧
      RegisterWritten mixedMachine t 0 (-1) := by
  have hinfinity : (Num.double ⟨0xFFF0000000000000⟩).against (.int (-5)) = -1 := by
    rw [Num.against_eq rfl rfl]
    decide +kernel
  have hintegers : (Num.int (-5)).against (.int 1) = -1 := by
    rw [Num.against_eq rfl rfl]
    decide +kernel
  have hjoin : Bitwise.join (-5) 1 = -5 ∧ Bitwise.join 1 0 = 1 := by decide +kernel
  have htrue : Holds mixedMachine 3 1 := ⟨_, rfl, rfl⟩
  have hzero : Holds mixedMachine 4 0 := ⟨_, rfl, rfl⟩
  obtain ⟨hsingle, -⟩ := comparison_results {} ⟨0x201, 0, 0⟩ mixedMachine .single _ _ (by decide)
    ⟨_, rfl, rfl, rfl⟩ ⟨_, rfl, rfl, rfl⟩
  obtain ⟨hwide, -⟩ := comparison_results {} ⟨0x302, 0, 0⟩ mixedMachine .wide _ _ (by decide)
    ⟨-5, ⟨-5, 1, ⟨_, rfl, rfl⟩, htrue, hjoin.1⟩, rfl⟩ ⟨1, ⟨1, 0, htrue, hzero, hjoin.2⟩, rfl⟩
  rw [hinfinity] at hsingle
  rw [hintegers] at hwide
  exact ⟨(hsingle false).1 ⟨nofun, nofun⟩, (hsingle true).1 ⟨nofun, nofun⟩,
    (hwide false).1 ⟨readable_of_fits htrue (.inr (by decide +kernel)), readable_of_fits hzero (.inl rfl)⟩⟩

/-- The numbers 2 and 1, each of them also the low word of a pair. -/
def descendingMachine : Machine :=
  { registers := #[.none, .int 2, .int 1, .int 0] }

/-- The first operand is the greater one, and the inverted comparisons leave -1. -/
theorem inverted_comparisons_leave_opposite :
    (Num.int 2).against (.int 1) = 1 ∧ (Num.int 4294967298).against (.int 1) = 1 ∧
    Operand descendingMachine .single 1 (.int 2) ∧ Operand descendingMachine .single 2 (.int 1) ∧
    Operand descendingMachine .wide 1 (.int 4294967298) ∧ Operand descendingMachine .wide 2 (.int 1) ∧
    ((perform {} (.compare .single true) ⟨0x201, 0, 0⟩).on descendingMachine).2.registers[0]? =
      some (.int (-1)) ∧
    ((perform {} (.compare .wide true) ⟨0x201, 0, 0⟩).on descendingMachine).2.registers[0]? =
      some (.int (-1)) := by
  have hjoin : Bitwise.join 2 1 = 4294967298 ∧ Bitwise.join 1 0 = 1 := by decide +kernel
  have hone : Holds descendingMachine 2 1 := ⟨_, rfl, rfl⟩
  refine ⟨?_, ?_, ⟨_, rfl, rfl, rfl⟩, ⟨_, rfl, rfl, rfl⟩, ⟨_, ⟨2, 1, ⟨_, rfl, rfl⟩, hone, hjoin.1⟩, rfl⟩,
    ⟨_, ⟨1, 0, hone, ⟨_, rfl, rfl⟩, hjoin.2⟩, rfl⟩, rfl, rfl⟩
  · rw [Num.against_eq rfl rfl]
    decide
  · rw [Num.against_eq rfl rfl]
    decide

end Act

end Handset
