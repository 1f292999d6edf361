import Handset.Proofs.Number.Differences

/-!
# The line of numbers

Every number but an undefined one has a position on the line of the rational numbers, which has two ends for
the infinities. A finite double is compared by its exponent before its significand. This is the order of the
positions because the significand of every exponent but the lowest has its leading bit. Integers of any size
are compared with doubles without rounding, so all numbers are in one order.
-/
namespace Handset.Double

open Float.Model Float.Model.UnpackedFloat

variable {a b d : Double} {m n : Nat} {e f : Int}

/-! ### Significands and exponents -/

/-- The significands that go with an exponent: of 53 bits with the leading one set, or any of fewer bits with
the lowest exponent. -/
structure Canonical (m : Nat) (e : Int) : Prop where
  significand : m < 2 ^ 53
  lowest : -1074 ≤ e
  leading : e ≠ -1074 → 2 ^ 52 ≤ m

theorem canonical_magnitude (d : Double) : Canonical d.magnitude.1 d.magnitude.2 := by
  refine ⟨magnitude_lt d, ?_, ?_⟩
  · unfold magnitude
    split <;> dsimp only <;> omega
  · unfold magnitude
    split
    · exact fun hne => absurd rfl hne
    · exact fun _ => Nat.le_add_right _ _

theorem Canonical.lt_of_exponent_lt (hm : Canonical m e) (hn : Canonical n f) (h : e < f) :
    (m : ℚ) * 2 ^ e < n * 2 ^ f := by
  have hlow := hm.lowest
  have hsmall : (m : ℚ) < 2 ^ 53 := by exact_mod_cast hm.significand
  have hlarge : (2 : ℚ) ^ 52 ≤ n := by exact_mod_cast hn.leading (by omega)
  calc (m : ℚ) * 2 ^ e < 2 ^ 53 * 2 ^ e := mul_lt_mul_of_pos_right hsmall (by positivity)
    _ = 2 ^ 52 * 2 ^ (e + 1) := by rw [zpow_add_one₀ (by norm_num)]; ring
    _ ≤ 2 ^ 52 * 2 ^ f :=
      mul_le_mul_of_nonneg_left (zpow_le_zpow_right₀ (by norm_num) (by omega)) (by positivity)
    _ ≤ n * 2 ^ f := mul_le_mul_of_nonneg_right hlarge (by positivity)

/-- The order by exponents and then by significands is that of the numbers. -/
theorem Canonical.lt_iff (hm : Canonical m e) (hn : Canonical n f) :
    (compare e f).then (compare m n) = .lt ↔ (m : ℚ) * 2 ^ e < n * 2 ^ f := by
  rw [Ordering.then_eq_lt, Int.compare_eq_lt, Int.compare_eq_eq, Nat.compare_eq_lt]
  constructor
  · rintro (h | ⟨rfl, h⟩)
    · exact hm.lt_of_exponent_lt hn h
    · exact mul_lt_mul_of_pos_right (by exact_mod_cast h) (by positivity)
  · intro h
    rcases lt_trichotomy e f with hlt | rfl | hgt
    · exact .inl hlt
    · exact .inr ⟨rfl, by exact_mod_cast lt_of_mul_lt_mul_right h (by positivity)⟩
    · exact absurd (hn.lt_of_exponent_lt hm hgt) (not_lt.mpr h.le)

/-- Machine numbers that stand for finite doubles. -/
def Regular : UnpackedFloat → Prop
  | .zero _ => True
  | .finite _ m e _ => Canonical m e
  | _ => False

theorem regular_unpacked (d : Double) : Regular d.unpacked := by
  unfold unpacked
  split
  · trivial
  · exact canonical_magnitude d

section Worth

variable (m : Nat) (e : Int) (h : 0 < m)

theorem worth_positive : worth (.finite .positive m e h) = m * 2 ^ e := by
  simp [worth, Sign.apply]

theorem worth_negative : worth (.finite .negative m e h) = -(m * 2 ^ e) := by
  simp [worth, Sign.apply]

theorem worth_positive_pos : 0 < worth (.finite .positive m e h) := by
  rw [worth_positive]
  positivity

theorem worth_negative_neg : worth (.finite .negative m e h) < 0 := by
  rw [worth_negative, neg_neg_iff_pos]
  positivity

end Worth

/-- Machine numbers are ordered as the numbers that they stand for. -/
theorem compare_eq_lt_iff {u v : UnpackedFloat} (hu : Regular u) (hv : Regular v) :
    UnpackedFloat.compare u v = some .lt ↔ worth u < worth v := by
  cases u with
  | notANumber | infinity => exact hu.elim
  | zero s =>
    cases v with
    | notANumber | infinity => exact hv.elim
    | zero s' => exact iff_of_false (by simp [UnpackedFloat.compare]) (lt_irrefl 0)
    | finite s' n f hn =>
      cases s' with
      | positive => exact iff_of_true rfl (worth_positive_pos n f hn)
      | negative => exact iff_of_false (by simp [UnpackedFloat.compare]) (worth_negative_neg n f hn).not_gt
  | finite s m e hm =>
    cases v with
    | notANumber | infinity => exact hv.elim
    | zero s' =>
      cases s with
      | positive => exact iff_of_false (by simp [UnpackedFloat.compare]) (worth_positive_pos m e hm).not_gt
      | negative => exact iff_of_true rfl (worth_negative_neg m e hm)
    | finite s' n f hn =>
      cases s with
      | positive =>
        cases s' with
        | positive =>
          rw [worth_positive, worth_positive, ← Canonical.lt_iff hu hv]
          exact Option.some_inj
        | negative =>
          exact iff_of_false (by simp [UnpackedFloat.compare])
            ((worth_negative_neg n f hn).trans (worth_positive_pos m e hm)).not_gt
      | negative =>
        cases s' with
        | positive => exact iff_of_true rfl ((worth_negative_neg m e hm).trans (worth_positive_pos n f hn))
        | negative =>
          rw [worth_negative, worth_negative, neg_lt_neg_iff, ← Canonical.lt_iff hv hu, ← Int.compare_swap,
            ← Nat.compare_swap, ← Ordering.swap_then]
          exact Option.some_inj

/-! ### Infinities -/

/-- The line of the rational numbers with an end on either side. -/
abbrev Line := WithBot (WithTop ℚ)

/-- The position of a machine number that is defined. -/
def place : UnpackedFloat → Line
  | .infinity .negative => ⊥
  | .infinity .positive => ⊤
  | u => (worth u : WithTop ℚ)

/-- Machine numbers that stand for defined doubles. -/
def Placed (u : UnpackedFloat) : Prop :=
  Regular u ∨ ∃ s, u = .infinity s

theorem place_of_regular {u : UnpackedFloat} (h : Regular u) : place u = (worth u : WithTop ℚ) := by
  cases u with
  | notANumber | infinity => exact h.elim
  | zero | finite => rfl

theorem place_bounds {u : UnpackedFloat} (h : Regular u) : ⊥ < place u ∧ place u < ⊤ := by
  rw [place_of_regular h]
  exact ⟨WithBot.bot_lt_coe _, WithBot.coe_lt_coe.mpr (WithTop.coe_lt_top _)⟩

theorem compare_infinity_left {v : UnpackedFloat} (hv : Regular v) (s : Sign) :
    UnpackedFloat.compare (.infinity s) v = some .lt ↔ place (.infinity s) < place v := by
  obtain ⟨hbelow, habove⟩ := place_bounds hv
  cases v with
  | notANumber | infinity => exact hv.elim
  | zero | finite =>
    cases s with
    | negative => exact iff_of_true rfl hbelow
    | positive => exact iff_of_false (by simp [UnpackedFloat.compare]) habove.not_gt

theorem compare_infinity_right {u : UnpackedFloat} (hu : Regular u) (s : Sign) :
    UnpackedFloat.compare u (.infinity s) = some .lt ↔ place u < place (.infinity s) := by
  obtain ⟨hbelow, habove⟩ := place_bounds hu
  cases u with
  | notANumber | infinity => exact hu.elim
  | zero | finite =>
    cases s with
    | negative => exact iff_of_false (by simp [UnpackedFloat.compare]) hbelow.not_gt
    | positive => exact iff_of_true rfl habove

theorem compare_infinities (s s' : Sign) :
    UnpackedFloat.compare (.infinity s) (.infinity s') = some .lt ↔
      place (.infinity s) < place (.infinity s') := by
  cases s <;> cases s'
  case negative.positive => exact iff_of_true rfl bot_lt_top
  case positive.negative => exact iff_of_false (by decide) not_lt_bot
  all_goals exact iff_of_false (by decide) (lt_irrefl _)

theorem compare_eq_lt_iff_place {u v : UnpackedFloat} (hu : Placed u) (hv : Placed v) :
    UnpackedFloat.compare u v = some .lt ↔ place u < place v := by
  rcases hu with hu | ⟨s, rfl⟩ <;> rcases hv with hv | ⟨s', rfl⟩
  · rw [compare_eq_lt_iff hu hv, place_of_regular hu, place_of_regular hv, WithBot.coe_lt_coe,
      WithTop.coe_lt_coe]
  · exact compare_infinity_right hu s'
  · exact compare_infinity_left hv s
  · exact compare_infinities s s'

/-! ### Doubles -/

/-- The position of a double that is defined. -/
def position (d : Double) : Line :=
  if d.isInfinite then (if d.negative then ⊥ else ⊤) else (d.value : WithTop ℚ)

theorem isFinite_of_not (hnan : d.isNaN = false) (hinf : ¬d.isInfinite = true) : d.isFinite = true := by
  rw [isFinite_iff]
  intro hfield
  by_cases hfraction : d.fraction = 0
  · exact hinf (by simp [isInfinite, hfield, hfraction])
  · simp [isNaN, hfield, hfraction] at hnan

theorem eq_infinity_of_infinite (h : d.isInfinite = true) : d = infinity d.negative := by
  have hlt : d.bits.toNat < 2 ^ 64 := d.bits.toNat_lt
  obtain ⟨hfield, hfraction⟩ : d.exponentField = 2047 ∧ d.fraction = 0 := by simpa [isInfinite] using h
  rw [exponentField_eq] at hfield
  rw [fraction_eq] at hfraction
  have hbits : d.bits.toNat = (infinity d.negative).bits.toNat := by
    by_cases hneg : d.negative = true
    · have hhigh := negative_iff.mp hneg
      rw [hneg]
      change _ = 4095 * 2 ^ 52
      omega
    · have hlow := mt negative_iff.mpr hneg
      rw [Bool.not_eq_true] at hneg
      rw [hneg]
      change _ = 2047 * 2 ^ 52
      omega
  exact congrArg Double.mk (UInt64.toNat_inj.mp hbits)

theorem unpack_of_infinite (h : d.isInfinite = true) : d.toFloat.toModel.unpack = .infinity d.sign := by
  rw [sign, eq_infinity_of_infinite h]
  cases d.negative <;> rfl

theorem place_unpack (h : d.isNaN = false) :
    Placed d.toFloat.toModel.unpack ∧ place d.toFloat.toModel.unpack = d.position := by
  by_cases hinf : d.isInfinite = true
  · rw [unpack_of_infinite hinf, position, if_pos hinf, sign]
    refine ⟨.inr ⟨_, rfl⟩, ?_⟩
    split <;> rfl
  · rw [unpack_toFloat (isFinite_of_not h hinf), position, if_neg hinf]
    have hregular := regular_unpacked d
    exact ⟨.inl hregular, by rw [place_of_regular hregular, worth_unpacked]⟩

/-- Doubles are ordered as their positions. -/
theorem lt_iff (ha : a.isNaN = false) (hb : b.isNaN = false) : a.lt b = true ↔ a.position < b.position := by
  obtain ⟨hplaced, hplace⟩ := place_unpack ha
  obtain ⟨hplaced', hplace'⟩ := place_unpack hb
  have hcompare : a.lt b =
      (UnpackedFloat.compare a.toFloat.toModel.unpack b.toFloat.toModel.unpack == some .lt) := by
    exact Bool.decide_eq_true.trans Bool.decide_eq_true
  rw [hcompare, beq_iff_eq, compare_eq_lt_iff_place hplaced hplaced', hplace, hplace']

theorem compare_self {u : UnpackedFloat} (h : Placed u) : UnpackedFloat.compare u u = some .eq := by
  rcases h with h | ⟨s, rfl⟩
  · cases u with
    | notANumber | infinity => exact h.elim
    | zero => rfl
    | finite s m e hm => cases s <;> simp [UnpackedFloat.compare]
  · cases s <;> rfl

theorem beq_self (h : a.isNaN = false) : a.beq a = true := by
  have hcompare : a.beq a =
      (UnpackedFloat.compare a.toFloat.toModel.unpack a.toFloat.toModel.unpack == some .eq) := rfl
  rw [hcompare, beq_iff_eq, compare_self (place_unpack h).1]

end Handset.Double

namespace Handset.Num

open Double

variable {x y : Num}

def isNaN : Num → Bool
  | int _ => false
  | double d => d.isNaN

/-- The position of a number that is defined. -/
def position : Num → Line
  | int i => ((i : ℚ) : WithTop ℚ)
  | double d => d.position

theorem int_lt_double_iff (i : Int) {d : Double} (h : d.isNaN = false) :
    (int i).lt (double d) = true ↔ (int i).position < d.position := by
  simp only [Num.lt, h, Bool.false_eq_true, if_false, position, Double.position]
  by_cases hinf : d.isInfinite = true
  · rw [if_pos hinf, if_pos hinf, Bool.not_eq_true']
    cases d.negative with
    | true => exact iff_of_false (by decide) not_lt_bot
    | false => exact iff_of_true rfl (WithBot.coe_lt_coe.mpr (WithTop.coe_lt_top _))
  · rw [if_neg hinf, if_neg hinf, beq_iff_eq, (compareInt_spec i d).1, WithBot.coe_lt_coe, WithTop.coe_lt_coe]

theorem double_lt_int_iff (i : Int) {d : Double} (h : d.isNaN = false) :
    (double d).lt (int i) = true ↔ d.position < (int i).position := by
  simp only [Num.lt, h, Bool.false_eq_true, if_false, position, Double.position]
  by_cases hinf : d.isInfinite = true
  · rw [if_pos hinf, if_pos hinf]
    cases d.negative with
    | true => exact iff_of_true rfl (WithBot.bot_lt_coe _)
    | false => exact iff_of_false (by decide) not_top_lt
  · rw [if_neg hinf, if_neg hinf, beq_iff_eq, (compareInt_spec i d).2, WithBot.coe_lt_coe, WithTop.coe_lt_coe]

/-- Numbers of both kinds are ordered as their positions. -/
theorem lt_iff (hx : x.isNaN = false) (hy : y.isNaN = false) : x.lt y = true ↔ x.position < y.position := by
  cases x with
  | int i =>
    cases y with
    | int j => simp [Num.lt, position]
    | double b => exact int_lt_double_iff i hy
  | double a =>
    cases y with
    | int j => exact double_lt_int_iff j hx
    | double b => exact Double.lt_iff hx hy

theorem isFinite_eq_false {d : Double} (h : d.isNaN = true ∨ d.isInfinite = true) : d.isFinite = false := by
  rw [Bool.eq_false_iff]
  intro hfinite
  simp [not_isNaN_of_isFinite hfinite] at h

theorem double_eq_int_iff (i : Int) {d : Double} (h : d.isNaN = false) :
    (double d).eq (int i) = true ↔ d.position = (int i).position := by
  simp only [Num.eq, position, Double.position]
  by_cases hinf : d.isInfinite = true
  · rw [isFinite_eq_false (.inr hinf), Bool.false_and, if_pos hinf]
    cases d.negative with
    | true => exact iff_of_false (by decide) WithBot.bot_ne_coe
    | false => exact iff_of_false (by decide) fun heq => WithTop.top_ne_coe (WithBot.coe_inj.mp heq)
  · obtain ⟨hlt, hgt⟩ := compareInt_spec i d
    have heq : compareInt i d = .eq ↔ ¬compareInt i d = .lt ∧ ¬compareInt i d = .gt := by
      cases compareInt i d <;> simp
    rw [isFinite_of_not h hinf, Bool.true_and, if_neg hinf, beq_iff_eq, heq, hlt, hgt, not_lt, not_lt,
      WithBot.coe_inj, WithTop.coe_inj]
    exact le_antisymm_iff.symm

theorem position_le_position_iff {i j : Int} : (int i).position ≤ (int j).position ↔ i ≤ j := by
  simp [position]

/-- A number is at most an integer exactly if its position is; an undefined number never is. -/
theorem le_int_iff (x : Num) (i : Int) :
    x.le (int i) = true ↔ x.isNaN = false ∧ x.position ≤ (int i).position := by
  rw [Num.le, Bool.or_eq_true]
  cases x with
  | int j =>
    rw [position_le_position_iff, Int.le_iff_lt_or_eq, Num.lt, Num.eq, decide_eq_true_eq, beq_iff_eq]
    exact (and_iff_right rfl).symm
  | double d =>
    cases hnan : d.isNaN with
    | true => simp [Num.lt, Num.eq, isNaN, hnan, isFinite_eq_false (.inl hnan)]
    | false =>
      rw [double_lt_int_iff i hnan, double_eq_int_iff i hnan, ← le_iff_lt_or_eq]
      exact (and_iff_right hnan).symm

end Handset.Num
