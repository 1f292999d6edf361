import Handset.Proofs.Machine.Footprint
import Handset.Proofs.Value.IntegerOperations

/-!
# Arithmetic on registers that hold integers

An operation reads its operands, each from one register or as the number that a pair of registers makes,
computes with them as integers of any size, and only then writes. So its destination may be one of its
operands, and where it fails for lack of room no register has changed. Room can be lacking only where a number
is shifted up: for a pair's high word on its way to its place, and for a left shift.
-/
namespace Handset

/-- The bits of a number in one register or in two. -/
def Width.bits : Width → Nat
  | .single => 32
  | .wide => 64

namespace Act

open Step

open Dex (Instruction)

open Bitwise (join)

variable {m : Machine} {i : Instruction} {n : Nat} {v w : Value} {x y r : Int} {width : Width} {op : BinaryOp}
  {memory : Memory}

/-! ### The exact results -/

/-- The result of an operation on integers, if it has one: none by zero, and none of a shift by a negative
count. An unsigned shift first takes so many bits of its operand as the registers should have. -/
def integerResult? (width : Width) (op : BinaryOp) (x y : Int) : Option Int :=
  match op with
  | .add => some (x + y)
  | .sub => some (x - y)
  | .mul => some (x * y)
  | .floorDiv => if y = 0 then none else some (x.fdiv y)
  | .rem => if y = 0 then none else some (x.fmod y)
  | .and => some (Int.land x y)
  | .or => some (Int.lor x y)
  | .xor => some (Int.xor x y)
  | .shl => if y < 0 then none else some (x * 2 ^ y.toNat)
  | .shr => if y < 0 then none else some (x / 2 ^ y.toNat)
  | .ushr => if y < 0 then none else some (x % 2 ^ width.bits / 2 ^ y.toNat)
  | .trueDiv => none

/-- The result of an operation on one integer. -/
def integerOfOne (op : UnaryOp) (x : Int) : Int :=
  match op with
  | .neg => -x
  | .not => Int.lnot x

/-- The ways in which a number can be too large. -/
def Overflows (e : Fault) : Prop :=
  e = .tooLarge ∨ e = .outOfMemory

theorem unsignedRange_eq (width : Width) : unsignedRange width = 2 ^ width.bits := by
  cases width <;> rfl

theorem unsignedRange_ne_zero (width : Width) : unsignedRange width ≠ 0 := by
  cases width <;> decide

theorem same_zero (hy : w.int? = some y) : Value.same w (.int 0) = decide (y = 0) := by
  cases w <;> cases hy <;> rfl

/-- An unsigned shift first takes the bits of a number of that width. -/
theorem floorMod_unsignedRange (hx : v.int? = some x) :
    v.floorMod (.int (unsignedRange width)) = .ok (.int (x % 2 ^ width.bits)) := by
  rw [Value.floorMod_ints hx rfl (unsignedRange_ne_zero width), unsignedRange_eq,
    Int.fmod_eq_emod_of_nonneg _ (Int.pow_nonneg (by decide))]

theorem eval_exact (hx : v.int? = some x) (hy : w.int? = some y) (hr : integerResult? width op x y = some r)
    (hfits : op = .shl → Value.Fits memory x y.toNat) :
    ∃ u, BinaryOp.eval op width v w memory = .ok u ∧ u.int? = some r := by
  cases op with
  | add => cases hr; exact ⟨_, Value.add_ints hx hy, rfl⟩
  | sub => cases hr; exact ⟨_, Value.sub_ints hx hy, rfl⟩
  | mul => cases hr; exact ⟨_, Value.mul_ints hx hy, rfl⟩
  | floorDiv =>
    obtain ⟨hzero, ⟨⟩⟩ := Option.ite_none_left_eq_some.mp hr
    exact ⟨_, Value.floorDiv_ints hx hy hzero, rfl⟩
  | rem =>
    obtain ⟨hzero, ⟨⟩⟩ := Option.ite_none_left_eq_some.mp hr
    exact ⟨_, Value.floorMod_ints hx hy hzero, rfl⟩
  | and => cases hr; exact Value.and_ints hx hy
  | or => cases hr; exact Value.or_ints hx hy
  | xor => cases hr; exact Value.xor_ints hx hy
  | shl =>
    obtain ⟨hcount, ⟨⟩⟩ := Option.ite_none_left_eq_some.mp hr
    exact ⟨_, Value.shiftUp_of_fits hx hy (Int.not_lt.mp hcount) (hfits rfl), rfl⟩
  | shr =>
    obtain ⟨hcount, ⟨⟩⟩ := Option.ite_none_left_eq_some.mp hr
    exact ⟨_, Value.shiftDown_ints hx hy (Int.not_lt.mp hcount), rfl⟩
  | ushr =>
    obtain ⟨hcount, ⟨⟩⟩ := Option.ite_none_left_eq_some.mp hr
    refine ⟨.int _, ?_, rfl⟩
    rw [BinaryOp.eval, floorMod_unsignedRange hx]
    exact Value.shiftDown_ints rfl hy (Int.not_lt.mp hcount)
  | trueDiv => cases hr

/-- A left shift is the one operation that can have too large a result. -/
theorem eval_of_not_fits (hx : v.int? = some x) (hy : w.int? = some y)
    (hr : integerResult? width op x y = some r) (hfits : ¬(op = .shl → Value.Fits memory x y.toNat)) :
    ∃ e, Overflows e ∧ BinaryOp.eval op width v w memory = .error e := by
  obtain ⟨rfl, hlarge⟩ := Classical.not_imp.mp hfits
  obtain ⟨hcount, -⟩ := Option.ite_none_left_eq_some.mp hr
  rcases Value.shiftUp_of_not_fits hx hy (Int.not_lt.mp hcount) hlarge with hfault | hfault
  · exact ⟨_, .inl rfl, hfault⟩
  · exact ⟨_, .inr rfl, hfault⟩

theorem eval_of_negative_count (hx : v.int? = some x) (hy : w.int? = some y)
    (hshift : BinaryOp.isShift op = true) (hcount : y < 0) :
    BinaryOp.eval op width v w memory = .error .badValue := by
  cases op with
  | shl => exact Value.shiftUp_of_negative_count hx hy hcount
  | shr => exact Value.shiftDown_of_negative_count hx hy hcount
  | ushr =>
    rw [BinaryOp.eval, floorMod_unsignedRange hx]
    exact Value.shiftDown_of_negative_count rfl hy hcount
  | _ => cases hshift

/-! ### Reading the operands -/

/-- The register holds a value that counts as this integer. -/
def Holds (m : Machine) (n : Nat) (x : Int) : Prop :=
  ∃ v, m.registers[n]? = some v ∧ v.int? = some x

/-- The integer in a register, or the one that the words of a pair make. -/
def Carries (m : Machine) (width : Width) (n : Nat) (x : Int) : Prop :=
  match width with
  | .single => Holds m n x
  | .wide => ∃ lo hi, Holds m n lo ∧ Holds m (n + 1) hi ∧ join lo hi = x

/-- There is room to shift the high word of a pair to its place. -/
def Readable (m : Machine) (width : Width) (n : Nat) : Prop :=
  width = .wide → ∀ hi, Holds m (n + 1) hi → Value.Fits m.memory hi 32

theorem Holds.unique (hx : Holds m n x) (hy : Holds m n y) : x = y := by
  obtain ⟨v, hv, hx⟩ := hx
  obtain ⟨w, hw, hy⟩ := hy
  cases hv.symm.trans hw
  exact Option.some.inj (hx.symm.trans hy)

theorem readable_of_fits {hi : Int} (hhi : Holds m (n + 1) hi) (hfits : Value.Fits m.memory hi 32) :
    Readable m width n :=
  fun _ _ hother => hother.unique hhi ▸ hfits

theorem Holds.on_register (h : Holds m n x) :
    ∃ v, (register n).on m = (.ok v, m) ∧ v.int? = some x := by
  obtain ⟨v, hv, hx⟩ := h
  exact ⟨v, by rw [Act.on_register, hv], hx⟩

/-- Reading a pair succeeds with the number of its words if the high word can be shifted to its place, and
fails as that shift does if not. -/
theorem on_load (hx : Carries m width n x) (hread : Readable m width n) :
    ∃ v, (load width n).on m = (.ok v, m) ∧ v.int? = some x := by
  cases width with
  | single => exact hx.on_register
  | wide =>
    obtain ⟨lo, hi, hlo, hhi, rfl⟩ := hx
    have hfits := hread rfl hi hhi
    obtain ⟨low, hlow, hlo⟩ := hlo.on_register
    obtain ⟨high, hhigh, hhi⟩ := hhi.on_register
    have hshift := Value.shiftUp_of_fits (w := .int 32) (y := 32) hhi rfl (by decide) hfits
    obtain ⟨u, hor, hu⟩ := Value.or_ints (v := .int (hi * 2 ^ 32)) rfl hlo
    refine ⟨u, ?_, hu⟩
    rw [load, pair, on_bind_ok hhigh, on_bind_ok (on_withMemory_eq hshift), on_bind_ok hlow]
    exact (on_lift _ _).trans (congrArg (·, m) hor)

theorem on_load_of_unreadable (hx : Carries m width n x) (hread : ¬Readable m width n) :
    ∃ e, Overflows e ∧ (load width n).on m = (.error e, m) := by
  obtain ⟨rfl, -⟩ := Classical.not_imp.mp hread
  obtain ⟨-, hi, -, hhi, -⟩ := hx
  have hfits : ¬Value.Fits m.memory hi 32 := fun hfits => hread (readable_of_fits hhi hfits)
  obtain ⟨high, hhigh, hhi⟩ := hhi.on_register
  have hload {e : Fault} (he : high.shiftUp (.int 32) m.memory = .error e) :
      (load .wide n).on m = (.error e, m) := by
    rw [load, pair, on_bind_ok hhigh, on_bind_error (on_withMemory_eq he)]
  rcases Value.shiftUp_of_not_fits (w := .int 32) (y := 32) hhi rfl (by decide) hfits with he | he
  · exact ⟨_, .inl rfl, hload he⟩
  · exact ⟨_, .inr rfl, hload he⟩

/-! ### Operations with two operands and with one -/

/-- There is room for the numbers that an operation shifts up. -/
structure Room (m : Machine) (width : Width) (op : BinaryOp) (i : Instruction) (x y : Int) : Prop where
  first : Readable m width i.b
  second : Readable m (if BinaryOp.isShift op then .single else width) i.c
  result : op = .shl → Value.Fits m.memory x y.toNat

theorem not_division_by_zero (hy : w.int? = some y) (hr : integerResult? width op x y = some r) :
    (BinaryOp.isDivision op && Value.same w (.int 0)) = false := by
  rw [same_zero hy]
  cases op with
  | floorDiv => exact decide_eq_false (Option.ite_none_left_eq_some.mp hr).1
  | rem => exact decide_eq_false (Option.ite_none_left_eq_some.mp hr).1
  | trueDiv => cases hr
  | _ => rfl

theorem on_binary (hx : Carries m width i.b x)
    (hy : Carries m (if BinaryOp.isShift op then .single else width) i.c y)
    (hr : integerResult? width op x y = some r) (hroom : Room m width op i x y) :
    ∃ u, u.int? = some r ∧ (binary width op i).on m = (do store width i.a u; advance 1 : Act Unit).on m := by
  obtain ⟨v, hv, hx⟩ := on_load hx hroom.first
  obtain ⟨w, hw, hy⟩ := on_load hy hroom.second
  obtain ⟨u, heval, hu⟩ := eval_exact hx hy hr hroom.result
  refine ⟨u, hu, ?_⟩
  rw [binary, on_bind_ok hv, on_bind_ok hw, not_division_by_zero hy hr]
  exact on_bind_ok (on_withMemory_eq heval) _

theorem on_binary_of_not_room (hx : Carries m width i.b x)
    (hy : Carries m (if BinaryOp.isShift op then .single else width) i.c y)
    (hr : integerResult? width op x y = some r) (hroom : ¬Room m width op i x y) :
    ∃ e, Overflows e ∧ (binary width op i).on m = (.error e, m) := by
  by_cases hfirst : Readable m width i.b
  · obtain ⟨v, hv, hv'⟩ := on_load hx hfirst
    by_cases hsecond : Readable m (if BinaryOp.isShift op then .single else width) i.c
    · obtain ⟨w, hw, hw'⟩ := on_load hy hsecond
      obtain ⟨e, he, heval⟩ := eval_of_not_fits hv' hw' hr fun hresult => hroom ⟨hfirst, hsecond, hresult⟩
      refine ⟨e, he, ?_⟩
      rw [binary, on_bind_ok hv, on_bind_ok hw, not_division_by_zero hw' hr]
      exact on_bind_error (on_withMemory_eq heval) _
    · obtain ⟨e, he, hw⟩ := on_load_of_unreadable hy hsecond
      exact ⟨e, he, by rw [binary, on_bind_ok hv, on_bind_error hw]⟩
  · obtain ⟨e, he, hv⟩ := on_load_of_unreadable hx hfirst
    exact ⟨e, he, by rw [binary, on_bind_error hv]⟩

theorem on_binary_of_negative_count (hx : Carries m width i.b x) (hread : Readable m width i.b)
    (hy : Holds m i.c y) (hshift : BinaryOp.isShift op = true) (hcount : y < 0) :
    (binary width op i).on m = (.error .badValue, m) := by
  have hdivision : BinaryOp.isDivision op = false := by
    revert hshift
    cases op <;> decide
  obtain ⟨v, hv, hx⟩ := on_load hx hread
  obtain ⟨w, hw, hy⟩ := hy.on_register
  rw [binary, on_bind_ok hv, if_pos hshift, load, on_bind_ok hw, hdivision]
  exact on_bind_error (on_withMemory_eq (eval_of_negative_count hx hy hshift hcount)) _

theorem on_unary {op : UnaryOp} (hx : Carries m width i.b x) (hread : Readable m width i.b) :
    ∃ u, u.int? = some (integerOfOne op x) ∧
      (unary width op i).on m = (do store width i.a u; advance 1 : Act Unit).on m := by
  obtain ⟨v, hv, hx⟩ := on_load hx hread
  refine ⟨.int (integerOfOne op x), rfl, ?_⟩
  rw [unary, on_bind_ok hv]
  cases op with
  | neg => exact on_bind_ok ((on_lift _ _).trans (congrArg (·, m) (Value.neg_int hx))) _
  | not => exact on_bind_ok ((on_lift _ _).trans (congrArg (·, m) (Value.complement_int hx))) _

end Act

end Handset
