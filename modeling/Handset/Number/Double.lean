/-!
# Doubles

IEEE 754 doubles by their bits. A finite double is `± m · 2 ^ q`; `ofRatio` goes back, from any
quotient of natural numbers to the nearest double, ties to the even one. Everything that has to be
exact (quotients of integers, comparison with integers, remainders, decimal text) is done on these
numbers, not on rounded intermediate results.
-/
namespace Handset

structure Double where
  bits : UInt64
deriving DecidableEq, Inhabited

namespace Double

def toFloat (d : Double) : Float :=
  Float.ofBits d.bits

def ofFloat (f : Float) : Double :=
  ⟨f.toBits⟩

def negative (d : Double) : Bool :=
  (1 <<< 63) ≤ d.bits.toNat

def exponentField (d : Double) : Nat :=
  (d.bits.toNat >>> 52) % (1 <<< 11)

def fraction (d : Double) : Nat :=
  d.bits.toNat % (1 <<< 52)

def isNaN (d : Double) : Bool :=
  d.exponentField == 2047 && d.fraction != 0

def isInfinite (d : Double) : Bool :=
  d.exponentField == 2047 && d.fraction == 0

def isFinite (d : Double) : Bool :=
  d.exponentField != 2047

/-- The numbers `m` and `q` with `|d| = m · 2 ^ q`, for finite `d`. -/
def magnitude (d : Double) : Nat × Int :=
  if d.exponentField = 0 then (d.fraction, -1074)
  else ((1 <<< 52) + d.fraction, (d.exponentField : Int) - 1075)

def ratio (d : Double) : Nat × Nat :=
  let (m, q) := d.magnitude
  if 0 ≤ q then (m <<< q.toNat, 1) else (m, 1 <<< (-q).toNat)

def ofFields (negative : Bool) (rest : Nat) : Double :=
  ⟨UInt64.ofNat (rest + if negative then 1 <<< 63 else 0)⟩

def zero (negative : Bool) : Double := ofFields negative 0

def infinity (negative : Bool) : Double := ofFields negative (2047 <<< 52)

def nan : Double := ⟨0x7FF8000000000000⟩

/-- The quotient rounded to the nearest natural number, a tie to the even one. -/
def roundQuotient (num den : Nat) : Nat :=
  let q := num / den
  let r := num % den
  if den < 2 * r ∨ (den = 2 * r ∧ q % 2 = 1) then q + 1 else q

/-- The quotient of `num` by `den · 2 ^ e`, rounded. -/
def scaledQuotient (num den : Nat) (e : Int) : Nat :=
  if 0 ≤ e then roundQuotient num (den <<< e.toNat)
  else roundQuotient (num <<< (-e).toNat) den

/-- The exponent of the last place of the double nearest to `num / den`. -/
def lastPlace (num den : Nat) : Int :=
  let e : Int := (num.log2 : Int) - den.log2 - 52
  let short : Bool :=
    if 0 ≤ e then num < den <<< (52 + e.toNat)
    else num <<< (-e).toNat < den <<< 52
  max (if short then e - 1 else e) (-1074)

/-- The double nearest to `± num / den`, ties to even; `none` beyond the largest double. -/
def ofRatio? (negative : Bool) (num den : Nat) : Option Double :=
  if num = 0 then some (zero negative)
  else
    let e := lastPlace num den
    let rest := ((e + 1074).toNat <<< 52) + scaledQuotient num den e
    if rest < 2047 <<< 52 then some (ofFields negative rest) else none

def ofInt? (i : Int) : Option Double :=
  ofRatio? (i < 0) i.natAbs 1

def ofQuotient? (a b : Int) : Option Double :=
  ofRatio? (decide (a < 0) != decide (b < 0)) a.natAbs b.natAbs

def add (a b : Double) : Double := ofFloat (a.toFloat + b.toFloat)

def sub (a b : Double) : Double := ofFloat (a.toFloat - b.toFloat)

def mul (a b : Double) : Double := ofFloat (a.toFloat * b.toFloat)

def div (a b : Double) : Double := ofFloat (a.toFloat / b.toFloat)

def neg (a : Double) : Double :=
  ofFields (!a.negative) (a.bits.toNat % (1 <<< 63))

def isZero (a : Double) : Bool :=
  a.bits.toNat % (1 <<< 63) == 0

def beq (a b : Double) : Bool := a.toFloat == b.toFloat

def lt (a b : Double) : Bool := a.toFloat < b.toFloat

def le (a b : Double) : Bool := a.toFloat ≤ b.toFloat

def truncate (a : Double) : Int :=
  let (num, den) := a.ratio
  if a.negative then -((num / den : Nat) : Int) else ((num / den : Nat) : Int)

def floor (a : Double) : Double := ofFloat a.toFloat.floor

/-- The sign of `i - a`, for finite `a`. -/
def compareInt (i : Int) (a : Double) : Ordering :=
  let (num, den) := a.ratio
  let signed : Int := if a.negative then -(num : Int) else num
  compare (i * den) signed

/-- The exact remainder of the division toward zero, with the sign of the dividend; `nan` where there
is none. -/
def remainder (a b : Double) : Double :=
  if a.isNaN || b.isNaN || a.isInfinite || b.isZero then nan
  else if b.isInfinite then a
  else
    let (an, ad) := a.ratio
    let (bn, bd) := b.ratio
    (ofRatio? a.negative (an * bd % (bn * ad)) (ad * bd)).getD nan

def floorMod (a b : Double) : Double :=
  let r := remainder a b
  if r.isNaN then r
  else if r.isZero then zero b.negative
  else if r.negative != b.negative then r.add b
  else r

/-- The quotient rounded down, taken from the remainder so that both fit together. -/
def floorDiv (a b : Double) : Double :=
  let r := remainder a b
  let whole := (a.sub r).div b
  let quotient :=
    if !r.isNaN && !r.isZero && r.negative != b.negative then whole.sub (ofFields false (1023 <<< 52))
    else whole
  if quotient.isZero then zero (a.div b).negative
  else
    let low := quotient.floor
    if (ofFields false (1022 <<< 52)).lt (quotient.sub low) then
      low.add (ofFields false (1023 <<< 52))
    else low

end Double

end Handset
