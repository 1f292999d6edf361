import Handset.Number.Decimal

/-!
# Doubles with a given number of digits

The absolute value of a finite double, rounded to a given number of places or digits and written
without exponent, with one, or with one where the number is very large or very small. All rounding is
of the exact value, a tie going to the even last digit.
-/
namespace Handset.Double

inductive Layout where
  | fixed
  | scientific
  /-- with a number of digits, and an exponent only where needed -/
  | general
deriving DecidableEq

/-- A whole part and places after a point; without places the point is written only if it is kept. -/
private def pointed (whole places : List Char) (keepPoint : Bool) : List Char :=
  if places.isEmpty && !keepPoint then whole else whole ++ '.' :: places

/-- The number rounded to `count` digits (at least one), with the exponent of the first digit. -/
def significant (count : Nat) (d : Double) : List Char × Int :=
  if d.isZero then (List.replicate count '0', 0)
  else
    let (num, den) := d.ratio
    let point := decimalPoint num den
    let shift := (count : Int) - point
    let scaled :=
      if 0 ≤ shift then roundQuotient (num * Nat.pow 10 shift.toNat) den
      else roundQuotient num (den * Nat.pow 10 (-shift).toNat)
    if scaled = Nat.pow 10 count then ('1' :: List.replicate (count - 1) '0', point)
    else (Nat.toDigits 10 scaled, point - 1)

private def exponentDigits (e : Int) : List Char :=
  let digits := Nat.toDigits 10 e.natAbs
  (if e < 0 then '-' else '+') :: (List.replicate (2 - digits.length) '0' ++ digits)

private def fixedDigits (places : Nat) (keepPoint : Bool) (d : Double) : List Char :=
  let (num, den) := d.ratio
  let scaled := roundQuotient (num * Nat.pow 10 places) den
  let part := Nat.toDigits 10 (scaled % Nat.pow 10 places)
  let after := if places = 0 then [] else List.replicate (places - part.length) '0' ++ part
  pointed (Nat.toDigits 10 (scaled / Nat.pow 10 places)) after keepPoint

private def withExponent (digits : List Char) (e : Int) (keepPoint : Bool) : List Char :=
  pointed (digits.take 1) (digits.drop 1) keepPoint ++ 'e' :: exponentDigits e

private def withoutZeros (digits : List Char) : List Char :=
  (digits.reverse.dropWhile (· == '0')).reverse

/-- The digits laid out around the point, which stands after the digit of exponent zero. -/
private def positional (digits : List Char) (e : Int) (keepPoint : Bool) : List Char :=
  if e < 0 then pointed ['0'] (List.replicate (-e - 1).toNat '0' ++ digits) keepPoint
  else
    let before := (e + 1).toNat
    let whole := digits.take before
    pointed (whole ++ List.replicate (before - whole.length) '0') (digits.drop before) keepPoint

/-- The absolute value of a finite double in a layout; `alternate` keeps the point and, in the general
layout, the zeros at the end. -/
def written (layout : Layout) (precision : Nat) (alternate : Bool) (d : Double) : List Char :=
  match layout with
  | .fixed => fixedDigits precision alternate d
  | .scientific =>
    let (digits, e) := significant (precision + 1) d
    withExponent digits e alternate
  | .general =>
    let count := max precision 1
    let (digits, e) := significant count d
    let digits := if alternate then digits else withoutZeros digits
    if -4 ≤ e ∧ e < count then positional digits e alternate
    else withExponent digits e alternate

end Handset.Double
