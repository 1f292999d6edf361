import Handset.Number.Double

/-!
# Decimal text of doubles

Two ways to write a finite double in decimal: the fewest digits that read back as the same double,
and a fixed number of places. Both work on exact quotients.
-/
namespace Handset.Double

def digitsOf (n : Nat) : List Char :=
  Nat.toDigits 10 n

/-- The least `k` with `num / den < 10 ^ k`, for quotients above `10 ^ -330`. -/
def decimalPoint (num den : Nat) : Int :=
  ((digitsOf (num * Nat.pow 10 330 / den)).length : Int) - 330

/-- How far below the double the numbers that round to it reach, in quarters of its last place. Below a
power of two the doubles lie twice as close. -/
def reach (d : Double) : Nat :=
  if d.magnitude.1 = 1 <<< 52 ∧ -1074 < d.magnitude.2 then 1 else 2

/-- Does the number of `n / scale` quarters of the last place round to the double? The ends of the
interval belong to an even significand. -/
def rounds (d : Double) (n scale : Nat) : Bool :=
  let low := (4 * d.magnitude.1 - d.reach) * scale
  let high := (4 * d.magnitude.1 + 2) * scale
  if d.magnitude.1 % 2 == 0 then low ≤ n && n ≤ high else low < n && n < high

/-- The factors that make whole numbers of `2 ^ binary` and `10 ^ unit`. -/
def scales (binary unit : Int) : Nat × Nat :=
  ((if 0 ≤ unit then 1 else Nat.pow 10 (-unit).toNat) <<< binary.toNat,
    (if 0 ≤ unit then Nat.pow 10 unit.toNat else 1) <<< (-binary).toNat)

/-- A candidate of `count` digits for the double: the grid of numbers with that many digits is
searched on both sides of the value, and a hit must lie in the interval of numbers that round to
the double. -/
def candidate? (d : Double) (point : Int) (count : Nat) : Option Nat :=
  -- all numbers are multiples of 2 ^ (q - 2), and of the grid's unit 10 ^ (point - count)
  let (scaleB, scaleU) := scales (d.magnitude.2 - 2) (point - count)
  let value := 4 * d.magnitude.1 * scaleB
  let below := value / scaleU
  let above := below + 1
  let gapBelow := value - below * scaleU
  let gapAbove := above * scaleU - value
  let first := if gapBelow < gapAbove || (gapBelow == gapAbove && below % 2 == 0) then below else above
  let second := if first == below then above else below
  if d.rounds (first * scaleU) scaleB then some first
  else if d.rounds (second * scaleU) scaleB then some second
  else none

/-- The fewest digits that read back, and the place of the point before them: `0.d₁d₂… · 10 ^ k`. -/
def shortest (d : Double) : List Char × Int :=
  let (num, den) := d.ratio
  let point := decimalPoint num den
  let found := (List.range 17).findSome? fun i => (candidate? d point (i + 1)).map fun n => (n, i + 1)
  let (n, count) := found.getD (num * Nat.pow 10 (17 - point).toNat / den, 17)
  let digits := digitsOf n
  let point := point + digits.length - count
  let trimmed := (digits.reverse.dropWhile (· == '0')).reverse
  (trimmed, point)

def exponentText (e : Nat) : String :=
  if e < 10 then s!"0{e}" else toString e

def zerosText (n : Nat) : String :=
  String.ofList (List.replicate n '0')

/-- The text of a positive finite double: positional from `0.0001` up to 16 digits before the point,
with an exponent outside. -/
def positiveText (d : Double) : String :=
  let (digits, point) := d.shortest
  let count : Int := digits.length
  if -4 < point ∧ point ≤ 16 then
    if point ≤ 0 then
      "0." ++ zerosText (-point).toNat ++ String.ofList digits
    else if count ≤ point then
      String.ofList digits ++ zerosText (point - count).toNat ++ ".0"
    else
      String.ofList (digits.take point.toNat) ++ "." ++ String.ofList (digits.drop point.toNat)
  else
    let e := point - 1
    let mantissa :=
      match digits with
      | [] => "0"
      | [c] => String.ofList [c]
      | c :: rest => String.ofList (c :: '.' :: rest)
    let sign := if e < 0 then "-" else "+"
    mantissa ++ "e" ++ sign ++ exponentText e.natAbs

def text (d : Double) : String :=
  if d.isNaN then "nan"
  else
    let sign := if d.negative then "-" else ""
    if d.isInfinite then sign ++ "inf"
    else if d.isZero then sign ++ "0.0"
    else sign ++ positiveText d

def fixed (places : Nat) (d : Double) : String :=
  if d.isNaN then "nan"
  else
    let sign := if d.negative then "-" else ""
    if d.isInfinite then sign ++ "inf"
    else
      let (num, den) := d.ratio
      let scaled := roundQuotient (num * Nat.pow 10 places) den
      let whole := toString (scaled / Nat.pow 10 places)
      if places = 0 then sign ++ whole
      else
        let part := digitsOf (scaled % Nat.pow 10 places)
        sign ++ whole ++ "." ++ zerosText (places - part.length) ++ String.ofList part

def percent (places : Nat) (d : Double) : String :=
  fixed places (d.mul (ofFields false ((1029 <<< 52) + (1 <<< 51) + (1 <<< 48)))) ++ "%"

end Handset.Double
