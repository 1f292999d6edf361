import Handset.Number.Double
import Handset.Text.Character

/-!
# Reading numbers

Integers and doubles from text: blanks around the number are skipped, decimal digits of every script
count, and an underscore may stand between two digits.
-/
namespace Handset.Number

open Text.Character

/-- Text as the number readers see it: in a text that is not plain ASCII, blanks of every kind are
blanks and decimal digits of every script are digits. -/
def normalize (s : String) : List Char :=
  let cs := s.toList
  if cs.all (·.toNat < 128) then cs
  else cs.map fun c =>
    if c.toNat < 127 then c
    else if isBlank c then ' '
    else match decimalValue? c with
      | some v => Char.ofNat (0x30 + v)
      | none => '?'

def splitSign : List Char → Bool × List Char
  | '-' :: rest => (true, rest)
  | '+' :: rest => (false, rest)
  | cs => (false, cs)

/-- The digits without the underscores between them; `none` if an underscore stands anywhere but
between two digits, or if there is another character. -/
def plainDigits? : List Char → Option (List Char)
  | [] => none
  | [c] => if c.isDigit then some [c] else none
  | c :: '_' :: d :: rest =>
    if c.isDigit then (plainDigits? (d :: rest)).map (c :: ·) else none
  | c :: d :: rest =>
    if c.isDigit then (plainDigits? (d :: rest)).map (c :: ·) else none

def ofDigits (cs : List Char) : Nat :=
  cs.foldl (fun n c => 10 * n + (c.toNat - 0x30)) 0

def maxDigits : Nat := 4300

def readInt? (s : String) : Option Int :=
  let (minus, body) := splitSign (trimBlanks isAsciiBlank (normalize s))
  match plainDigits? body with
  | none => none
  | some digits =>
    if maxDigits < digits.length then none
    else if minus then some (-(ofDigits digits : Int)) else some (ofDigits digits)

/-- Drops the underscores of a number that each stand between two digits. -/
def dropUnderscores? : List Char → Option (List Char)
  | [] => some []
  | '_' :: _ => none
  | [c] => some [c]
  | c :: '_' :: d :: rest =>
    if c.isDigit && d.isDigit then (dropUnderscores? (d :: rest)).map (c :: ·) else none
  | c :: d :: rest => (dropUnderscores? (d :: rest)).map (c :: ·)

def readExponent? : List Char → Option Int
  | [] => some 0
  | mark :: rest =>
    if mark == 'e' || mark == 'E' then
      let (minus, digits) := splitSign rest
      if digits.isEmpty || !digits.all Char.isDigit then none
      else if minus then some (-(ofDigits digits : Int)) else some (ofDigits digits)
    else none

/-- The double nearest to `digits · 10 ^ exponent`; beyond the largest double it is infinite. -/
def ofScientific (negative : Bool) (digits : Nat) (exponent : Int) : Double :=
  if digits = 0 then Double.zero negative
  else if 400 < exponent then Double.infinity negative
  else if exponent < -(400 + ((Nat.toDigits 10 digits).length : Int)) then Double.zero negative
  else
    let found :=
      if 0 ≤ exponent then Double.ofRatio? negative (digits * Nat.pow 10 exponent.toNat) 1
      else Double.ofRatio? negative digits (Nat.pow 10 (-exponent).toNat)
    found.getD (Double.infinity negative)

def readUnsigned? (negative : Bool) (cs : List Char) : Option Double :=
  let lower := String.ofList (cs.map Char.toLower)
  if lower == "inf" || lower == "infinity" then some (Double.infinity negative)
  else if lower == "nan" then some Double.nan
  else
    let whole := cs.takeWhile Char.isDigit
    let rest := cs.dropWhile Char.isDigit
    let (places, rest) :=
      match rest with
      | '.' :: after => (after.takeWhile Char.isDigit, after.dropWhile Char.isDigit)
      | _ => ([], rest)
    if whole.isEmpty && places.isEmpty then none
    else (readExponent? rest).map fun e =>
      ofScientific negative (ofDigits (whole ++ places)) (e - places.length)

def readDouble? (s : String) : Option Double :=
  match dropUnderscores? (trimBlanks isAsciiBlank (normalize s)) with
  | none => none
  | some cs =>
    let (minus, body) := splitSign cs
    readUnsigned? minus body

end Handset.Number
