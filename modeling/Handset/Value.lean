import Handset.Bytes
import Handset.Fault
import Handset.Number.Double

/-!
# Values

What a register, a field, an array element or a setting can hold. Numbers are of two kinds,
unbounded integers and doubles; a truth value counts as the integer 0 or 1 wherever a number is
expected.
-/
namespace Handset

inductive Value where
  | none
  | bool (b : Bool)
  | int (i : Int)
  | double (d : Double)
  | text (s : String)
  | bytes (b : Bytes)
  | list (items : List Value)
  | object (fields : List (String × Value))
deriving Inhabited

inductive Num where
  | int (i : Int)
  | double (d : Double)
deriving DecidableEq, Inhabited

namespace Num

def toDouble : Num → Except Fault Double
  | int i => match Double.ofInt? i with
    | some d => .ok d
    | none => .error .tooLarge
  | double d => .ok d

def toValue : Num → Value
  | int i => .int i
  | double d => .double d

def isZero : Num → Bool
  | int i => i == 0
  | double d => d.isZero

/-- Equality as numbers; an integer and a double are compared exactly. -/
def eq : Num → Num → Bool
  | int i, int j => i == j
  | double a, double b => a.beq b
  | int i, double b => b.isFinite && Double.compareInt i b == .eq
  | double a, int j => a.isFinite && Double.compareInt j a == .eq

def lt : Num → Num → Bool
  | int i, int j => i < j
  | double a, double b => a.lt b
  | int i, double b =>
    if b.isNaN then false
    else if b.isInfinite then !b.negative
    else Double.compareInt i b == .lt
  | double a, int j =>
    if a.isNaN then false
    else if a.isInfinite then a.negative
    else Double.compareInt j a == .gt

def le (x y : Num) : Bool :=
  x.lt y || x.eq y

end Num

namespace Value

def ofBit (b : Bool) : Int :=
  if b then 1 else 0

def num? : Value → Option Num
  | bool b => some (.int (ofBit b))
  | int i => some (.int i)
  | double d => some (.double d)
  | _ => Option.none

def int? : Value → Option Int
  | bool b => some (ofBit b)
  | int i => some i
  | _ => Option.none

def isNone : Value → Bool
  | none => true
  | _ => false

def truthy : Value → Bool
  | none => false
  | bool b => b
  | int i => i != 0
  | double d => !d.isZero
  | text s => s != ""
  | bytes b => b.size != 0
  | list items => !items.isEmpty
  | object fields => !fields.isEmpty

def kindName : Value → String
  | none => "NoneType"
  | bool _ => "bool"
  | int _ => "int"
  | double _ => "float"
  | text _ => "str"
  | bytes _ => "bytes"
  | list _ => "list"
  | object _ => "dict"

def ofOption : Option Value → Value
  | some v => v
  | Option.none => none

end Value

end Handset
