import Handset.Number.Bitwise
import Handset.Number.Reading
import Handset.Table
import Handset.Value.Formatting

/-!
# Arithmetic on values

Every operation takes values of any kind and fails with `kindMismatch` on kinds it is not defined
for. Integers stay integers as long as the operation has an integral result; an integer that meets a
double is rounded to a double first. Division rounds down and the remainder has the divisor's sign.

Repeated sequences and numbers that are shifted up can be far larger than the operands, so the memory may have no
room for them. All other results are taken to have room.
-/
namespace Handset

structure Memory where
  /-- how many items of a repeated sequence there is room for -/
  items : Nat
  /-- by how many places a number can be shifted up -/
  places : Nat
  /-- by a word at least -/
  places_ge : 0xFFFFFFFF ≤ places

instance : Inhabited Memory :=
  ⟨⟨0x10000000, 0x7FFFFFFFF, by decide⟩⟩

namespace Value

def onNumbers (onInts : Int → Int → Int) (onDoubles : Double → Double → Double)
    (v w : Value) : Except Fault Value :=
  match v.num?, w.num? with
  | some (.int i), some (.int j) => .ok (int (onInts i j))
  | some x, some y => do
    let a ← x.toDouble
    let b ← y.toDouble
    pure (double (onDoubles a b))
  | _, _ => .error .kindMismatch

/-- Sum of numbers; texts, byte strings and lists are joined. -/
def add : Value → Value → Except Fault Value
  | text s, text t => .ok (text (s ++ t))
  | bytes b, bytes c => .ok (bytes (b ++ c))
  | list xs, list ys => .ok (list (xs ++ ys))
  | v, w => onNumbers (· + ·) Double.add v w

def sub (v w : Value) : Except Fault Value :=
  onNumbers (· - ·) Double.sub v w

/-- The largest number of items that a sequence may be asked to have. -/
def longestSequence : Nat := (1 <<< 63) - 1

/-- A sequence written `count` times, not at all for negative counts. The count has to be a signed word
whatever the sequence; a result that would be longer than any sequence is `excessive`. -/
private def times {α : Type} (memory : Memory) (excessive : Fault) (count : Int) (xs : List α) :
    Except Fault (List α) :=
  if count < -(longestSequence : Int) - 1 ∨ longestSequence < count then .error .tooLarge
  else if longestSequence < count.toNat * xs.length then .error excessive
  else if memory.items < count.toNat * xs.length then .error .outOfMemory
  else if xs.isEmpty then .ok []
  else .ok (List.replicate count.toNat xs).flatten

private def repeated (memory : Memory) (v : Value) (count : Int) : Except Fault Value :=
  match v with
  | text s => (times memory .tooLarge count s.toList).map fun cs => text (String.ofList cs)
  | bytes b => (times memory .tooLarge count b.toList).map fun bs => bytes bs.toArray
  | list xs => (times memory .outOfMemory count xs).map list
  | _ => .error .kindMismatch

/-- Product of numbers; texts, byte strings and lists are repeated. -/
def mul (v w : Value) (memory : Memory := default) : Except Fault Value :=
  match v.num?, w.num? with
  | some _, some _ => onNumbers (· * ·) Double.mul v w
  | Option.none, _ => match w.int? with
    | some count => repeated memory v count
    | Option.none => .error .kindMismatch
  | _, Option.none => match v.int? with
    | some count => repeated memory w count
    | Option.none => .error .kindMismatch

def floorDiv (v w : Value) : Except Fault Value :=
  match v.num?, w.num? with
  | some (.int i), some (.int j) =>
    if j = 0 then .error .divisionByZero else .ok (int (i.fdiv j))
  | some x, some y => do
    let a ← x.toDouble
    let b ← y.toDouble
    if b.isZero then throw .divisionByZero
    pure (double (a.floorDiv b))
  | _, _ => .error .kindMismatch

/-- The remainder of the division that rounds down. The place holders of a text or byte string are
filled in. -/
def floorMod (v w : Value) : Except Fault Value :=
  match v with
  | text s => (Formatting.fill .text s.toList w).map fun cs => text (String.ofList cs)
  | bytes b =>
    (Formatting.fill .bytes (b.toList.map fun byte => Char.ofNat byte.toNat) w).map fun cs =>
      bytes (cs.map fun c => UInt8.ofNat c.toNat).toArray
  | _ => match v.num?, w.num? with
    | some (.int i), some (.int j) =>
      if j = 0 then .error .divisionByZero else .ok (int (i.fmod j))
    | some x, some y => do
      let a ← x.toDouble
      let b ← y.toDouble
      if b.isZero then throw .divisionByZero
      pure (double (a.floorMod b))
    | _, _ => .error .kindMismatch

def trueDiv (v w : Value) : Except Fault Value :=
  match v.num?, w.num? with
  | some (.int i), some (.int j) =>
    if j = 0 then .error .divisionByZero
    else match Double.ofQuotient? i j with
      | some d => .ok (double d)
      | Option.none => .error .tooLarge
  | some x, some y => do
    let a ← x.toDouble
    let b ← y.toDouble
    if b.isZero then throw .divisionByZero
    pure (double (a.div b))
  | _, _ => .error .kindMismatch

/-- A bitwise operation: on two truth values its result is one. -/
private def onBits (onBools : Bool → Bool → Bool) (onInts : Int → Int → Int) :
    Value → Value → Except Fault Value
  | bool b, bool c => .ok (bool (onBools b c))
  | v, w => match v.int?, w.int? with
    | some i, some j => .ok (int (onInts i j))
    | _, _ => .error .kindMismatch

def and (v w : Value) : Except Fault Value :=
  onBits Bool.and Bitwise.both v w

/-- The bits of either number; two objects are united, and the second one's fields prevail. -/
def or : Value → Value → Except Fault Value
  | object fs, object gs => .ok (object (gs.foldl (fun t (k, v) => Table.put t k v) fs))
  | v, w => onBits Bool.or Bitwise.either v w

def xor (v w : Value) : Except Fault Value :=
  onBits Bool.xor Bitwise.oneOf v w

private def digitBits : Nat := 30

private def mostDigits : Nat := 2305843009213693945

/-- A number shifted up. It has a limited number of digits of 30 bits, and the memory has room for a limited number
of new places. -/
def shiftUp (v w : Value) (memory : Memory) : Except Fault Value :=
  match v.int?, w.int? with
  | some i, some count =>
    if count < 0 then .error .badValue
    else if i = 0 then .ok (int 0)
    else
      let count := count.toNat
      let digits := i.natAbs.log2 / digitBits + 1 + (count + digitBits - 1) / digitBits
      if mostDigits < digits then .error .tooLarge
      else if memory.places < count then .error .outOfMemory
      else .ok (int (Bitwise.up i count))
  | _, _ => .error .kindMismatch

def shiftDown (v w : Value) : Except Fault Value :=
  match v.int?, w.int? with
  | some i, some count =>
    if count < 0 then .error .badValue
    else if i.natAbs.log2 < count.toNat then .ok (int (if i < 0 then -1 else 0))
    else .ok (int (Bitwise.down i count.toNat))
  | _, _ => .error .kindMismatch

def neg (v : Value) : Except Fault Value :=
  match v.num? with
  | some (.int i) => .ok (int (-i))
  | some (.double d) => .ok (double d.neg)
  | Option.none => .error .kindMismatch

def complement (v : Value) : Except Fault Value :=
  match v.int? with
  | some i => .ok (int (Bitwise.flip i))
  | Option.none => .error .kindMismatch

def toInt : Value → Except Fault Int
  | bool b => .ok (ofBit b)
  | int i => .ok i
  | double d =>
    if d.isNaN then .error .badValue
    else if d.isInfinite then .error .tooLarge
    else .ok d.truncate
  | text s => match Number.readInt? s with
    | some i => .ok i
    | Option.none => .error .badValue
  | bytes b => match (Bytes.ascii? b).bind Number.readInt? with
    | some i => .ok i
    | Option.none => .error .badValue
  | _ => .error .kindMismatch

def toDouble : Value → Except Fault Double
  | bool b => (Num.int (ofBit b)).toDouble
  | int i => (Num.int i).toDouble
  | double d => .ok d
  | text s => match Number.readDouble? s with
    | some d => .ok d
    | Option.none => .error .badValue
  | bytes b => match (Bytes.ascii? b).bind Number.readDouble? with
    | some d => .ok d
    | Option.none => .error .badValue
  | _ => .error .kindMismatch

end Value

end Handset
