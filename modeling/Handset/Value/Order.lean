import Handset.Value

/-!
# Equality and order of values

Values of different kinds are unequal, except that all numbers are compared as numbers; ordering
values of kinds that have no common order is a mismatch.
-/
namespace Handset.Value

def field? (fields : List (String × Value)) (key : String) : Option Value :=
  (fields.find? (·.1 == key)).map (·.2)

mutual

def same : Value → Value → Bool
  | none, none => true
  | text s, text t => s == t
  | bytes b, bytes c => b == c
  | list xs, list ys => sameItems xs ys
  | object fs, object gs => fs.length == gs.length && sameFields fs gs
  | bool b, w => match w.num? with
    | some y => Num.eq (.int (ofBit b)) y
    | Option.none => false
  | int i, w => match w.num? with
    | some y => Num.eq (.int i) y
    | Option.none => false
  | double d, w => match w.num? with
    | some y => Num.eq (.double d) y
    | Option.none => false
  | _, _ => false

def sameItems : List Value → List Value → Bool
  | [], [] => true
  | x :: xs, y :: ys => same x y && sameItems xs ys
  | _, _ => false

/-- Has the second object every field of the first, with an equal value? -/
def sameFields : List (String × Value) → List (String × Value) → Bool
  | [], _ => true
  | (k, v) :: rest, gs =>
    (match field? gs k with
      | some w => same v w
      | Option.none => false) && sameFields rest gs

end

inductive Relation where
  | less
  | atMost
deriving DecidableEq

def Relation.holds : Relation → Nat → Nat → Bool
  | .less, m, n => m < n
  | .atMost, m, n => m ≤ n

def Relation.ofOrdering : Relation → Ordering → Bool
  | .less, o => o == .lt
  | .atMost, o => o != .gt

/-- The order of two sequences of numbers: by the first place where they differ, then by length. -/
def compareSequences : List Nat → List Nat → Ordering
  | [], [] => .eq
  | [], _ :: _ => .lt
  | _ :: _, [] => .gt
  | x :: xs, y :: ys => if x < y then .lt else if y < x then .gt else compareSequences xs ys

mutual

def ordered (rel : Relation) : Value → Value → Except Fault Bool
  | text s, text t =>
    .ok (rel.ofOrdering (compareSequences (s.toList.map Char.toNat) (t.toList.map Char.toNat)))
  | bytes b, bytes c =>
    .ok (rel.ofOrdering (compareSequences (b.toList.map UInt8.toNat) (c.toList.map UInt8.toNat)))
  | list xs, list ys => orderedItems rel xs ys
  | v, w => match v.num?, w.num? with
    | some x, some y => .ok (match rel with
      | .less => x.lt y
      | .atMost => x.le y)
    | _, _ => .error .kindMismatch

/-- The relation between lists: by the first items that differ, then by length. -/
def orderedItems (rel : Relation) : List Value → List Value → Except Fault Bool
  | x :: xs, y :: ys => if same x y then orderedItems rel xs ys else ordered rel x y
  | xs, ys => .ok (rel.holds xs.length ys.length)

end

inductive Comparison where
  | eq
  | ne
  | lt
  | ge
  | gt
  | le
deriving DecidableEq

def compare (c : Comparison) (v w : Value) : Except Fault Bool :=
  match c with
  | .eq => .ok (same v w)
  | .ne => .ok (!same v w)
  | .lt => ordered .less v w
  | .ge => ordered .atMost w v
  | .gt => ordered .less w v
  | .le => ordered .atMost v w

end Handset.Value
