import Handset.Value.Order

/-!
# Keys

What a table finds a value by. Numbers that are equal are one key, whatever their kind; lists and
objects can be no keys.
-/
namespace Handset

inductive Key where
  | none
  | int (i : Int)
  | double (d : Double)
  | text (s : String)
  | bytes (b : Bytes)
deriving DecidableEq, Inhabited

namespace Value

/-- The key of a double: an integer where it is one. -/
private def doubleKey (d : Double) : Key :=
  if d.isFinite && Double.compareInt d.truncate d == .eq then .int d.truncate else .double d

def key? : Value → Option Key
  | none => some .none
  | bool b => some (.int (ofBit b))
  | int i => some (.int i)
  | double d => some (doubleKey d)
  | text s => some (.text s)
  | bytes b => some (.bytes b)
  | list _ | object _ => Option.none

def key (v : Value) : Except Fault Key :=
  match v.key? with
  | some k => .ok k
  | Option.none => .error .kindMismatch

/-- The values that a walk through a value meets: the items of a list, the characters of a text, the
bytes of a byte string, the names of an object's fields. -/
def walk : Value → Except Fault (List Value)
  | list items => .ok items
  | text s => .ok (s.toList.map fun c => text (String.ofList [c]))
  | bytes b => .ok (b.toList.map fun byte => int byte.toNat)
  | object fields => .ok (fields.map fun (name, _) => text name)
  | _ => .error .kindMismatch

def part (v : Value) (name : String) : Except Fault Value :=
  match v with
  | object fields => match field? fields name with
    | some w => .ok w
    | Option.none => .error .missingKey
  | _ => .error .kindMismatch

/-- The part of an object under a name, or `otherwise`; only objects have parts. -/
def partOr (v : Value) (name : String) (otherwise : Value) : Except Fault Value :=
  match v with
  | object fields => .ok ((field? fields name).getD otherwise)
  | v => .error (.noMember v.kindName "get")

def sorted (values : List Value) : Except Fault (List Value) := do
  for (v, i) in values.zipIdx do
    for w in values.drop (i + 1) do
      let _ ← ordered .less v w
  pure (values.mergeSort fun v w => (ordered .atMost v w).toOption.getD true)

end Value

end Handset
