import Handset.Machine.Collection

/-!
# Services around the machine

The value stack, frames, arrays, fields and locks that instructions ask for. A request that cannot be
met is refused and changes nothing. Only integers and truth values count as numbers of cells, indices
or lengths.
-/
namespace Handset.Act

def refuse {α : Type} (why : Refusal) : Act α :=
  throw (.refused why)

def push (v : Value) : Act Unit := do
  let s ← service "stack"
  setServices { s with stack := v :: s.stack }

def pop : Act Value := do
  let s ← service "stack"
  match s.stack with
  | [] => refuse .emptyStack
  | v :: rest =>
    setServices { s with stack := rest }
    pure v

def popFrame : Act Unit := do
  let s ← service "stack"
  if s.frames ≤ 0 then refuse .noFrame
  else setServices { s with frames := s.frames - 1 }

def createArray (type length : Value) : Act Nat := do
  let s ← service "_create_array"
  match length.int? with
  | none => refuse .badLength
  | some n =>
    if n < 0 ∨ s.longestArray < n then refuse .badLength
    else
      let m ← get
      set { m with cells := m.cells.push (.array type (Array.replicate n.toNat s.filling)) }
      pure m.nextId

def element (array index : Value) : Act (Nat × Value × Array Value × Nat) := do
  match (← get).array? array with
  | none => refuse .noArray
  | some (p, type, items) =>
    match index.int? with
    | none => refuse .badIndex
    | some i =>
      if i < 0 ∨ items.size ≤ i then refuse .badIndex else pure (p, type, items, i.toNat)

def arrayElement (array index : Value) : Act Value := do
  let _ ← service "get_array_element"
  let (_, _, items, i) ← element array index
  pure (items.getD i .none)

def setArrayElement (array index value : Value) : Act Unit := do
  let _ ← service "set_array_element"
  let (p, type, items, i) ← element array index
  modify fun m => m.setCell p (.array type (items.setIfInBounds i value))

def objectField (object : Value) (field : Nat) : Act Value := do
  let _ ← service "get_object_field"
  match (← get).object? object with
  | none => refuse .noObject
  | some (_, o) =>
    match Table.find? o.fields (.int field) with
    | some v => pure v
    | none => refuse .noField

def setObjectField (object : Value) (field : Nat) (value : Value) : Act Unit := do
  let _ ← service "set_object_field"
  match (← get).object? object with
  | none => refuse .noObject
  | some (p, o) =>
    modify fun m =>
      m.setCell p (.object { o with fields := Table.put o.fields (.int field) value })

def staticField (field : Nat) : Act Value := do
  let s ← service "get_static_field"
  match Table.find? s.statics field with
  | some v => pure v
  | none => refuse .noStatic

def setStaticField (field : Nat) (value : Value) : Act Unit := do
  let s ← service "set_static_field"
  setServices { s with statics := Table.put s.statics field value }

/-- The class of an object or the type of an array; `none` for anything else. -/
def typeOf (v : Value) : Act Value := do
  let _ ← service "get_object_type"
  let m ← get
  match m.object? v, m.array? v with
  | some (_, o), _ => pure o.className
  | none, some (_, type, _) => pure type
  | none, none => pure .none

def lock (v : Value) : Act Unit := do
  let s ← service "lock_object"
  match (← get).object? v with
  | none => refuse .noObject
  | some (p, _) =>
    setServices { s with locks := Table.put s.locks (p + 1) ((Table.find? s.locks (p + 1)).getD 0 + 1) }

def unlock (v : Value) : Act Unit := do
  let s ← service "unlock_object"
  match v.int? with
  | none => refuse .notLocked
  | some i =>
    if i < 0 then refuse .notLocked
    else match Table.find? s.locks i.toNat with
      | some (n + 1) => setServices { s with locks := Table.put s.locks i.toNat n }
      | _ => refuse .notLocked

end Handset.Act
