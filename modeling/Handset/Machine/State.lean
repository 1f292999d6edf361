import Handset.Dex.Image
import Handset.Step
import Handset.Value.Arithmetic
import Handset.Value.Key

/-!
# The state of the machine

A machine has registers, a program counter and a pending exception, a store of numbered cells, a
compiler cache and the tables of loaded classes and native methods. The services around it may be
missing; every use of one then fails with its name.

Cells are numbered from 1 in the order of their creation and numbers are never given again. An
object that was collected leaves its cell vacated. Arrays share the numbers but are not subject to collection.
-/
namespace Handset

/-- An object of the heap. Its fields are found by an index into the field table, or by anything else
that can be a key. -/
structure Obj where
  className : Value
  fields : Table Key Value := []
deriving Inhabited

inductive Cell where
  | vacated
  | object (o : Obj)
  | array (type : Value) (items : Array Value)
deriving Inhabited

/-- What surrounds the machine. How long an array may be and what is in a new one is up to them. -/
structure Services where
  code : Bytes := #[]
  /-- the value stack, top first -/
  stack : List Value := []
  frames : Int := 0
  statics : Table Nat Value := []
  locks : Table Nat Nat := []
  longestArray : Nat := 64
  filling : Value := .int 0
deriving Inhabited

structure Compiled where
  fails : Bool
deriving DecidableEq, Inhabited

structure CacheEntry where
  executions : Nat
  compiled : Option Compiled
deriving DecidableEq, Inhabited

structure Jit where
  cache : Table String CacheEntry := []
  threshold : Value := .int 10
  /-- a compiler that always succeeds, and whether what it compiles fails -/
  stand : Option Compiled := none
  ran : Array Value := #[]
deriving Inhabited

def objectSize : Nat := 1024

structure Machine where
  registers : Array Value := #[]
  registersReady : Bool := false
  /-- what stands in the place of the registers, if it is no list -/
  registersInstead : Option Value := none
  /-- the call stack, once it has been set up: a list of frames, each an object that may have
  registers -/
  callStack : Option Value := none
  pc : Int := 0
  pending : Value := .none
  cells : Array Cell := #[]
  used : Value := .int 0
  heapSize : Value := .int (1024 * 1024)
  /-- the share of the heap from which on it is collected -/
  threshold : Value := .double ⟨0x3FE6666666666666⟩
  collections : Nat := 0
  jit : Jit := {}
  classes : Table String Dex.ClassDef := []
  natives : Table Key Value := []
  services : Option Services := none
  allowance : Nat := 1000000000000
  memory : Memory := default
  log : Log := #[]
deriving Inhabited

/-- An action on the machine: it may fail, and what it changed before it failed stays changed. -/
abbrev Act := Step Machine

instance : Journal Machine where
  log := (·.log)
  setLog m log := { m with log }

namespace Machine

def nextId (m : Machine) : Nat :=
  m.cells.size + 1

def place? (m : Machine) (v : Value) : Option Nat :=
  match v.int? with
  | some i => if 1 ≤ i ∧ i ≤ m.cells.size then some (i - 1).toNat else none
  | none => none

def object? (m : Machine) (v : Value) : Option (Nat × Obj) :=
  match m.place? v with
  | none => none
  | some p => match m.cells[p]? with
    | some (.object o) => some (p, o)
    | _ => none

def array? (m : Machine) (v : Value) : Option (Nat × Value × Array Value) :=
  match m.place? v with
  | none => none
  | some p => match m.cells[p]? with
    | some (.array type items) => some (p, type, items)
    | _ => none

def setCell (m : Machine) (p : Nat) (c : Cell) : Machine :=
  { m with cells := m.cells.setIfInBounds p c }

def Cell.isObject : Cell → Bool
  | .object _ => true
  | _ => false

def heapCount (m : Machine) : Nat :=
  m.cells.countP Cell.isObject

def numbered (m : Machine) : List (Cell × Nat) :=
  m.cells.toList.zipIdx 1

def objects (m : Machine) : List (Nat × Obj) :=
  m.numbered.filterMap fun (cell, id) => match cell with
    | .object o => some (id, o)
    | _ => none

def arrays (m : Machine) : List (Nat × Value × Array Value) :=
  m.numbered.filterMap fun (cell, id) => match cell with
    | .array type items => some (id, type, items)
    | _ => none

/-- The numbers of the objects of the heap, as ranges from first to last. -/
def objectRanges (m : Machine) : List (Nat × Nat) :=
  let join (ranges : List (Nat × Nat)) (id : Nat) : List (Nat × Nat) :=
    match ranges with
    | (first, last) :: rest => if last + 1 = id then (first, id) :: rest else (id, id) :: ranges
    | [] => [(id, id)]
  ((m.objects.map (·.1)).foldl join []).reverse

end Machine

namespace Act

/-- The services, if there are any; `name` is the one that is needed. -/
def service (name : String) : Act Services := do
  match (← get).services with
  | some s => pure s
  | none => throw (.noMember "DalvikVM" name)

/-- What is computed with the memory of the machine. -/
def withMemory {α : Type} (f : Memory → Except Fault α) : Act α := do
  Step.lift (f (← get).memory)

def setServices (s : Services) : Act Unit :=
  modify fun m => { m with services := some s }

/-- The object whose number equals a value, which has to be there. -/
def need (v : Value) : Act (Nat × Obj) := do
  match ← Step.lift v.key with
  | .int i =>
    match (← get).object? (.int i) with
    | some found => pure found
    | none => throw .missingKey
  | _ => throw .missingKey

def setField (v key value : Value) : Act Unit := do
  let (p, o) ← need v
  let key ← Step.lift key.key
  modify fun m => m.setCell p (.object { o with fields := Table.put o.fields key value })

def register (n : Nat) : Act Value := do
  match (← get).registers[n]? with
  | some v => pure v
  | none => throw .itemOutOfRange

def setRegister (n : Nat) (v : Value) : Act Unit := do
  let m ← get
  if n < m.registers.size then set { m with registers := m.registers.setIfInBounds n v }
  else throw .slotOutOfRange

def setRegisters (v : Value) : Act Unit :=
  match v with
  | .list items => modify fun m =>
    { m with registers := items.toArray, registersReady := true, registersInstead := none }
  | v => modify fun m => { m with registersReady := true, registersInstead := some v }

def advance (distance : Int) : Act Unit :=
  modify fun m => { m with pc := m.pc + distance }

def raise (v : Value) : Act Unit :=
  modify fun m => { m with pending := v }

end Act

end Handset
