import Handset.Machine.Execution
import Handset.Workload.Repeated

/-!
# Running a straight program

A program without branches, made of one cycle of instructions over and over: arithmetic, array loads
and stores, comparisons, calls and creations. An instruction of two or more units passes over the ones
behind it. The arrays and the objects of one run are there in the next.
-/
namespace Handset.Workload

/-- A machine beside a store of arrays, which are found by their number and whose elements are found by
their index. -/
structure Workshop where
  machine : Machine := {}
  arrays : Table Key (Table Key Value) := []
deriving Inhabited

instance : Journal Workshop where
  log w := w.machine.log
  setLog w log := { w with machine := { w.machine with log } }

namespace Workshop

open Act

def onMachine {α : Type} (act : Act α) : Step Workshop α :=
  Step.within Workshop.machine (fun w machine => { w with machine }) act

def content : Value := .int 7

def element (w : Workshop) (array index : Key) : Value :=
  ((w.arrays.find? array).bind (·.find? index)).getD content

def setElement (w : Workshop) (array index : Key) (v : Value) : Workshop :=
  { w with arrays := w.arrays.put array (((w.arrays.find? array).getD []).put index v) }

def opcodes (first last : Nat) : List Nat :=
  (List.range (last + 1 - first)).map (first + ·)

/-- Arithmetic whose results are integers, without divisions and remainders. -/
def arithmetic : List Nat :=
  (opcodes 0x90 0xC4).filter fun opcode =>
    match Operation.ofOpcode? opcode with
    | some (.binary _ op) => op != .floorDiv && op != .trueDiv && op != .rem
    | some (.convert _ target _) => target != .floating
    | some _ => true
    | none => false

def cycle : Array Nat :=
  (arithmetic ++ opcodes 0x44 0x4A ++ opcodes 0x4B 0x51 ++ opcodes 0x2A 0x2E
    ++ opcodes 0x70 0x72 ++ opcodes 0x74 0x78 ++ opcodes 0x22 0x29).toArray

def instruction (place : Nat) : Dex.Instruction :=
  { opcode := cycle.getD (place % cycle.size) 0, registers := 0, offset := 0 }

def registers : Array Value :=
  #[content] ++ Array.replicate 31 (.int 5)

def pools : Pools :=
  { types := #[.text "Lcom/Fake;"] }

/-- The array and the index that an instruction names. -/
def place (i : Dex.Instruction) : Step Workshop (Key × Key) := do
  let array ← onMachine (register i.b)
  let index ← onMachine (register i.c)
  pure (← Step.lift array.key, ← Step.lift index.key)

/-- Stores registers from `start` on as the elements of an array, the first `done` of `done + left`
being there already. -/
def fillArray (array : Key) (start : Nat) : (left done : Nat) → Step Workshop Unit
  | 0, _ => pure ()
  | left + 1, done => do
    let v ← onMachine (register (start + done))
    modify fun w => w.setElement array (.int done) v
    fillArray array start left (done + 1)

def perform (i : Dex.Instruction) : Step Workshop Unit :=
  match Operation.ofOpcode? i.opcode with
  | some (.arrayGet kind) => do
    let (array, index) ← place i
    let v := (← get).element array index
    onMachine (receive kind i.a v)
    onMachine (advance 1)
  | some (.arrayPut kind) => do
    let (array, index) ← place i
    let v ← onMachine (deliver kind i.a)
    modify fun w => w.setElement array index v
    onMachine (advance 1)
  | some .newArray | some .filledNewArray => do
    let array := Key.int ((← get).arrays.length + 1 : Nat)
    modify fun w => { w with arrays := w.arrays.put array [] }
    fillArray array i.b i.a 0
    onMachine (advance 2)
  | some op => onMachine (Act.perform pools op i)
  | none => onMachine (advance 1)

def runTo (length : Nat) : (steps : Nat) → Step Workshop Unit
  | 0 => pure ()
  | steps + 1 => do
    let pc := (← get).machine.pc.toNat
    if pc < length then
      perform (instruction pc)
      runTo length steps

def heapSize : Value := .int 0x4000000000000

def prepare (m : Machine) : Machine :=
  { m with
    registers, registersReady := true, callStack := some (.list []), pc := 0, pending := .none, heapSize
    services := some { code := Array.replicate 64 0 }, log := #[] }

def total (values : List Value) : Except Fault Value :=
  values.foldlM Value.add (.int 0)

end Workshop

/-- Runs a straight program of so many instructions. The summary: how many frames are open, how many
registers there are, and the sum of the first eight. -/
def executing (instructions : Nat) : Workload Workshop where
  start := .ok {}
  run := do
    modify fun w => { w with machine := Workshop.prepare w.machine }
    Workshop.runTo instructions instructions
    let m := (← get).machine
    let frames ← Step.lift (m.callStack.getD (.list [])).walk
    let sum ← Step.lift (Workshop.total (m.registers.toList.take 8))
    pure (.list [.int frames.length, .int m.registers.size, sum])

end Handset.Workload
