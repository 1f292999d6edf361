import Handset.Dex.Sample
import Handset.Machine.Calls
import Handset.Workload.Repeated

/-!
# Work for the machine

Reading images, collecting a heap, asking the compiler, and performing operation after operation on a
machine on which every request is met.
-/
namespace Handset.Workload

open Dex (Sample.plain)

/-- Reads a sample image. The summary: was it read whole, how many classes, methods and strings it
has, the name of its entry method, and how many fields it has. -/
def imageReading (classes : Nat) : Workload Unit :=
  let (image, fault) := Dex.parse (Sample.plain.image classes)
  afresh (.ok (.list
    [.bool fault.isNone, .int image.classes.size, .int image.methods.size, .int image.strings.size,
     Value.ofOption (image.mainMethod?.map fun m => .text m.name), .int image.fields.size]))

def everyNth (stride objects : Nat) : List Value :=
  ((List.range objects).filter (· % stride = 0)).map fun i => .int (i + 1 : Nat)

/-- A machine with so many objects, of which the registers hold every third and the one frame of the
call stack every fifth. -/
def crowdedMachine (objects : Nat) : Machine :=
  { registers := (everyNth 3 objects).toArray
    registersReady := true
    callStack := some (.list [.object [("registers", .list (everyNth 5 objects))]])
    cells := Array.replicate objects (.object { className := .text "Ljava/lang/Object;" })
    used := .int (objects * objectSize) }

/-- Fills the heap and collects it. The summary: how many objects are left, how often the heap was
collected so far, the bytes in use, and the size of an object. -/
def collecting (objects : Nat) : Workload Machine where
  start := .ok (crowdedMachine objects)
  run := do
    let full := crowdedMachine objects
    modify fun m => { m with cells := full.cells, used := full.used }
    Act.collect
    let m ← get
    pure (.list [.int m.heapCount, .int m.collections, m.used, .int objectSize])

/-- A method with code that no image holds. -/
def hotMethod (i : Nat) : Callee :=
  ⟨.object [("class_name", .text "Lcom/bench/Hot;"), ("name", .text ("m" ++ toString i)),
    ("code_off", .int 1)]⟩

/-- Counts an execution of each method, and asks for its compiled form and its program text. The
summary: how many methods the compiler knows, and how many program texts there are. -/
def compiling (methods : Nat) : Workload Machine where
  start := .ok {}
  run := do
    let texts ← ((List.range methods).map hotMethod).mapM fun c => do
      let _ ← Act.shouldCompile c
      let _ ← Act.compile c none
      Act.runCompiled c
      let id ← Step.lift c.id
      pure (generatedText id "4")
    pure (.list [.int (← get).jit.cache.length, .int texts.length])

structure Rehearsal where
  pc : Int := 0
  pending : Value := .none
  created : Nat := 0
  stored : Bool := false
deriving Inhabited

namespace Rehearsal

/-- The number in every register, which names the object or array at hand. -/
def subject : Nat := 7

def content : Value := .int 5

def newClass : Value := .text "Lcom/Fake;"

def pools : Pools :=
  { types := #[newClass], strings := #[.text "text"] }

/-- The class of the object at hand. New objects are numbered from 2, so that the sixth of them takes
its place; storing a field makes its class unknown. -/
def subjectClass (r : Rehearsal) : Value :=
  if subject ≤ r.created + 1 then newClass else .text (if r.stored then "?" else "Lother;")

def usesArray : Operation → Bool
  | .arrayGet _ | .arrayPut _ => true
  | _ => false

/-- What an operation finds at hand: an array that is long enough, or an object with a field. -/
def subjectCell (r : Rehearsal) (op : Operation) : Cell :=
  if usesArray op then .array (.text "[I") (Array.replicate (subject + 1) content)
  else .object { className := r.subjectClass, fields := [(.int 0, content)] }

/-- A machine that meets every request of the operation. -/
def machine (r : Rehearsal) (op : Operation) : Machine :=
  { registers := Array.replicate 16 (.int subject)
    registersReady := true
    callStack := some (.list [])
    pc := r.pc
    pending := r.pending
    cells := (Array.replicate (subject - 1) Cell.vacated).push (r.subjectCell op)
    services := some
      { code := Array.replicate 64 0
        stack := [content, content]
        frames := 1
        statics := [(0, content)]
        locks := [(subject, 1)] } }

/-- Performs an operation whose registers are all register 0. A failure is passed over. -/
def perform (r : Rehearsal) (op : Operation) : Rehearsal :=
  let (_, m) := (Act.perform pools op { opcode := 0, registers := 0, offset := 0 }).on (r.machine op)
  { pc := m.pc
    pending := m.pending
    created := match op with
      | .newInstance => r.created + 1
      | _ => r.created
    stored := match op with
      | .instancePut _ => true
      | _ => r.stored }

/-- The operations in the order of their mnemonics, over and over. -/
def cycle (count : Nat) : List Operation :=
  let all := (Operation.mnemonics.map (·.2)).toArray
  (List.range count).map fun i => all.getD (i % all.size) .nop

end Rehearsal

/-- Performs so many operations, starting each run at the first and without a pending exception. The
summary: the program counter, how many operations there were, the pending exception, the content of
fields and elements, and the first operation's name. -/
def performing (operations : Nat) : Workload Rehearsal where
  start := .ok {}
  run := do
    modify fun r => { r with pc := 0, pending := .none }
    modify fun r => (Rehearsal.cycle operations).foldl Rehearsal.perform r
    let r ← get
    let first := (Operation.mnemonics.head?.map (·.1)).getD ""
    pure (.list [.int r.pc, .int operations, r.pending, Rehearsal.content, .text ("_" ++ first)])

end Handset.Workload
