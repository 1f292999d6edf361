import Handset.Dex.Parsing
import Handset.Machine.Operation
import Handset.Machine.Services

/-!
# What the operations do

An instruction names its registers in the opcode: `B` in the low four bits, `A` in the next four, `C`
in the next four; further operands follow it in the code bytes. A pair of registers holds a number as
its low 32 bits and the rest. Operands are taken in a fixed order and the program counter moves last,
so a failing operation leaves it where it was.
-/
namespace Handset

structure Pools where
  types : Array Value := #[]
  strings : Array Value := #[]
deriving Inhabited

def divisionException : Value := .text "ArithmeticException: division by zero"

namespace Dex.Instruction

def a (i : Instruction) : Nat := i.opcode / 16 % 16

def b (i : Instruction) : Nat := i.opcode % 16

def c (i : Instruction) : Nat := i.opcode / 256 % 16

end Dex.Instruction

open Dex (Instruction)

namespace Act

open Step

/-- The operand word of `width` bytes that stands `distance` bytes after the instruction. -/
def operand (i : Instruction) (distance : Nat) (width : Nat) : Act Nat := do
  let s ← service "dex_data"
  lift (Dex.word s.code width (i.offset + distance))

def signedOperand (i : Instruction) (distance : Nat) (width : Nat) : Act Int := do
  let s ← service "dex_data"
  lift (Dex.signedWord s.code width (i.offset + distance))

def codeWord (place : Nat) : Act Nat := do
  let s ← service "dex_data"
  lift (Dex.word s.code 4 place)

def signedCodeWord (place : Nat) : Act Int := do
  let s ← service "dex_data"
  lift (Dex.signedWord s.code 4 place)

def wordMask : Int := 0xFFFFFFFF

def pair (n : Nat) : Act Value := do
  let high ← register (n + 1)
  let shifted ← withMemory (high.shiftUp (.int 32))
  let low ← register n
  lift (shifted.or low)

/-- Writes a number into the pair that starts at register `n`, the low word first. -/
def setPair (n : Nat) (v : Value) : Act Unit := do
  let low ← lift (v.and (.int wordMask))
  setRegister n low
  let high ← lift (v.shiftDown (.int 32))
  setRegister (n + 1) high

def load (w : Width) (n : Nat) : Act Value :=
  match w with
  | .single => register n
  | .wide => pair n

def store (w : Width) (n : Nat) (v : Value) : Act Unit :=
  match w with
  | .single => setRegister n v
  | .wide => setPair n v

/-- The registers of a move, destination first, and how far it advances. -/
def moveRegisters (addressing : Addressing) (i : Instruction) : Act (Nat × Nat × Int) :=
  match addressing with
  | .packed => pure (i.a, i.b, 1)
  | .sourceWord => do
    let source ← operand i 1 2
    pure (i.a, source, 2)
  | .bothWords => do
    let target ← operand i 1 2
    let source ← operand i 3 2
    pure (target, source, 4)

/-- Copies a register or, word by word, a pair. -/
def move (addressing : Addressing) (width : Width) (i : Instruction) : Act Unit := do
  let (target, source, distance) ← moveRegisters addressing i
  let v ← register source
  setRegister target v
  match width with
  | .single => pure ()
  | .wide =>
    let high ← register (source + 1)
    setRegister (target + 1) high
  advance distance

def moveResult (width : Width) (i : Instruction) : Act Unit := do
  match width with
  | .single =>
    let v ← pop
    setRegister i.a v
  | .wide =>
    let low ← pop
    let high ← pop
    setRegister i.a low
    setRegister (i.a + 1) high
  advance 1

def loadLiteral (pools : Pools) (literal : Literal) (i : Instruction) : Act Unit :=
  match literal with
  | .nibble => do
    setRegister i.a (.int i.b)
    advance 1
  | .half => do
    let n ← operand i 1 2
    setRegister i.a (.int n)
    advance 2
  | .word => do
    let n ← operand i 1 4
    setRegister i.a (.int n)
    advance 4
  | .highHalf => do
    let n ← operand i 1 2
    setRegister i.a (.int (n <<< 16 : Nat))
    advance 2
  | .wideHalf => do
    let n ← operand i 1 2
    setRegister i.a (.int n)
    setRegister (i.a + 1) (.int 0)
    advance 2
  | .wideWord => do
    let n ← operand i 1 4
    setRegister i.a (.int n)
    setRegister (i.a + 1) (.int 0)
    advance 4
  | .wideLong => do
    let n ← operand i 1 8
    setRegister i.a (.int (n % 0x100000000 : Nat))
    setRegister (i.a + 1) (.int (n >>> 32 : Nat))
    advance 8
  | .wideHighHalf => do
    let n ← operand i 1 2
    setRegister i.a (.int 0)
    setRegister (i.a + 1) (.int (n <<< 16 : Nat))
    advance 2
  | .string => do
    let index ← operand i 1 2
    let s ← lift (Dex.entry pools.strings index)
    setRegister i.a s
    advance 2
  | .farString => do
    let target ← operand i 1 2
    let index ← operand i 3 4
    let s ← lift (Dex.entry pools.strings index)
    setRegister target s
    advance 6
  | .className => do
    let index ← operand i 1 2
    let t ← lift (Dex.entry pools.types index)
    setRegister i.a t
    advance 2

/-- Writes a loaded value into register `n` (and the next, for wide ones). -/
def receive (kind : Kind) (n : Nat) (v : Value) : Act Unit :=
  match kind with
  | .plain => setRegister n v
  | .wide => setPair n v
  | .boolean => setRegister n (.bool v.truthy)
  | .byte => do setRegister n (← lift (v.and (.int 0xFF)))
  | .half => do setRegister n (← lift (v.and (.int 0xFFFF)))

/-- The value of register `n` (and the next, for wide ones) as it is stored. -/
def deliver (kind : Kind) (n : Nat) : Act Value :=
  match kind with
  | .plain => register n
  | .wide => pair n
  | .boolean => do
    let v ← register n
    let j ← lift v.toInt
    pure (.int j)
  | .byte => do
    let v ← register n
    lift (v.and (.int 0xFF))
  | .half => do
    let v ← register n
    lift (v.and (.int 0xFFFF))

def instanceGet (kind : Kind) (i : Instruction) : Act Unit := do
  let field ← operand i 1 2
  let object ← register i.b
  let v ← objectField object field
  receive kind i.a v
  advance 2

def instancePut (kind : Kind) (i : Instruction) : Act Unit := do
  let field ← operand i 1 2
  let object ← register i.b
  let v ← deliver kind i.a
  setObjectField object field v
  advance 2

def staticGet (kind : Kind) (i : Instruction) : Act Unit := do
  let field ← operand i 1 2
  let v ← staticField field
  receive kind i.a v
  advance 2

def staticPut (kind : Kind) (i : Instruction) : Act Unit := do
  let field ← operand i 1 2
  let v ← deliver kind i.a
  setStaticField field v
  advance 2

def arrayGet (kind : Kind) (i : Instruction) : Act Unit := do
  let array ← register i.b
  let index ← register i.c
  let v ← arrayElement array index
  receive kind i.a v
  advance 1

def arrayPut (kind : Kind) (i : Instruction) : Act Unit := do
  let array ← register i.b
  let index ← register i.c
  let v ← deliver kind i.a
  setArrayElement array index v
  advance 1

def returnValue (width : Width) (i : Instruction) : Act Unit := do
  let v ← load width i.a
  popFrame
  push v

def newInstance (pools : Pools) (i : Instruction) : Act Unit := do
  let index ← operand i 2 2
  let className ← lift (Dex.entry pools.types index)
  let id ← createObject className
  setRegister i.a (.int id)
  let shown ← lift className.written
  report .debug s!"创建实例: {shown} (ID: {id})"
  advance 2

def newArray (pools : Pools) (i : Instruction) : Act Unit := do
  let index ← operand i 1 2
  let length ← register i.b
  let type ← lift (Dex.entry pools.types index)
  let id ← createArray type length
  setRegister i.a (.int id)
  advance 2

/-- Copies registers `from`, `from + 1`, … into the elements of an array, the first `done` of `done +
left` being there already. -/
def fillArray (array : Value) (start : Nat) : (left done : Nat) → Act Unit
  | 0, _ => pure ()
  | left + 1, done => do
    let _ ← service "set_array_element"
    let v ← register (start + done)
    setArrayElement array (.int done) v
    fillArray array start left (done + 1)

def filledNewArray (pools : Pools) (i : Instruction) : Act Unit := do
  let index ← operand i 1 2
  let type ← lift (Dex.entry pools.types index)
  let id ← createArray type (.int i.a)
  fillArray (.int id) i.b i.a 0
  push (.int id)
  advance 2

def checkCast (pools : Pools) (i : Instruction) : Act Unit := do
  let index ← operand i 1 2
  let target ← lift (Dex.entry pools.types index)
  let object ← register i.a
  let type ← typeOf object
  if type.same target then advance 2
  else
    let found ← lift type.written
    let wanted ← lift target.written
    raise (.text s!"ClassCastException: {found} cannot be cast to {wanted}")
    advance 1

def instanceOf (pools : Pools) (i : Instruction) : Act Unit := do
  let index ← operand i 1 2
  let target ← lift (Dex.entry pools.types index)
  let object ← register i.b
  let type ← typeOf object
  setRegister i.a (.int (if type.same target then 1 else 0))
  advance 2

def compareValues (inverted : Bool) (v w : Value) : Except Fault Int := do
  if ← Value.compare (if inverted then .lt else .gt) v w then pure 1
  else if ← Value.compare (if inverted then .gt else .lt) v w then pure (-1)
  else pure 0

def compare (width : Width) (inverted : Bool) (i : Instruction) : Act Unit := do
  let v ← load width i.b
  let w ← load width i.c
  let r ← lift (compareValues inverted v w)
  setRegister i.a (.int r)
  advance 1

def branch (test : Value.Comparison) (i : Instruction) : Act Unit := do
  let distance ← signedOperand i 1 2
  let v ← register i.a
  let w ← register i.b
  if ← lift (Value.compare test v w) then advance distance else advance 2

def branchZero (test : Value.Comparison) (i : Instruction) : Act Unit := do
  let distance ← signedOperand i 1 2
  let v ← register i.a
  if ← lift (Value.compare test v (.int 0)) then advance distance else advance 2

/-- Looks for the key among `left` consecutive keys from `key` on; their targets stand in a row. -/
def packedTarget (v : Value) : (left key place : Nat) → Act Int
  | 0, _, _ => pure 4
  | left + 1, key, place => do
    let target ← signedCodeWord place
    if Value.same v (.int key) then pure target else packedTarget v left (key + 1) (place + 4)

def packedSwitch (i : Instruction) : Act Unit := do
  let v ← register i.a
  let table ← operand i 1 4
  let first ← codeWord table
  let size ← codeWord (table + 4)
  let distance ← packedTarget v size first (table + 8)
  advance distance

/-- Looks for the key among `left` pairs of a key and a target. -/
def sparseTarget (v : Value) : (left place : Nat) → Act Int
  | 0, _ => pure 4
  | left + 1, place => do
    let key ← codeWord place
    let target ← signedCodeWord (place + 4)
    if Value.same v (.int key) then pure target else sparseTarget v left (place + 8)

def sparseSwitch (i : Instruction) : Act Unit := do
  let v ← register i.a
  let table ← operand i 1 4
  let size ← codeWord table
  let distance ← sparseTarget v size (table + 4)
  advance distance

/-- The range that an unsigned shift first reduces its operand to. -/
def unsignedRange : Width → Int
  | .single => 0x100000000
  | .wide => 0x10000000000000000

/-- Operations whose second operand is a count in a single register. -/
def BinaryOp.isShift : BinaryOp → Bool
  | .shl | .shr | .ushr => true
  | _ => false

def BinaryOp.isDivision : BinaryOp → Bool
  | .floorDiv | .trueDiv | .rem => true
  | _ => false

def BinaryOp.eval (op : BinaryOp) (width : Width) (v w : Value) (memory : Memory) : Except Fault Value :=
  match op with
  | .add => v.add w
  | .sub => v.sub w
  | .mul => v.mul w memory
  | .floorDiv => v.floorDiv w
  | .trueDiv => v.trueDiv w
  | .rem => v.floorMod w
  | .and => v.and w
  | .or => v.or w
  | .xor => v.xor w
  | .shl => v.shiftUp w memory
  | .shr => v.shiftDown w
  | .ushr => do
    let reduced ← v.floorMod (.int (unsignedRange width))
    reduced.shiftDown w

def binary (width : Width) (op : BinaryOp) (i : Instruction) : Act Unit := do
  let v ← load width i.b
  let w ← load (if BinaryOp.isShift op then .single else width) i.c
  if BinaryOp.isDivision op && Value.same w (.int 0) then
    raise divisionException
    advance 1
  else
    let r ← withMemory (BinaryOp.eval op width v w)
    store width i.a r
    advance 1

def unary (width : Width) (op : UnaryOp) (i : Instruction) : Act Unit := do
  let v ← load width i.b
  let r ← lift (match op with
    | .neg => v.neg
    | .not => v.complement)
  store width i.a r
  advance 1

def NumberKind.convert (kind : NumberKind) (v : Value) : Except Fault Value :=
  match kind with
  | .integer => v.toInt.map .int
  | .floating => v.toDouble.map .double

def convert (source : Width) (kind : NumberKind) (target : Width) (i : Instruction) : Act Unit := do
  let v ← load source i.b
  let r ← lift (NumberKind.convert kind v)
  store target i.a r
  advance 1

def narrow (kind : Kind) (i : Instruction) : Act Unit := do
  let v ← register i.b
  receive kind i.a v
  advance 1

def perform (pools : Pools) (op : Operation) (i : Instruction) : Act Unit :=
  match op with
  | .nop => advance 1
  | .move addressing width => move addressing width i
  | .moveResult width => moveResult width i
  | .load literal => loadLiteral pools literal i
  | .monitorEnter => do
    lock (← register i.a)
    advance 1
  | .monitorExit => do
    unlock (← register i.a)
    advance 1
  | .instanceGet kind => instanceGet kind i
  | .instancePut kind => instancePut kind i
  | .staticGet kind => staticGet kind i
  | .staticPut kind => staticPut kind i
  | .arrayGet kind => arrayGet kind i
  | .arrayPut kind => arrayPut kind i
  | .invoke => do
    let _ ← operand i 1 2
    advance 2
  | .returnVoid => popFrame
  | .returnValue width => returnValue width i
  | .newInstance => newInstance pools i
  | .newArray => newArray pools i
  | .filledNewArray => filledNewArray pools i
  | .fillArrayData => do
    let _ ← register i.a
    let _ ← operand i 1 4
    advance 4
  | .throwValue => do
    raise (← register i.a)
    advance 1
  | .checkCast => checkCast pools i
  | .instanceOf => instanceOf pools i
  | .compare width inverted => compare width inverted i
  | .branch test => branch test i
  | .branchZero test => branchZero test i
  | .jump bytes => do
    let distance ← signedOperand i 1 bytes
    advance distance
  | .packedSwitch => packedSwitch i
  | .sparseSwitch => sparseSwitch i
  | .binary width op => binary width op i
  | .unary width op => unary width op i
  | .extend => do
    let v ← register i.b
    setRegister i.a v
    setRegister (i.a + 1) (.int 0)
    advance 1
  | .convert source kind target => convert source kind target i
  | .narrow kind => narrow kind i

end Act

end Handset
