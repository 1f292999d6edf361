import Handset.Machine.Semantics

/-!
# Execution

A run fetches and performs instructions until the program counter leaves the code, an exception finds
no handler, a step fails, or the allowance of steps is used up.
-/
namespace Handset.Act

open Step

open Dex (CodeItem Instruction TryBlock)

private def opcodeText (n : Nat) : String :=
  let digits := Nat.toDigits 16 n
  String.ofList (List.replicate (2 - digits.length) '0' ++ digits)

def handler? (tries : Array TryBlock) (pc : Int) : Option TryBlock :=
  tries.find? fun t => t.start ≤ pc && pc < t.start + t.count

def fetch (code : Array Instruction) (pc : Int) : Except Fault Instruction :=
  let p := if pc < 0 then pc + code.size else pc
  if p < 0 then .error .itemOutOfRange
  else match code[p.toNat]? with
    | some i => .ok i
    | none => .error .itemOutOfRange

def spend : Act Unit := do
  let m ← get
  if m.allowance = 0 then throw .outOfSteps
  else set { m with allowance := m.allowance - 1 }

def dispatch (pools : Pools) (i : Instruction) : Act Unit := do
  let opcode := opcodeText i.opcode
  match Operation.ofOpcode? i.opcode with
  | some op =>
    report .debug s!"执行指令: 0x{opcode} at offset {i.offset}"
    perform pools op i
  | none =>
    report .warning s!"未知指令: 0x{opcode} at offset {i.offset}"
    advance 1

/-- How often the heap is looked at: whenever the program counter is a multiple of this. -/
def collectionInterval : Int := 100

/-- Fetches and performs the instruction at the program counter, then looks at the heap. -/
def step (pools : Pools) (code : CodeItem) : Act Unit := do
  let i ← lift (fetch code.instructions (← get).pc)
  spend
  dispatch pools i
  if (← get).pc % collectionInterval = 0 then collectIfNeeded

inductive Next where
  | stop
  | go
deriving DecidableEq

/-- Ends the run at the end of the code; sends a pending exception to its handler, or ends the run
with it. -/
def settle (code : CodeItem) : Act Next := do
  let m ← get
  if code.instructions.size ≤ m.pc then pure .stop
  else if m.pending.isNone then pure .go
  else match handler? code.tries m.pc with
    | some t =>
      set { m with pc := t.handler, pending := .none }
      report .info s!"捕获异常，跳转到处理代码: {t.handler}"
      pure (if code.instructions.size ≤ t.handler then .stop else .go)
    | none =>
      report .error ("未处理的异常: " ++ (← lift m.pending.written))
      pure .stop

def run (pools : Pools) (code : CodeItem) : (steps : Nat) → Act Unit
  | 0 => do
    match ← settle code with
    | .stop => pure ()
    | .go =>
      let _ ← lift (fetch code.instructions (← get).pc)
      throw .outOfSteps
  | steps + 1 => do
    match ← settle code with
    | .stop => pure ()
    | .go =>
      step pools code
      run pools code steps

/-- Runs code for as many instructions as the allowance has. -/
def execute (pools : Pools) (code : CodeItem) : Act Unit := do
  run pools code (← get).allowance

end Handset.Act
