import Handset.Machine.State
import Handset.Value.Arithmetic

/-!
# Garbage collection

Marking walks depth first from the registers and the frames of the call stack along the fields of
objects; sweeping vacates the cells of all objects that were not reached. Every object has the same
size, so the used part of the heap falls by that size for each.
-/
namespace Handset

namespace Machine

/-- For every cell the value through which it was reached first. -/
abbrev Marks := Array (Option Value)

def fieldValues (cells : Array Cell) (p : Nat) : List Value :=
  match cells[p]? with
  | some (.object o) => Table.values o.fields
  | _ => []

def referent? (cells : Array Cell) (v : Value) : Option Nat :=
  match v.int? with
  | none => none
  | some i =>
    if 1 ≤ i then
      match cells[(i - 1).toNat]? with
      | some (.object _) => some (i - 1).toNat
      | _ => none
    else none

def unmarked (marks : Marks) : Nat :=
  marks.countP Option.isNone

theorem unmarked_set_lt (marks : Marks) (p : Nat) (v : Value) (h : marks[p]? = some none) :
    unmarked (marks.setIfInBounds p (some v)) < unmarked marks := by
  have hp : p < marks.size := by
    by_cases hp : p < marks.size
    · exact hp
    · simp [Array.getElem?_eq_none (by omega : marks.size ≤ p)] at h
  have hv : marks[p] = none := by
    rw [Array.getElem?_eq_getElem hp] at h
    exact Option.some.inj h
  have pos : 0 < unmarked marks :=
    Array.countP_pos_iff.2 ⟨marks[p], Array.getElem_mem hp, by simp [hv]⟩
  rw [Array.setIfInBounds_def, dif_pos hp]
  unfold unmarked at pos ⊢
  rw [Array.countP_set]
  simp only [hv, Option.isNone_none, Option.isNone_some, if_true, Bool.false_eq_true, if_false]
  exact Nat.sub_lt pos Nat.one_pos

def longestChain : Nat := 990

/-- Marks the objects that the pending values lead to, and all that these lead to. Each pending value
comes with the number of references that led to it. -/
def trace (cells : Array Cell) : (pending : List (Nat × Value)) → Marks → Except Fault Marks
  | [], marks => .ok marks
  | (depth, v) :: rest, marks =>
    match referent? cells v with
    | none => trace cells rest marks
    | some p =>
      if longestChain ≤ depth then .error .nestedTooDeeply
      else match _mark : marks[p]? with
        | some none =>
          trace cells ((fieldValues cells p).map (depth + 1, ·) ++ rest) (marks.setIfInBounds p (some v))
        | _ => trace cells rest marks
termination_by pending marks => (unmarked marks, pending.length)
decreasing_by
  · exact Prod.Lex.right _ (by simp)
  · exact Prod.Lex.left _ _ (unmarked_set_lt marks p v _mark)
  · exact Prod.Lex.right _ (by simp)

def frameRegisters (callStack : Value) : Except Fault (List Value) := do
  let frames ← callStack.walk
  let registers ← frames.mapM fun frame => do (← frame.partOr "registers" (.list [])).walk
  pure registers.flatten

def roots (m : Machine) (callStack : Value) : Except Fault (List Value) := do
  let own ← match m.registersInstead with
    | some v => v.walk
    | none => pure m.registers.toList
  let framed ← frameRegisters callStack
  pure (own ++ framed)

def blankMarks (m : Machine) : Marks :=
  Array.replicate m.cells.size none

def doomed (m : Machine) (keep : Nat → Bool) : List Nat :=
  (m.objects.map fun (id, _) => id - 1).filter fun p => !keep p

def share (m : Machine) : Except Fault Double := do
  (← m.used.trueDiv m.heapSize).toDouble

end Machine

namespace Act

open Step

def mark : Act Machine.Marks := do
  let m ← get
  if m.registersReady then
    match m.callStack with
    | some callStack =>
      let roots ← lift (m.roots callStack)
      lift (Machine.trace m.cells (roots.map (0, ·)) m.blankMarks)
    | none => throw (.noMember "BytecodeInterpreter" "call_stack")
  else throw (.noMember "BytecodeInterpreter" "registers")

/-- Vacates cells of objects, each of which gives back the size of an object. -/
def removeObjects : (places : List Nat) → Act Unit
  | [] => pure ()
  | p :: rest => do
    modify fun m => m.setCell p .vacated
    let used ← lift ((← get).used.sub (.int objectSize))
    modify fun m => { m with used }
    removeObjects rest

def sweep (keep : Nat → Bool) : Act Unit := do
  let places := (← get).doomed keep
  removeObjects places
  let removed := places.length
  report .info s!"删除了 {removed} 个不可达对象"

def sweepAllBut (values : Value) : Act Unit := do
  let keys ← lift ((← lift values.walk).mapM Value.key)
  sweep fun p => keys.contains (.int (p + 1 : Nat))

/-- Reports on a collection: how many objects are left beyond the marked ones, and how much of the heap
is in use. -/
def reportCollection (marks : Machine.Marks) : Act Unit := do
  let m ← get
  let marked := marks.countP Option.isSome
  let left : Int := (m.heapCount : Int) - marked
  report .info s!"垃圾回收完成: 回收了 {left} 个对象, 耗时"
  let share ← lift m.share
  let percent := share.percent 2
  let used ← lift m.used.written
  let size ← lift m.heapSize.written
  report .info s!"堆状态: {used}/{size} ({percent})"

def collect : Act Unit := do
  modify fun m => { m with collections := m.collections + 1 }
  let marks ← mark
  sweep fun p => (marks.getD p none).isSome
  reportCollection marks

def collectIfNeeded : Act Unit := do
  let m ← get
  let share ← lift m.share
  if ← lift (Value.compare .ge (.double share) m.threshold) then
    report .info ("触发垃圾回收: 堆使用率 " ++ share.percent 2)
    collect

/-- Creates an object and answers its number. The number is given away even if the heap cannot take
the object. -/
def createObject (className : Value) : Act Nat := do
  let m ← get
  let id := m.nextId
  match m.used.add (.int objectSize) with
  | .ok used => set { m with cells := m.cells.push (.object { className }), used }
  | .error fault =>
    set { m with cells := m.cells.push .vacated }
    throw fault
  let shown ← lift className.written
  report .debug s!"创建对象: {shown} (ID: {id}, 大小: {objectSize}B)"
  collectIfNeeded
  pure id

end Act

end Handset
