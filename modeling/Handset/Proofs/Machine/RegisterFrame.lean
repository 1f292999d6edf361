import Handset.Proofs.Machine.BlankRegisters

/-!
# The registers that runs write

An operation finds its destination in the opcode under which it is reached, so the instruction set as a
whole can write eight registers only. A run leaves all others as they were, however it ends, and it never
changes their number: an instruction that writes a pair and finds no second register has written the first
one when it fails.
-/
namespace Handset

open Dex (CodeItem Instruction)

namespace Operation

/-- The registers that the instruction set can write. -/
def destinations : List Nat := [2, 4, 5, 9, 10, 11, 12, 13]

/-- Does the operation write destinations only, if its register `A` is this one? -/
def lands (op : Operation) (a : Nat) : Bool :=
  match op with
  | .move _ _ | .moveResult _ | .load _ | .instanceGet _ | .staticGet _ | .narrow .wide => false
  | .arrayGet _ | .binary .wide _ | .unary .wide _ | .extend | .convert _ _ .wide =>
    destinations.contains a && destinations.contains (a + 1)
  | .newInstance | .newArray | .instanceOf | .compare _ _ | .binary .single _ | .unary .single _
  | .convert _ _ .single | .narrow _ => destinations.contains a
  | _ => true

theorem lands_of_opcode {op : Operation} {i : Instruction} (h : ofOpcode? i.opcode = some op) :
    op.lands i.a = true := by
  have htable : ∀ n < 256, (ofOpcode? n).all (·.lands (n / 16 % 16)) := by decide +kernel
  have hlands := htable i.opcode (opcode_lt h)
  rwa [h] at hlands

theorem mem_destinations_of_writes {op : Operation} {i : Instruction} {n : Nat}
    (h : ofOpcode? i.opcode = some op) (hn : op.Writes i n) : n ∈ destinations := by
  have hlands := lands_of_opcode h
  have hsingle (ha : destinations.contains i.a = true) (hn : n = i.a) : n ∈ destinations := by
    rw [hn]
    exact List.contains_iff_mem.mp ha
  have hpair (ha : (destinations.contains i.a && destinations.contains (i.a + 1)) = true)
      (hn : n = i.a ∨ n = i.a + 1) : n ∈ destinations := by
    obtain ⟨hlow, hhigh⟩ := Bool.and_eq_true_iff.mp ha
    rcases hn with hn | hn
    · exact hsingle hlow hn
    · rw [hn]
      exact List.contains_iff_mem.mp hhigh
  cases op with
  | move | moveResult | load | instanceGet | staticGet => cases hlands
  | newInstance | newArray | instanceOf | compare => exact hsingle hlands hn
  | arrayGet | extend => exact hpair hlands hn
  | binary width | unary width | convert _ _ width =>
    cases width with
    | single => exact hsingle hlands hn
    | wide => exact hpair hlands hn
  | narrow kind =>
    cases kind with
    | wide => cases hlands
    | plain | boolean | byte | half => exact hsingle hlands hn
  | _ => exact hn.elim

end Operation

namespace Act

open Step

/-- The registers are as many as in `m₀`, and those that are no destinations hold the same. -/
structure Framed (m₀ m : Machine) : Prop where
  size : m.registers.size = m₀.registers.size
  register : ∀ n, n ∉ Operation.destinations → m.registers[n]? = m₀.registers[n]?

variable {m₀ : Machine}

theorem heapBlind_framed : HeapBlind (Framed m₀) := fun _ _ _ _ _ h => ⟨h.size, h.register⟩

theorem framed_setRegister {n : Nat} (hn : n ∈ Operation.destinations) (v : Value) :
    Keeps (Framed m₀) (setRegister n v) := by
  intro m hm
  rw [on_setRegister]
  split
  · constructor
    · rw [Array.size_setIfInBounds]
      exact hm.size
    · intro k hk
      have hne : n ≠ k := fun h => hk (h ▸ hn)
      rw [Array.getElem?_setIfInBounds_ne hne]
      exact hm.register k hk
  · exact hm

theorem framed_dispatch (pools : Pools) (i : Instruction) : Keeps (Framed m₀) (dispatch pools i) := by
  have hmove (distance : Int) : Keeps (Framed m₀) (advance distance) :=
    keeps_modify fun _ hm => ⟨hm.size, hm.register⟩
  unfold dispatch
  split
  next op hop =>
    refine keeps_bind (heapBlind_framed.report _ _) fun _ => Robust.perform pools ?_
    apply heapBlind_framed.robust
    · intro n v hn
      exact framed_setRegister (Operation.mem_destinations_of_writes hop hn) v
    · exact fun _ _ => keeps_modify fun _ hm => ⟨hm.size, hm.register⟩
    · exact fun _ _ hm => ⟨hm.size, hm.register⟩
    · exact fun _ _ hm => ⟨hm.size, hm.register⟩
  next => exact keeps_bind (heapBlind_framed.report _ _) fun _ => hmove _

theorem framed_after (pools : Pools) (code : CodeItem) (steps : Nat) (m : Machine) :
    Framed m (after pools code steps m) := by
  have hstep : Keeps (Framed m) (step pools code) :=
    keeps_step heapBlind_framed (fun _ _ hm => ⟨hm.size, hm.register⟩) fun i _ => framed_dispatch pools i
  have hsettle : Keeps (Framed m) (settle code) :=
    keeps_settle heapBlind_framed fun _ _ _ hm => ⟨hm.size, hm.register⟩
  exact keeps_run hsettle hstep steps m ⟨rfl, fun _ _ => rfl⟩

/-- A machine whose registers hold their own numbers, with five arrays. -/
def countingMachine : Machine where
  registers := Array.ofFn fun n : Fin 14 => .int n
  registersReady := true
  cells := Array.replicate 5 (.array (.text "[J") #[.int 7])
  services := some {}

def lone (opcode : Nat) : CodeItem where
  registersSize := 14
  insSize := 0
  outsSize := 0
  triesSize := 0
  instructions := #[⟨opcode, 0, 0⟩]
  tries := #[]

/-- What register `n` of the counting machine holds after one instruction. -/
def counted (opcode n : Nat) : Option Int :=
  ((after {} (lone opcode) 1 countingMachine).registers[n]?).bind Value.int?

theorem exists_write {n : Nat} (hn : n ∈ Operation.destinations) :
    ∃ opcode, counted opcode n ≠ (countingMachine.registers[n]?).bind Value.int? := by
  have htable : ∀ n ∈ Operation.destinations,
      ∃ opcode ∈ [0x2A, 0x44, 0x45, 0x90, 0xA6, 0xB0, 0xB6, 0xC0],
        counted opcode n ≠ (countingMachine.registers[n]?).bind Value.int? := by
    decide +kernel
  obtain ⟨opcode, -, hopcode⟩ := htable n hn
  exact ⟨opcode, hopcode⟩

/-- No run changes the number of registers, and the registers that no run changes, whatever the code, the
machine and the number of steps, are those other than 2, 4, 5 and 9 to 13. -/
theorem runs_change_destinations_only :
    (∀ pools code steps m, (after pools code steps m).registers.size = m.registers.size) ∧
    ∀ n, n ∉ [2, 4, 5, 9, 10, 11, 12, 13] ↔
      ∀ pools code steps m, (after pools code steps m).registers[n]? = m.registers[n]? := by
  refine ⟨fun pools code steps m => (framed_after pools code steps m).size, fun n => ⟨?_, ?_⟩⟩
  · intro hn pools code steps m
    exact (framed_after pools code steps m).register n hn
  · intro hkept hn
    obtain ⟨opcode, hopcode⟩ := exists_write hn
    apply hopcode
    rw [counted, hkept]

end Act

end Handset
