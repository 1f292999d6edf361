import Handset.Proofs.Machine.Runs

/-!
# Machines without services

Operands stand in the code bytes, and these are a service like the value stack, the fields and the locks. An
operation that needs a service asks for it before it has changed anything, so without services it fails and
leaves the machine as it was. The few operations that need none change registers, the program counter and the
pending exception.
-/
namespace Handset.Act

open Step

open Dex (CodeItem Instruction)

variable {α β : Type} {x : Act α} {f : α → Act β}

/-- Without services the action fails and changes nothing. -/
def Unmet (x : Act α) : Prop :=
  ∀ m : Machine, m.services = none → ∃ e, x.on m = (.error e, m)

theorem unmet_service (name : String) : Unmet (service name) := by
  intro m hm
  refine ⟨.noMember "DalvikVM" name, ?_⟩
  simp only [service, on_bind, on_get, hm, on_throw]

theorem Unmet.bind (h : Unmet x) (f : α → Act β) : Unmet (x >>= f) := by
  intro m hm
  obtain ⟨e, he⟩ := h m hm
  exact ⟨e, on_bind_error he f⟩

/-- A request that cannot be met may follow looks at the machine. -/
theorem Unmet.after (hx : Quiet x) (hf : ∀ a, Unmet (f a)) : Unmet (x >>= f) := by
  intro m hm
  rw [hx.on_bind]
  cases (x.on m).1 with
  | ok a => exact hf a m hm
  | error e => exact ⟨e, rfl⟩

theorem unmet_operand (i : Instruction) (distance width : Nat) : Unmet (operand i distance width) :=
  (unmet_service _).bind _

theorem unmet_signedOperand (i : Instruction) (distance width : Nat) :
    Unmet (signedOperand i distance width) :=
  (unmet_service _).bind _

theorem quiet_deliver (kind : Kind) (n : Nat) : Quiet (deliver kind n) := by
  cases kind with
  | plain => exact quiet_register n
  | wide => exact quiet_pair n
  | boolean =>
    exact quiet_bind (quiet_register n) fun _ => quiet_bind (quiet_lift _) fun _ => quiet_pure _
  | byte | half => exact quiet_bind (quiet_register n) fun _ => quiet_lift _

/-- The action changes nothing but registers, the program counter and the pending exception. -/
def Internal (x : Act α) : Prop :=
  ∀ m : Machine, ∃ registers pc pending, (x.on m).2 = { m with registers, pc, pending }

theorem internal_of_quiet (h : Quiet x) : Internal x := fun m => ⟨m.registers, m.pc, m.pending, h m⟩

theorem internal_bind (hx : Internal x) (hf : ∀ a, Internal (f a)) : Internal (x >>= f) := by
  intro m
  obtain ⟨registers, pc, pending, hstate⟩ := hx m
  rcases h : x.on m with ⟨r, t⟩
  rw [h] at hstate
  obtain rfl : t = { m with registers, pc, pending } := hstate
  cases r with
  | ok a =>
    obtain ⟨registers', pc', pending', hrest⟩ := hf a { m with registers, pc, pending }
    rw [on_bind_ok h]
    exact ⟨registers', pc', pending', hrest⟩
  | error e =>
    rw [on_bind_error h]
    exact ⟨registers, pc, pending, rfl⟩

/-- Looks at the machine do not matter. -/
theorem Internal.after (hx : Quiet x) (hf : ∀ a, Internal (f a)) : Internal (x >>= f) :=
  internal_bind (internal_of_quiet hx) hf

theorem internal_setRegister (n : Nat) (v : Value) : Internal (setRegister n v) := by
  intro m
  rw [on_setRegister]
  split
  · exact ⟨_, m.pc, m.pending, rfl⟩
  · exact ⟨m.registers, m.pc, m.pending, rfl⟩

theorem internal_advance (distance : Int) : Internal (advance distance) :=
  fun m => ⟨m.registers, m.pc + distance, m.pending, rfl⟩

theorem internal_raise (v : Value) : Internal (raise v) := fun m => ⟨m.registers, m.pc, v, rfl⟩

theorem internal_setPair (n : Nat) (v : Value) : Internal (setPair n v) :=
  .after (quiet_lift _) fun _ => internal_bind (internal_setRegister _ _) fun _ =>
    .after (quiet_lift _) fun _ => internal_setRegister _ _

theorem internal_store (w : Width) (n : Nat) (v : Value) : Internal (store w n v) := by
  cases w with
  | single => exact internal_setRegister n v
  | wide => exact internal_setPair n v

theorem internal_receive (kind : Kind) (n : Nat) (v : Value) : Internal (receive kind n v) := by
  cases kind with
  | plain | boolean => exact internal_setRegister n _
  | wide => exact internal_setPair n v
  | byte | half => exact .after (quiet_lift _) fun _ => internal_setRegister n _

theorem unmet_or_internal_move (addressing : Addressing) (width : Width) (i : Instruction) :
    Unmet (move addressing width i) ∨ Internal (move addressing width i) := by
  cases addressing with
  | sourceWord | bothWords => exact .inl (((unmet_operand _ _ _).bind _).bind _)
  | packed =>
    refine .inr (.after (quiet_pure _) fun (target, source, distance) => .after (quiet_register _) fun v =>
      internal_bind (internal_setRegister _ _) fun _ => ?_)
    cases width with
    | single => exact internal_advance _
    | wide =>
      exact .after (quiet_register _) fun _ => internal_bind (internal_setRegister _ _) fun _ =>
        internal_advance _

theorem internal_binary (width : Width) (op : BinaryOp) (i : Instruction) : Internal (binary width op i) := by
  refine .after (quiet_load _ _) fun v => .after (quiet_load _ _) fun w => ?_
  split
  · exact internal_bind (internal_raise _) fun _ => internal_advance _
  · exact .after (quiet_withMemory _) fun _ => internal_bind (internal_store _ _ _) fun _ => internal_advance _

/-- Without services, an operation either cannot be carried out or stays inside the machine. -/
theorem unmet_or_internal (pools : Pools) (op : Operation) (i : Instruction) :
    Unmet (perform pools op i) ∨ Internal (perform pools op i) := by
  cases op with
  | nop => exact .inr (internal_advance _)
  | move addressing width => exact unmet_or_internal_move addressing width i
  | moveResult width => cases width <;> exact .inl (((unmet_service _).bind _).bind _)
  | load literal =>
    cases literal with
    | nibble => exact .inr (internal_bind (internal_setRegister _ _) fun _ => internal_advance _)
    | _ => exact .inl ((unmet_operand _ _ _).bind _)
  | monitorEnter | monitorExit =>
    exact .inl (.after (quiet_register _) fun _ => ((unmet_service _).bind _).bind _)
  | instanceGet | instancePut | staticGet | staticPut | invoke | newInstance | newArray | filledNewArray
  | checkCast | instanceOf => exact .inl ((unmet_operand _ _ _).bind _)
  | arrayGet kind =>
    exact .inl (.after (quiet_register _) fun _ => .after (quiet_register _) fun _ =>
      ((unmet_service _).bind _).bind _)
  | arrayPut kind =>
    exact .inl (.after (quiet_register _) fun _ => .after (quiet_register _) fun _ =>
      .after (quiet_deliver _ _) fun _ => ((unmet_service _).bind _).bind _)
  | returnVoid => exact .inl ((unmet_service _).bind _)
  | returnValue width =>
    exact .inl (.after (quiet_load _ _) fun _ => ((unmet_service _).bind _).bind _)
  | fillArrayData | packedSwitch | sparseSwitch =>
    exact .inl (.after (quiet_register _) fun _ => (unmet_operand _ _ _).bind _)
  | throwValue =>
    exact .inr (.after (quiet_register _) fun _ => internal_bind (internal_raise _) fun _ =>
      internal_advance _)
  | branch | branchZero | jump => exact .inl ((unmet_signedOperand _ _ _).bind _)
  | compare width inverted =>
    exact .inr (.after (quiet_load _ _) fun _ => .after (quiet_load _ _) fun _ =>
      .after (quiet_lift _) fun _ => internal_bind (internal_setRegister _ _) fun _ => internal_advance _)
  | binary width op => exact .inr (internal_binary width op i)
  | unary | convert =>
    exact .inr (.after (quiet_load _ _) fun _ => .after (quiet_lift _) fun _ =>
      internal_bind (internal_store _ _ _) fun _ => internal_advance _)
  | extend =>
    exact .inr (.after (quiet_register _) fun _ => internal_bind (internal_setRegister _ _) fun _ =>
      internal_bind (internal_setRegister _ _) fun _ => internal_advance _)
  | narrow kind =>
    exact .inr (.after (quiet_register _) fun _ => internal_bind (internal_receive _ _ _) fun _ =>
      internal_advance _)

/-- Without services an instruction changes nothing but registers, program counter, pending exception and
log. -/
theorem state_dispatch_of_unserved (pools : Pools) (i : Instruction) {m : Machine}
    (h : m.services = none) :
    ∃ registers pc pending log,
      ((dispatch pools i).on m).2 = { m with registers, pc, pending, log } := by
  cases hop : Operation.ofOpcode? i.opcode with
  | some op =>
    obtain ⟨log, hon⟩ := exists_on_dispatch pools hop m
    rw [hon]
    rcases unmet_or_internal pools op i with hunmet | hinternal
    · obtain ⟨e, he⟩ := hunmet { m with log } h
      rw [he]
      exact ⟨m.registers, m.pc, m.pending, log, rfl⟩
    · obtain ⟨registers, pc, pending, hstate⟩ := hinternal { m with log }
      exact ⟨registers, pc, pending, log, hstate⟩
  | none =>
    unfold dispatch
    rw [hop]
    exact ⟨m.registers, m.pc + 1, m.pending, _, rfl⟩

end Handset.Act
