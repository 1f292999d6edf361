import Handset.Machine.Calls
import Handset.Proofs.Machine.Runs

/-!
# Interpretation is detached from the compiler

An action is detached if it neither sees nor changes the compiler and does not see the log: on a machine
with another compiler and another log it answers the same and leaves the same machine, these two apart.
Sequences of detached actions are detached, and so is everything that interpretation is made of.
-/
namespace Handset

/-- The machine with another compiler and another log. -/
def Machine.attach (m : Machine) (jit : Jit) (log : Log) : Machine :=
  { m with jit, log }

namespace Act

open Step

open Dex (CodeItem Instruction)

variable {α β : Type}

/-- The action neither sees nor changes the compiler, and does not see the log. -/
def Detached (x : Act α) : Prop :=
  ∀ (m : Machine) (jit : Jit) (log : Log), ∃ log',
    x.on (m.attach jit log) = ((x.on m).1, (x.on m).2.attach jit log')

theorem detached_lift (x : Except Fault α) : Detached (lift x : Act α) := by
  intro m jit log
  rw [on_lift, on_lift]
  exact ⟨log, rfl⟩

theorem detached_pure (a : α) : Detached (pure a : Act α) := detached_lift (.ok a)

theorem detached_withMemory (f : Memory → Except Fault α) : Detached (withMemory f) := by
  intro m jit log
  rw [on_withMemory_eq rfl, on_withMemory_eq rfl]
  exact ⟨log, rfl⟩

theorem detached_throw (e : Fault) : Detached (throw e : Act α) := detached_lift (.error e)

theorem detached_refuse (why : Refusal) : Detached (refuse why : Act α) := detached_throw _

theorem detached_report (level : Level) (text : String) : Detached (report level text : Act Unit) :=
  fun _ _ log => ⟨log.add level text, rfl⟩

theorem detached_modify {f : Machine → Machine}
    (h : ∀ (m : Machine) jit log, f (m.attach jit log) = (f m).attach jit log) :
    Detached (modify f : Act PUnit) :=
  fun m jit log => ⟨log, Prod.ext rfl (h m jit log)⟩

/-- In a sequence, the second part has to be detached for the answers of the first. -/
theorem detached_bind_of_answers {x : Act α} {f : α → Act β} (hx : Detached x)
    (hf : ∀ a, x.Answers a → Detached (f a)) : Detached (x >>= f) := by
  intro m jit log
  obtain ⟨log₁, hon⟩ := hx m jit log
  rcases hm : x.on m with ⟨r, s⟩
  rw [hm] at hon
  cases r with
  | ok a =>
    rw [on_bind_ok hon, on_bind_ok hm]
    exact hf a ⟨m, by rw [hm]⟩ s jit log₁
  | error e =>
    rw [on_bind_error hon, on_bind_error hm]
    exact ⟨log₁, rfl⟩

theorem detached_bind {x : Act α} {f : α → Act β} (hx : Detached x) (hf : ∀ a, Detached (f a)) :
    Detached (x >>= f) :=
  detached_bind_of_answers hx fun a _ => hf a

/-- A look at the machine is detached if what follows does not depend on the compiler and the log. -/
theorem detached_look {f : Machine → Act β} (hf : ∀ m, Detached (f m))
    (hblind : ∀ (m : Machine) jit log, f (m.attach jit log) = f m) : Detached (get >>= f) := by
  intro m jit log
  change ∃ log', (f (m.attach jit log)).on (m.attach jit log) =
    (((f m).on m).1, ((f m).on m).2.attach jit log')
  rw [hblind]
  exact hf m m jit log

theorem detached_register (n : Nat) : Detached (register n) := by
  refine detached_look (fun m => ?_) fun _ _ _ => rfl
  split
  · exact detached_pure _
  · exact detached_throw _

theorem detached_setRegister (n : Nat) (v : Value) : Detached (setRegister n v) := by
  intro m jit log
  refine ⟨log, ?_⟩
  by_cases hn : n < m.registers.size <;> simp [on_setRegister, Machine.attach, hn]

theorem detached_service (name : String) : Detached (service name) := by
  refine detached_look (fun m => ?_) fun _ _ _ => rfl
  split
  · exact detached_pure _
  · exact detached_throw _

theorem detached_setServices (s : Services) : Detached (setServices s) :=
  detached_modify fun _ _ _ => rfl

theorem detached_setCell (p : Nat) (c : Cell) : Detached (modify fun m => m.setCell p c : Act PUnit) :=
  detached_modify fun _ _ _ => rfl

theorem detached_element (array index : Value) : Detached (element array index) := by
  refine detached_look (fun m => ?_) fun _ _ _ => rfl
  split
  · exact detached_refuse _
  · split
    · exact detached_refuse _
    · split
      · exact detached_refuse _
      · exact detached_pure _

theorem detached_objectField (object : Value) (field : Nat) : Detached (objectField object field) := by
  refine detached_bind (detached_service _) fun _ => detached_look (fun m => ?_) fun _ _ _ => rfl
  split
  · exact detached_refuse _
  · split
    · exact detached_pure _
    · exact detached_refuse _

theorem detached_typeOf (v : Value) : Detached (typeOf v) := by
  refine detached_bind (detached_service _) fun _ => detached_look (fun m => ?_) fun _ _ _ => rfl
  split <;> exact detached_pure _

theorem detached_lock (v : Value) : Detached (lock v) := by
  refine detached_bind (detached_service _) fun _ => detached_look (fun m => ?_) fun _ _ _ => rfl
  split
  · exact detached_refuse _
  · exact detached_setServices _

theorem detached_createArray (type length : Value) : Detached (createArray type length) := by
  refine detached_bind (detached_service _) fun _ => ?_
  split
  · exact detached_refuse _
  · split
    · exact detached_refuse _
    · exact fun m jit log => ⟨log, rfl⟩

theorem detached_setArrayElement (array index value : Value) :
    Detached (setArrayElement array index value) :=
  detached_bind (detached_service _) fun _ => detached_bind (detached_element _ _) fun _ =>
    detached_setCell _ _

theorem detached_setObjectField (object : Value) (field : Nat) (value : Value) :
    Detached (setObjectField object field value) := by
  refine detached_bind (detached_service _) fun _ => detached_look (fun m => ?_) fun _ _ _ => rfl
  split
  · exact detached_refuse _
  · exact detached_setCell _ _

theorem detached_mark : Detached mark := by
  refine detached_look (fun m => ?_) fun _ _ _ => rfl
  split
  · split
    · exact detached_bind (detached_lift _) fun _ => detached_lift _
    · exact detached_throw _
  · exact detached_throw _

theorem detached_removeObjects (places : List Nat) : Detached (removeObjects places) := by
  induction places with
  | nil => exact detached_pure _
  | cons p rest ih =>
    refine detached_bind (detached_setCell p .vacated) fun _ =>
      detached_look (fun m => ?_) fun _ _ _ => rfl
    exact detached_bind (detached_lift _) fun used =>
      detached_bind (detached_modify fun _ _ _ => rfl) fun _ => ih

theorem detached_sweep (keep : Nat → Bool) : Detached (sweep keep) :=
  detached_look (fun _ => detached_bind (detached_removeObjects _) fun _ => detached_report _ _)
    fun _ _ _ => rfl

theorem detached_reportCollection (marks : Machine.Marks) : Detached (reportCollection marks) :=
  detached_look (fun _ => detached_bind (detached_report _ _) fun _ =>
    detached_bind (detached_lift _) fun _ => detached_bind (detached_lift _) fun _ =>
      detached_bind (detached_lift _) fun _ => detached_report _ _) fun _ _ _ => rfl

theorem detached_collect : Detached collect :=
  detached_bind (detached_modify fun _ _ _ => rfl) fun _ => detached_bind detached_mark fun _ =>
    detached_bind (detached_sweep _) fun _ => detached_reportCollection _

theorem detached_collectIfNeeded : Detached collectIfNeeded := by
  refine detached_look (fun m => ?_) fun _ _ _ => rfl
  refine detached_bind (detached_lift _) fun share => detached_bind (detached_lift _) fun needed => ?_
  split
  · exact detached_bind (detached_report _ _) fun _ => detached_collect
  · exact detached_pure _

theorem detached_announce (className : Value) (id : Nat) : Detached (announce className id) :=
  detached_bind (detached_lift _) fun _ => detached_bind (detached_report _ _) fun _ =>
    detached_bind detached_collectIfNeeded fun _ => detached_pure _

theorem detached_createObject (className : Value) : Detached (createObject className) := by
  intro m jit log
  have hsame : (m.attach jit log).used.add (.int objectSize) = m.used.add (.int objectSize) := rfl
  rw [on_createObject, on_createObject, hsame]
  cases m.used.add (.int objectSize) with
  | ok used =>
    exact detached_announce className m.nextId
      { m with cells := m.cells.push (.object { className }), used } jit log
  | error e => exact ⟨log, rfl⟩

/-- What is built of the parts of operations is detached. -/
theorem Built.detached {op : Operation} {i : Instruction} {x : Act α} (h : Built op i x) : Detached x := by
  induction h with
  | lift x => exact detached_lift x
  | withMemory f => exact detached_withMemory f
  | bind _ _ ihx ihf => exact detached_bind_of_answers ihx ihf
  | register n => exact detached_register n
  | service name => exact detached_service name
  | element array index => exact detached_element array index
  | objectField object field => exact detached_objectField object field
  | typeOf v => exact detached_typeOf v
  | lock v => exact detached_lock v
  | setRegister _ v => exact detached_setRegister _ v
  | raise _ v => exact detached_modify fun _ _ _ => rfl
  | advance _ => exact detached_modify fun _ _ _ => rfl
  | setServices s => exact detached_setServices s
  | createObject _ className => exact detached_createObject className
  | createArray type length => exact detached_createArray type length
  | setArrayElement array index value => exact detached_setArrayElement array index value
  | setObjectField object field value => exact detached_setObjectField object field value
  | report level text => exact detached_report level text

theorem detached_dispatch (pools : Pools) (i : Instruction) : Detached (dispatch pools i) := by
  unfold dispatch
  split
  · exact detached_bind (detached_report _ _) fun _ => (Built.perform pools _ i).detached
  · exact detached_bind (detached_report _ _) fun _ => detached_modify fun _ _ _ => rfl

theorem detached_spend : Detached spend := by
  intro m jit log
  refine ⟨log, ?_⟩
  by_cases hspent : m.allowance = 0 <;> simp [on_spend, Machine.attach, hspent]

theorem detached_step (pools : Pools) (code : CodeItem) : Detached (step pools code) := by
  refine detached_look (fun m => ?_) fun _ _ _ => rfl
  refine detached_bind (detached_lift _) fun i => detached_bind detached_spend fun _ =>
    detached_bind (detached_dispatch pools i) fun _ => detached_look (fun m => ?_) fun _ _ _ => rfl
  split
  · exact detached_collectIfNeeded
  · exact detached_pure _

theorem detached_settle (code : CodeItem) : Detached (settle code) := by
  intro m jit log
  simp only [settle, on_bind, on_get, Machine.attach]
  by_cases hend : code.instructions.size ≤ m.pc
  · simp only [hend, if_true]
    exact ⟨log, rfl⟩
  · simp only [hend, if_false]
    cases hpending : m.pending.isNone with
    | true => exact ⟨log, rfl⟩
    | false =>
      cases hhandler : handler? code.tries m.pc with
      | some t => exact ⟨_, rfl⟩
      | none =>
        cases hwritten : m.pending.written with
        | ok shown => exact ⟨_, rfl⟩
        | error e => exact ⟨log, rfl⟩

theorem detached_run (pools : Pools) (code : CodeItem) (steps : Nat) : Detached (run pools code steps) := by
  induction steps with
  | zero =>
    refine detached_bind (detached_settle code) fun next => ?_
    cases next with
    | stop => exact detached_pure _
    | go =>
      exact detached_look (fun _ => detached_bind (detached_lift _) fun _ => detached_throw _)
        fun _ _ _ => rfl
  | succ steps ih =>
    refine detached_bind (detached_settle code) fun next => ?_
    cases next with
    | stop => exact detached_pure _
    | go => exact detached_bind (detached_step pools code) fun _ => ih

theorem detached_execute (pools : Pools) (code : CodeItem) : Detached (execute pools code) :=
  detached_look (fun _ => detached_run pools code _) fun _ _ _ => rfl

theorem detached_interpret (pools : Pools) (code? : Key → Option CodeItem) (c : Callee) :
    Detached (interpret pools code? c) := by
  refine detached_bind (detached_lift _) fun offset => ?_
  split
  · exact detached_bind (detached_lift _) fun _ => detached_report _ _
  · refine detached_bind (detached_lift _) fun key => ?_
    split
    · exact detached_bind (detached_lift _) fun _ => detached_report _ _
    · exact detached_bind (detached_modify fun _ _ _ => rfl) fun _ =>
        detached_bind (detached_lift _) fun _ => detached_bind (detached_report _ _) fun _ =>
          detached_execute pools _

end Act

end Handset
