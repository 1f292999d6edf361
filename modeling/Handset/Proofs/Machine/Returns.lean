import Handset.Proofs.Machine.Runs

/-!
# Returns do not end a run

A return drops a frame of the host and hands over a result, and leaves the program counter and the pending
exception as they are. So the run comes back to the same instruction, one frame less at a time, until
something fails: a run that gets to a return never ends without an error.
-/
namespace Handset

open Step

open Dex (CodeItem Instruction)

def Machine.frames? (m : Machine) : Option Int :=
  m.services.map Services.frames

def Operation.isReturn : Operation → Bool
  | .returnVoid | .returnValue _ => true
  | _ => false

theorem Operation.isReturn_of_opcode {n : Nat} (h : 0x79 ≤ n ∧ n ≤ 0x7C) :
    ∃ op, Operation.ofOpcode? n = some op ∧ op.isReturn = true := by
  obtain rfl | rfl | rfl | rfl : n = 0x79 ∨ n = 0x7A ∨ n = 0x7B ∨ n = 0x7C := by omega
  all_goals exact ⟨_, rfl, rfl⟩

namespace Act

variable {pools : Pools} {code : CodeItem} {m₀ m s t : Machine} {i : Instruction} {f : Int} {k : Nat}
  {e : Fault}

theorem on_popFrame_of_none (hframes : m.frames? = some f) (hf : f ≤ 0) :
    popFrame.on m = (.error (.refused .noFrame), m) := by
  obtain ⟨services, hservices, rfl⟩ := Option.map_eq_some_iff.mp hframes
  simp only [popFrame, service, on_bind, on_get, hservices, on_pure, if_pos hf]
  rfl

theorem exists_on_popFrame (hframes : m.frames? = some f) (hf : 0 < f) :
    ∃ services, popFrame.on m = (.ok (), { m with services := some services }) ∧
      services.frames = f - 1 := by
  obtain ⟨services, hservices, rfl⟩ := Option.map_eq_some_iff.mp hframes
  refine ⟨{ services with frames := services.frames - 1 }, ?_, rfl⟩
  simp only [popFrame, service, on_bind, on_get, hservices, on_pure, if_neg (Int.not_le.mpr hf)]
  rfl

theorem exists_on_push (v : Value) (hframes : m.frames? = some f) :
    ∃ services, (push v).on m = (.ok (), { m with services := some services }) ∧ services.frames = f := by
  obtain ⟨services, hservices, rfl⟩ := Option.map_eq_some_iff.mp hframes
  refine ⟨{ services with stack := v :: services.stack }, ?_, rfl⟩
  simp only [push, service, on_bind, on_get, hservices, on_pure]
  rfl

/-- A return fails if its result cannot be read or there is no frame, and takes a frame away if not. -/
theorem perform_return (pools : Pools) (i : Instruction) {op : Operation} (hop : op.isReturn = true)
    (hframes : m.frames? = some f) :
    (∃ e, (perform pools op i).on m = (.error e, m) ∧
      ((∃ width, op = .returnValue width ∧ ((load width i.a).on m).1 = .error e) ∨
        f ≤ 0 ∧ e = .refused .noFrame)) ∨
    0 < f ∧ ∃ services, (perform pools op i).on m = (.ok (), { m with services := some services }) ∧
      services.frames = f - 1 := by
  cases op with
  | returnVoid =>
    by_cases hf : f ≤ 0
    · exact .inl ⟨_, on_popFrame_of_none hframes hf, .inr ⟨hf, rfl⟩⟩
    · have hf := Int.not_le.mp hf
      exact .inr ⟨hf, exists_on_popFrame hframes hf⟩
  | returnValue width =>
    have hsame : ((load width i.a).on m).2 = m := quiet_load width i.a m
    cases hload : ((load width i.a).on m).1 with
    | error e =>
      have hperform : (perform pools (.returnValue width) i).on m = (.error e, m) :=
        on_bind_error (Prod.ext hload hsame) _
      exact .inl ⟨e, hperform, .inl ⟨width, rfl, hload⟩⟩
    | ok v =>
      have hperform : (perform pools (.returnValue width) i).on m = (do popFrame; push v : Act Unit).on m :=
        on_bind_ok (Prod.ext hload hsame) _
      by_cases hf : f ≤ 0
      · exact .inl ⟨_, hperform.trans (on_bind_error (on_popFrame_of_none hframes hf) _), .inr ⟨hf, rfl⟩⟩
      · have hf := Int.not_le.mp hf
        obtain ⟨services, hpop, hless⟩ := exists_on_popFrame hframes hf
        obtain ⟨services', hpush, hkept⟩ := exists_on_push (m := { m with services := some services }) v
          (congrArg some hless)
        exact .inr ⟨hf, services', hperform.trans ((on_bind_ok hpop _).trans hpush), hkept⟩
  | _ => cases hop

/-- What a return that succeeds leaves: the run is where it was, with a frame and a step less. -/
structure Returned (m : Machine) (f : Int) (t : Machine) : Prop where
  pc : t.pc = m.pc
  pending : t.pending = m.pending
  registers : t.registers = m.registers
  memory : t.memory = m.memory
  frames : t.frames? = some (f - 1)
  allowance : t.allowance + 1 = m.allowance

theorem heapBlind_returned (m : Machine) (f : Int) : HeapBlind (Returned m f) :=
  fun _ _ _ _ _ h => ⟨h.pc, h.pending, h.registers, h.memory, h.frames, h.allowance⟩

/-- Why a return fails after `k` of them have succeeded: they have led from `m`, where there were `f` frames,
to `s`. -/
inductive ReturnFault (pools : Pools) (i : Instruction) (m : Machine) (f : Int) (k : Nat) (s : Machine) :
    Fault → Prop where
  | frames (h : k = f.toNat) : ReturnFault pools i m f k s (.refused .noFrame)
  | result {width e} (hop : Operation.ofOpcode? i.opcode = some (.returnValue width))
      (h : ((load width i.a).on m).1 = .error e) : ReturnFault pools i m f k s e
  | collection {u e} (hdispatch : (dispatch pools i).on { s with allowance := s.allowance - 1 } = (.ok (), u))
      (h : (lookAtHeap.on u).1 = .error e) : ReturnFault pools i m f k s e
  | steps (h : k = m.allowance) : ReturnFault pools i m f k s .outOfSteps

theorem load_congr (width : Width) (n : Nat) (h : s.registers = m.registers) (hmemory : s.memory = m.memory) :
    ((load width n).on s).1 = ((load width n).on m).1 := by
  have hregister (n : Nat) : ((register n).on s).1 = ((register n).on m).1 := by simp only [on_register, h]
  have hlift (r : Except Fault Value) : ((lift r : Act Value).on s).1 = ((lift r : Act Value).on m).1 := by
    simp only [on_lift]
  have hwith (g : Memory → Except Fault Value) : ((withMemory g).on s).1 = ((withMemory g).on m).1 := by
    rw [on_withMemory_eq rfl, on_withMemory_eq rfl, hmemory]
  cases width with
  | single => exact hregister n
  | wide =>
    exact (quiet_register _).answer_bind_congr (hregister _) fun _ =>
      (quiet_withMemory _).answer_bind_congr (hwith _) fun _ =>
        (quiet_register _).answer_bind_congr (hregister _) fun _ => hlift _

theorem ReturnFault.succ (h : ReturnFault pools i t (f - 1) k s e) (ht : Returned m f t) (hf : 0 < f) :
    ReturnFault pools i m f (k + 1) s e := by
  cases h with
  | frames hk => exact .frames (by omega)
  | result hop hload =>
    rw [load_congr _ _ ht.registers ht.memory] at hload
    exact .result hop hload
  | collection hdispatch hlook => exact .collection hdispatch hlook
  | steps hk => exact .steps (by rw [hk, ht.allowance])

theorem step_return (pools : Pools) (hfetch : fetch code.instructions m.pc = .ok i) {op : Operation}
    (hop : Operation.ofOpcode? i.opcode = some op) (hreturn : op.isReturn = true)
    (hframes : m.frames? = some f) :
    (∃ e t, (step pools code).on m = (.error e, t) ∧ ReturnFault pools i m f 0 m e) ∨
    0 < f ∧ ∃ t, (step pools code).on m = (.ok (), t) ∧ Returned m f t := by
  by_cases hallowance : m.allowance = 0
  · refine .inl ⟨.outOfSteps, m, ?_, .steps hallowance.symm⟩
    rw [on_step, hfetch]
    exact if_pos hallowance
  have hstep : (step pools code).on m =
      (do dispatch pools i; lookAtHeap).on { m with allowance := m.allowance - 1 } := by
    rw [on_step, hfetch]
    exact if_neg hallowance
  obtain ⟨log, hdispatch⟩ := exists_on_dispatch pools hop { m with allowance := m.allowance - 1 }
  rw [hstep]
  have hlogged : Machine.frames? { m with allowance := m.allowance - 1, log } = some f := hframes
  rcases perform_return pools i hreturn hlogged with
    ⟨e, hperform, hwhy⟩ | ⟨hf, services, hperform, hless⟩
  · have hfault : ReturnFault pools i m f 0 m e := by
      rcases hwhy with ⟨width, rfl, hload⟩ | ⟨hf, rfl⟩
      · have hsame := load_congr (s := m) (m := { m with allowance := m.allowance - 1, log }) width i.a rfl rfl
        exact .result hop (hsame.trans hload)
      · exact .frames (Int.toNat_eq_zero.mpr hf).symm
    exact .inl ⟨e, _, on_bind_error (hdispatch.trans hperform) _, hfault⟩
  · have hreturned : Returned m f { m with allowance := m.allowance - 1, log, services := some services } :=
      ⟨rfl, rfl, rfl, rfl, congrArg some hless, Nat.sub_add_cancel (Nat.pos_of_ne_zero hallowance)⟩
    have hlook := (heapBlind_returned m f).lookAtHeap _ hreturned
    rcases hlooked : lookAtHeap.on
      { m with allowance := m.allowance - 1, log, services := some services } with ⟨e | _, t⟩
    · refine .inl ⟨e, t, ?_, .collection (hdispatch.trans hperform) (congrArg Prod.fst hlooked)⟩
      exact (on_bind_ok (hdispatch.trans hperform) _).trans hlooked
    · rw [hlooked] at hlook
      exact .inr ⟨hf, t, (on_bind_ok (hdispatch.trans hperform) _).trans hlooked, hlook⟩

/-- So many times in a row the instruction at hand succeeds and is at hand again. -/
inductive Repeats (pools : Pools) (code : CodeItem) : Nat → Machine → Machine → Prop where
  | zero {m : Machine} : Repeats pools code 0 m m
  | succ {m t s : Machine} {k : Nat} (hstep : (step pools code).on m = (.ok (), t))
      (hsettle : (settle code).on t = (.ok .go, t)) (hpc : t.pc = m.pc) (h : Repeats pools code k t s) :
      Repeats pools code (k + 1) m s

theorem Repeats.on_run (h : Repeats pools code k m s) (hm : (settle code).on m = (.ok .go, m))
    (steps : Nat) :
    (settle code).on s = (.ok .go, s) ∧
      (run pools code (k + steps)).on m = (run pools code steps).on s := by
  induction h with
  | zero => exact ⟨hm, by rw [Nat.zero_add]⟩
  | succ hstep hsettle _ _ ih =>
    obtain ⟨hs, hrun⟩ := ih hsettle
    refine ⟨hs, ?_⟩
    rw [Nat.succ_add, run, on_bind_ok hm, ← hrun]
    exact on_bind_ok hstep _

theorem exists_failing_return (pools : Pools) {op : Operation}
    (hop : Operation.ofOpcode? i.opcode = some op) (hreturn : op.isReturn = true)
    (hfetch : fetch code.instructions m.pc = .ok i)
    (hend : m.pc < code.instructions.size) (hnone : m.pending = .none) (hframes : m.frames? = some f) :
    ∃ k e s t, k ≤ f.toNat ∧ Repeats pools code k m s ∧ (step pools code).on s = (.error e, t) ∧
      ReturnFault pools i m f k s e := by
  -- each return that succeeds leaves a frame less
  induction hn : f.toNat using Nat.strongRecOn generalizing m f with
  | ind n ih =>
    rcases step_return pools hfetch hop hreturn hframes with
      ⟨e, t, hstep, hfault⟩ | ⟨hf, t, hstep, hreturned⟩
    · exact ⟨0, e, m, t, Nat.zero_le _, .zero, hstep, hfault⟩
    · rw [← hreturned.pc] at hfetch hend
      rw [← hreturned.pending] at hnone
      obtain ⟨k, e, s, u, hk, hrepeats, hfails, hfault⟩ :=
        ih (f - 1).toNat (by omega) hfetch hend hnone hreturned.frames rfl
      have hrepeats := Repeats.succ hstep (settle_ready hend hnone) hreturned.pc hrepeats
      exact ⟨k + 1, e, s, u, by omega, hrepeats, hfails, hfault.succ hreturned hf⟩

/-- A run that gets to a return never ends without an error. The return is repeated until it fails, at most
once for every frame of the host and once more, and the failure, which ends the run, has one of four causes:
the frames are used up, the result cannot be read, the collection after the instruction fails, or the run is
out of steps. -/
theorem return_repeats_until_fault (hvisits : Visits pools code m₀ m)
    (hfetch : fetch code.instructions m.pc = .ok i) (hreturn : 0x79 ≤ i.opcode ∧ i.opcode ≤ 0x7C)
    (hframes : m.frames? = some f) :
    (∀ steps, ((run pools code steps).on m₀).1 ≠ .ok ()) ∧
    ∃ k e s t, k ≤ f.toNat ∧ Repeats pools code k m s ∧ (step pools code).on s = (.error e, t) ∧
      ReturnFault pools i m f k s e ∧
      ∃ n, ∀ steps, (run pools code (n + steps)).on m₀ = (.error e, t) := by
  obtain ⟨op, hop, hreturn⟩ := Operation.isReturn_of_opcode hreturn
  obtain ⟨hend, hnone⟩ := hvisits.ready
  obtain ⟨k, e, s, t, hk, hrepeats, hfails, hfault⟩ :=
    exists_failing_return pools hop hreturn hfetch hend hnone hframes
  have hends : ∃ n, ∀ steps, (run pools code (n + steps)).on m₀ = (.error e, t) := by
    obtain ⟨n, hn⟩ := hvisits.exists_on_run
    refine ⟨n + k + 1, fun steps => ?_⟩
    obtain ⟨hs, hrun⟩ := hrepeats.on_run (settle_ready hend hnone) (steps + 1)
    have hsteps : n + k + 1 + steps = n + (k + (steps + 1)) := by omega
    rw [hsteps, hn, hrun, run, on_bind_ok hs]
    exact on_bind_error hfails _
  refine ⟨fun steps hok => ?_, k, e, s, t, hk, hrepeats, hfails, hfault, hends⟩
  obtain ⟨n, hn⟩ := hends
  have hlater := on_run_add (Prod.ext hok rfl) n
  rw [Nat.add_comm, hn] at hlater
  cases hlater

/-- An instruction that only moves on, and a return of register 7. -/
def returningCode : CodeItem where
  registersSize := 8
  insSize := 0
  outsSize := 0
  triesSize := 0
  instructions := #[⟨0xF0, 0, 0⟩, ⟨0x7A, 0, 0⟩]
  tries := #[]

def returningMachine : Machine where
  registers := Array.replicate 8 (.int 5)
  registersReady := true
  services := some { frames := 2 }

theorem returningMachine_repeats :
    Visits {} returningCode returningMachine (after {} returningCode 1 returningMachine) ∧
      (after {} returningCode 1 returningMachine).frames? = some 2 ∧
      (∀ steps, ((run {} returningCode steps).on returningMachine).1 ≠ .ok ()) ∧
      ∃ k e s t, k ≤ 2 ∧ Repeats {} returningCode k (after {} returningCode 1 returningMachine) s ∧
        (step {} returningCode).on s = (.error e, t) := by
  have hvisits : Visits {} returningCode returningMachine (after {} returningCode 1 returningMachine) :=
    .next (.first rfl) rfl rfl
  obtain ⟨hnever, k, e, s, t, hk, hrepeats, hfails, -⟩ :=
    return_repeats_until_fault (i := ⟨0x7A, 0, 0⟩) (f := 2) hvisits rfl (by decide) rfl
  exact ⟨hvisits, rfl, hnever, k, e, s, t, hk, hrepeats, hfails⟩

end Act

end Handset
