import Handset.Proofs.Machine.FailedOperations

/-!
# Straight-line code ends

Without branches, switches and returns every instruction that completes moves the program counter forwards,
also one that raises an exception and one with an opcode that stands for no operation. Without guarded ranges
no exception moves it back. So the distance to the end bounds how many instructions a run executes, and their
number is what it has used up of the allowance.
-/
namespace Handset

open Step

open Dex (CodeItem Instruction)

/-- Code with neither guarded ranges nor opcodes of branches, switches and returns. -/
structure Dex.CodeItem.Straight (code : CodeItem) : Prop where
  tries : code.tries = #[]
  opcodes : ∀ i ∈ code.instructions,
    ¬(0x2F ≤ i.opcode ∧ i.opcode ≤ 0x3F) ∧ ¬(0x79 ≤ i.opcode ∧ i.opcode ≤ 0x7C)

/-- All other operations go forwards. -/
theorem Operation.forward_of_opcode {n : Nat} {op : Operation} (h : ofOpcode? n = some op)
    (hn : ¬(0x2F ≤ n ∧ n ≤ 0x3F) ∧ ¬(0x79 ≤ n ∧ n ≤ 0x7C)) : op.jumps = false ∧ op.isReturn = false := by
  have htable : ∀ n < 256, ¬(0x2F ≤ n ∧ n ≤ 0x3F) ∧ ¬(0x79 ≤ n ∧ n ≤ 0x7C) →
      (ofOpcode? n).all fun op => !op.jumps && !op.isReturn := by decide +kernel
  have hop := htable n (opcode_lt h) hn
  rw [h] at hop
  simpa using hop

namespace Act

variable {pools : Pools} {code : CodeItem} {m s t : Machine} {i : Instruction} {r : Except Fault Unit}

/-! ### One instruction -/

theorem heapBlind_allowance (n : Nat) : HeapBlind fun m => m.allowance = n := fun _ _ _ _ _ h => h

theorem allowance_dispatch (pools : Pools) (i : Instruction) (n : Nat) :
    Keeps (fun m => m.allowance = n) (dispatch pools i) := by
  have hblind := heapBlind_allowance n
  unfold dispatch
  cases Operation.ofOpcode? i.opcode with
  | none => exact keeps_bind (hblind.report _ _) fun _ => keeps_modify fun _ hm => hm
  | some op =>
    refine keeps_bind (hblind.report _ _) fun _ => Robust.perform pools (hblind.robust ?_ ?_ ?_ ?_)
    · intro k v _ m hm
      rw [on_setRegister]
      split <;> exact hm
    · exact fun _ _ => keeps_modify fun _ hm => hm
    · exact fun _ _ hm => hm
    · exact fun _ _ hm => hm

/-- An instruction is paid for, unless there is none or nothing to pay it with. -/
theorem allowance_step (h : (step pools code).on s = (r, t)) :
    (∃ e, r = .error e) ∧ t.allowance = s.allowance ∨ t.allowance + 1 = s.allowance := by
  rw [on_step] at h
  cases hfetch : fetch code.instructions s.pc with
  | error e =>
    rw [hfetch] at h
    obtain ⟨rfl, rfl⟩ := Prod.mk.inj h
    exact .inl ⟨⟨e, rfl⟩, rfl⟩
  | ok i =>
    rw [hfetch] at h
    dsimp only at h
    split at h
    · obtain ⟨rfl, rfl⟩ := Prod.mk.inj h
      exact .inl ⟨⟨_, rfl⟩, rfl⟩
    next hpaid =>
      have hkept : t.allowance = s.allowance - 1 := by
        have := keeps_bind (allowance_dispatch pools i (s.allowance - 1))
          (fun _ => (heapBlind_allowance _).lookAtHeap) { s with allowance := s.allowance - 1 } rfl
        rwa [h] at this
      exact .inr (by omega)

theorem pc_lt_of_step (hcode : code.Straight) (h : (step pools code).on s = (.ok (), t)) :
    s.pc < t.pc := by
  obtain ⟨i, w, hfetch, hdispatch, hlook⟩ := exists_of_on_step h
  rw [(pc_lookAtHeap hlook).1]
  cases hop : Operation.ofOpcode? i.opcode with
  | none =>
    unfold dispatch at hdispatch
    rw [hop] at hdispatch
    obtain rfl := congrArg Prod.snd hdispatch
    exact Int.lt_add_one_of_le (Int.le_refl _)
  | some op =>
    obtain ⟨hjumps, hreturn⟩ := Operation.forward_of_opcode hop (hcode.opcodes i (mem_of_fetch hfetch))
    obtain ⟨log, hon⟩ := exists_on_dispatch pools hop { s with allowance := s.allowance - 1 }
    have houtcome : Outcome op i { s with allowance := s.allowance - 1, log } _ _ :=
      outcome_perform pools op i _
    rw [← hon, hdispatch] at houtcome
    simpa [hjumps, hreturn] using houtcome.moved rfl

theorem eq_of_settle (hcode : code.Straight) (h : (settle code).on m = (.ok .go, s)) : s = m := by
  simp only [settle, on_bind, on_get] at h
  split at h
  · cases h
  · split at h
    · exact (congrArg Prod.snd h).symm
    · split at h
      next block hblock =>
        -- there is no guarded range to catch the exception
        rw [handler?, hcode.tries] at hblock
        cases hblock
      next =>
        rw [(quiet_lift _).on_bind, on_lift] at h
        cases hwritten : m.pending.written <;> rw [hwritten] at h <;> cases h

/-! ### Whole runs -/

/-- From the start to an instruction that is due, a run has gone forwards at least as many places as it has
executed instructions. -/
theorem Visits.allowance_le (hcode : code.Straight) (h : Visits pools code m s) :
    (m.allowance : Int) - s.allowance ≤ s.pc - m.pc := by
  induction h with
  | first hs =>
    obtain rfl := eq_of_settle hcode hs
    omega
  | @next s t u _ ht hu ih =>
    obtain rfl := eq_of_settle hcode hu
    have hforward := pc_lt_of_step hcode ht
    rcases allowance_step ht with ⟨⟨e, he⟩, -⟩ | hpaid
    · cases he
    · omega

theorem allowance_settle {next : Except Fault Next} (h : (settle code).on m = (next, s)) :
    s.allowance = m.allowance := by
  obtain ⟨pc, pending, log, hstate⟩ := state_settle code m
  have hs : s = { m with pc, pending, log } := (congrArg Prod.snd h).symm.trans hstate
  rw [hs]

/-- A run executes at most as many instructions as there are places from its start to the end of the code. -/
theorem allowance_run (hcode : code.Straight) (steps : Nat) (h : (run pools code steps).on m = (r, t)) :
    t.allowance ≤ m.allowance ∧
      (m.allowance : Int) ≤ t.allowance + max 0 (code.instructions.size - m.pc) := by
  induction steps generalizing m with
  | zero =>
    have hsettle : (settle code).on m = (((settle code).on m).1, t) :=
      Prod.ext rfl ((state_run_zero pools code m).symm.trans (congrArg Prod.snd h))
    have hsettled := allowance_settle hsettle
    omega
  | succ steps ih =>
    rcases hsettle : (settle code).on m with ⟨e | next, s⟩
    · have hsettled := allowance_settle hsettle
      rw [run, on_bind_error hsettle] at h
      obtain ⟨-, rfl⟩ := Prod.mk.inj h
      omega
    · have hsettled := allowance_settle hsettle
      rw [run, on_bind_ok hsettle] at h
      cases next with
      | stop =>
        obtain ⟨-, rfl⟩ := Prod.mk.inj h
        omega
      | go =>
        obtain rfl := eq_of_settle hcode hsettle
        have hdue := (ready_of_settle hsettle).1
        rcases hstep : (step pools code).on s with ⟨e | _, u⟩
        -- the instruction that fails is the last one, and one place was left for it
        · have hpaid := allowance_step hstep
          rw [on_bind_error hstep] at h
          obtain ⟨-, rfl⟩ := Prod.mk.inj h
          omega
        · rw [on_bind_ok hstep] at h
          have hrest := ih h
          have hforward := pc_lt_of_step hcode hstep
          rcases allowance_step hstep with ⟨⟨e, he⟩, -⟩ | hpaid
          · cases he
          · omega

/-- More steps than there are places to the end of the code make no difference. -/
theorem on_run_of_le (hcode : code.Straight) {n steps : Nat} (hn : code.instructions.size - m.pc ≤ n)
    (hsteps : n ≤ steps) : (run pools code steps).on m = (run pools code n).on m := by
  induction n generalizing m steps with
  | zero =>
    have hend : (code.instructions.size : Int) ≤ m.pc := by omega
    have hstop : (settle code).on m = (.ok .stop, m) := by
      simp only [settle, on_bind, on_get, if_pos hend, on_pure]
    have hstopped (k : Nat) : (run pools code k).on m = (.ok (), m) := by
      cases k <;> rw [run, on_bind_ok hstop, on_pure]
    rw [hstopped, hstopped]
  | succ n ih =>
    obtain ⟨steps, rfl⟩ := Nat.exists_eq_add_of_le' (Nat.lt_of_lt_of_le (Nat.succ_pos n) hsteps)
    rw [run, run]
    rcases hsettle : (settle code).on m with ⟨e | next, s⟩
    · rw [on_bind_error hsettle, on_bind_error hsettle]
    · rw [on_bind_ok hsettle, on_bind_ok hsettle]
      cases next with
      | stop => rfl
      | go =>
        obtain rfl := eq_of_settle hcode hsettle
        rcases hstep : (step pools code).on s with ⟨e | _, t⟩
        · rw [on_bind_error hstep, on_bind_error hstep]
        · rw [on_bind_ok hstep, on_bind_ok hstep]
          have hforward := pc_lt_of_step hcode hstep
          exact ih (by omega) (by omega)

/-- From a place in the code or at its end, or before the code, straight-line code stops. Whenever an
instruction is due, the run has executed fewer instructions than there are places from its start to the end of
the code; so with that many steps the run has ended, with the same outcome for every larger number of steps,
and it has executed at most that many instructions. -/
theorem straight_code_stops (pools : Pools) (code : CodeItem) (hcode : code.Straight) (m : Machine)
    (hpc : m.pc ≤ code.instructions.size) :
    (∀ s, Visits pools code m s → (m.allowance : Int) - s.allowance < code.instructions.size - m.pc) ∧
    ∃ r t, (∀ steps : Nat, code.instructions.size - m.pc ≤ steps → (run pools code steps).on m = (r, t)) ∧
      (code.instructions.size - m.pc ≤ m.allowance → (execute pools code).on m = (r, t)) ∧
      t.allowance ≤ m.allowance ∧ (m.allowance : Int) - t.allowance ≤ code.instructions.size - m.pc := by
  obtain ⟨n, hn⟩ := Int.eq_ofNat_of_zero_le (Int.sub_nonneg_of_le hpc)
  obtain ⟨r, t, hrun⟩ : ∃ r t, (run pools code n).on m = (r, t) := ⟨_, _, rfl⟩
  have hbound (steps : Nat) (hsteps : code.instructions.size - m.pc ≤ steps) :
      (run pools code steps).on m = (r, t) :=
    (on_run_of_le hcode (Int.le_of_eq hn) (by omega)).trans hrun
  refine ⟨fun s hs => ?_, r, t, hbound, hbound m.allowance, ?_⟩
  · have hplaces := hs.allowance_le hcode
    have hdue := hs.ready.1
    omega
  · obtain ⟨hle, hplaces⟩ := allowance_run hcode n hrun
    exact ⟨hle, by omega⟩

/-- Two instructions, the second with an opcode that stands for no operation. -/
def twoSteps : CodeItem where
  registersSize := 0
  insSize := 0
  outsSize := 0
  triesSize := 0
  instructions := #[{ opcode := 0x00, registers := 0, offset := 0 },
    { opcode := 0xFF, registers := 0, offset := 1 }]
  tries := #[]

/-- A run of the two that starts one place before the first executes three instructions. -/
theorem twoSteps_stops :
    twoSteps.Straight ∧ ((execute {} twoSteps).on { pc := -1, allowance := 5 }).2.allowance = 2 ∧
    (∀ s, Visits {} twoSteps { pc := -1, allowance := 5 } s → (5 : Int) - s.allowance < 3) ∧
    ∃ r t, (∀ steps : Nat, (3 : Int) ≤ steps →
        (run {} twoSteps steps).on { pc := -1, allowance := 5 } = (r, t)) ∧
      ((3 : Int) ≤ 5 → (execute {} twoSteps).on { pc := -1, allowance := 5 } = (r, t)) ∧
      t.allowance ≤ 5 ∧ (5 : Int) - t.allowance ≤ 3 := by
  have hstraight : twoSteps.Straight := ⟨rfl, by decide⟩
  refine ⟨hstraight, by decide +kernel, ?_⟩
  exact straight_code_stops {} twoSteps hstraight { pc := -1, allowance := 5 } (by decide)

end Act

end Handset
