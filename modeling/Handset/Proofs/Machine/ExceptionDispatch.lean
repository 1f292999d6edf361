import Handset.Machine.Calls
import Handset.Proofs.Machine.Runs

/-!
# Where a run goes on after an exception

An operation that makes an exception pending moves the program counter to the next instruction and
does nothing else. A run looks for a handler only then, so the guarded range that counts is the first
one around the instruction after the one that raised the exception.
-/
namespace Handset.Act

open Step

open Dex (CodeItem Instruction TryBlock)

/-- The action leaves the pending exception alone, or it makes one pending, moves on to the next
instruction and does nothing else. -/
def RaisesOnly (act : Act Unit) (m : Machine) : Prop :=
  (act.on m).2.pending = m.pending ∨
    ∃ v, act.on m = (.ok (), { m with pending := v, pc := m.pc + 1 })

theorem RaisesOnly.quiet_bind {α : Type} {x : Act α} {f : α → Act Unit} {m : Machine} (hx : Quiet x)
    (hf : ∀ a, RaisesOnly (f a) m) : RaisesOnly (x >>= f) m := by
  unfold RaisesOnly
  rw [hx.on_bind]
  cases (x.on m).1 with
  | ok a => exact hf a
  | error e => exact .inl rfl

theorem raisesOnly_raise (v : Value) (m : Machine) : RaisesOnly (do raise v; advance 1) m :=
  .inr ⟨v, rfl⟩

private theorem heapBlind_pending (v : Value) : HeapBlind fun m => m.pending = v :=
  fun _ _ _ _ _ h => h

private theorem setRegister_keeps_pending (v : Value) (n : Nat) (w : Value) :
    Keeps (fun m => m.pending = v) (setRegister n w) := by
  intro m hm
  rw [on_setRegister]
  split <;> exact hm

private theorem store_keeps_pending (v : Value) (width : Width) (n : Nat) (w : Value) :
    Keeps (fun m => m.pending = v) (store width n w) := by
  cases width with
  | single => exact setRegister_keeps_pending v n w
  | wide =>
    exact keeps_bind (quiet_lift _).keeps fun _ => keeps_bind (setRegister_keeps_pending v _ _) fun _ =>
      keeps_bind (quiet_lift _).keeps fun _ => setRegister_keeps_pending v _ _

/-- What a raising operation does besides is to move on. -/
theorem raisesOnly_perform (pools : Pools) (op : Operation) (i : Instruction) (m : Machine) :
    RaisesOnly (perform pools op i) m := by
  cases hraises : op.raises with
  | false =>
    refine .inl (Robust.perform pools ((heapBlind_pending m.pending).robust ?_ ?_ ?_ ?_) m rfl)
    · exact fun n v _ => setRegister_keeps_pending _ n v
    · simp [hraises]
    · exact fun _ _ h => h
    · exact fun _ _ h => h
  | true =>
    cases op with
    | throwValue => exact .quiet_bind (quiet_register _) fun v => raisesOnly_raise v m
    | checkCast =>
      refine .quiet_bind (quiet_operand _ _ _) fun index => .quiet_bind (quiet_lift _) fun target =>
        .quiet_bind (quiet_register _) fun object => .quiet_bind (quiet_typeOf _) fun type => ?_
      split
      · exact .inl rfl
      · exact .quiet_bind (quiet_lift _) fun found => .quiet_bind (quiet_lift _) fun wanted =>
          raisesOnly_raise _ m
    | binary width op =>
      refine .quiet_bind (quiet_load _ _) fun v => .quiet_bind (quiet_load _ _) fun w => ?_
      split
      · exact raisesOnly_raise _ m
      · refine .quiet_bind (quiet_withMemory _) fun r => .inl ?_
        have hkeeps : Keeps (fun s => s.pending = m.pending) (do store width i.a r; advance 1) :=
          keeps_bind (store_keeps_pending _ width _ r) fun _ => keeps_modify fun _ h => h
        exact hkeeps m rfl
    | _ => cases hraises

theorem raisesOnly_dispatch (pools : Pools) (i : Instruction) (m : Machine) :
    ((dispatch pools i).on m).2.pending = m.pending ∨
      ∃ v log, (dispatch pools i).on m = (.ok (), { m with pending := v, pc := m.pc + 1, log }) := by
  unfold dispatch
  split
  next op _ =>
    rcases raisesOnly_perform pools op i _ with h | ⟨v, h⟩
    · exact .inl h
    · exact .inr ⟨v, _, h⟩
  next => exact .inl rfl

/-- An instruction that makes an exception pending leaves the run at the next instruction. -/
theorem pc_step_of_raised {pools : Pools} {code : CodeItem} {m : Machine}
    (hnone : m.pending = .none) (hraised : ((step pools code).on m).2.pending ≠ .none) :
    ((step pools code).on m).2.pc = m.pc + 1 := by
  revert hraised
  rw [on_step]
  cases fetch code.instructions m.pc with
  | error e => exact absurd hnone
  | ok i =>
    dsimp only
    split
    · exact absurd hnone
    next hallowance =>
      intro hraised
      rcases raisesOnly_dispatch pools i { m with allowance := m.allowance - 1 } with h | ⟨v, log, h⟩
      · refine absurd ?_ hraised
        rw [on_bind]
        rcases hd : (dispatch pools i).on { m with allowance := m.allowance - 1 } with ⟨r, t⟩
        have ht : t.pending = .none := by rw [← hnone, ← h, hd]
        cases r with
        | ok _ => exact (heapBlind_pending _).lookAtHeap t ht
        | error e => exact ht
      · rw [on_bind_ok h]
        have hpc : HeapBlind fun s => s.pc = m.pc + 1 := fun _ _ _ _ _ hs => hs
        exact hpc.lookAtHeap _ rfl

/-- Where a run that stands at `pc` goes on if an exception is pending: at the handler of the first
guarded range around `pc`, nowhere outside all ranges or behind the code. -/
def landing (code : CodeItem) (pc : Int) : Option Int :=
  if code.instructions.size ≤ pc then none else (handler? code.tries pc).map (·.handler)

private theorem isNone_eq_false {v : Value} (h : v ≠ .none) : v.isNone = false := by
  cases v with
  | none => exact absurd rfl h
  | _ => rfl

/-- A run that lands goes to the handler, and the exception is no longer pending. -/
theorem settle_of_landing {code : CodeItem} {t : Machine} {target : Int} (ht : t.pending ≠ .none)
    (h : landing code t.pc = some target) :
    ∃ log, (settle code).on t = (.ok (if code.instructions.size ≤ target then .stop else .go),
      { t with pc := target, pending := .none, log }) := by
  unfold landing at h
  split at h
  · cases h
  next hend =>
    obtain ⟨range, hrange, rfl⟩ := Option.map_eq_some_iff.mp h
    simp only [settle, on_bind, on_get, if_neg hend, isNone_eq_false ht, Bool.false_eq_true, if_false,
      hrange]
    exact ⟨_, rfl⟩

/-- A run that does not land ends where it is, with the exception still pending. -/
theorem run_of_landing_none {pools : Pools} {code : CodeItem} {t : Machine} (ht : t.pending ≠ .none)
    (h : landing code t.pc = none) (steps : Nat) :
    ∃ log, ((run pools code steps).on t).2 = { t with log } := by
  have hsettle : ∃ log, (settle code).on t = (.ok .stop, { t with log }) ∨
      ∃ e, (settle code).on t = (.error e, { t with log }) := by
    unfold landing at h
    by_cases hend : code.instructions.size ≤ t.pc
    · exact ⟨t.log, .inl (by simp only [settle, on_bind, on_get, if_pos hend]; rfl)⟩
    · rw [if_neg hend, Option.map_eq_none_iff] at h
      simp only [settle, on_bind, on_get, if_neg hend, isNone_eq_false ht, Bool.false_eq_true, if_false,
        h, on_lift]
      cases t.pending.written with
      | ok shown => exact ⟨_, .inl rfl⟩
      | error e => exact ⟨t.log, .inr ⟨e, rfl⟩⟩
  obtain ⟨log, hstop | ⟨e, herror⟩⟩ := hsettle
  · refine ⟨log, ?_⟩
    cases steps <;> rw [run, on_bind_ok hstop] <;> rfl
  · refine ⟨log, ?_⟩
    cases steps <;> rw [run, on_bind_error herror]

/-- Where a run goes on after the instruction at hand has made an exception pending. The look at the
heap that follows some instructions may fail, and then the run is over. -/
def landingAfter (pools : Pools) (code : CodeItem) (m : Machine) : Option Int :=
  match ((step pools code).on m).1 with
  | .ok _ => landing code (m.pc + 1)
  | .error _ => none

/-- After the instruction at hand, the run goes on at the target and the exception is not pending any
more; without a target it executes nothing further and the exception stays pending. -/
def GoesOnAt (pools : Pools) (code : CodeItem) (m : Machine) : Option Int → Prop
  | some target => ∃ t u : Machine, (step pools code).on m = (.ok (), t) ∧
      (settle code).on t = (.ok (if code.instructions.size ≤ target then .stop else .go), u) ∧
      u.pc = target ∧ u.pending = .none
  | none => ∀ steps, ∃ log,
      ((run pools code (steps + 1)).on m).2 = { ((step pools code).on m).2 with log }

section GoesOnAt

variable {pools : Pools} {code : CodeItem} {m : Machine}

theorem pc_lt_of_raised (hnone : m.pending = .none)
    (hraised : ((step pools code).on m).2.pending ≠ .none) : m.pc < code.instructions.size := by
  refine Int.not_le.mp fun hend => ?_
  have hfetch : fetch code.instructions m.pc = .error .itemOutOfRange := by
    have hpos : ¬ m.pc < 0 := by omega
    simp only [fetch, if_neg hpos]
    rw [Array.getElem?_eq_none (by omega)]
  rw [on_step, hfetch] at hraised
  exact hraised hnone

theorem goesOnAt_landingAfter (hnone : m.pending = .none)
    (hraised : ((step pools code).on m).2.pending ≠ .none) :
    GoesOnAt pools code m (landingAfter pools code m) := by
  have hrun (steps : Nat) : (run pools code (steps + 1)).on m =
      (do step pools code; run pools code steps).on m :=
    on_run_succ (pc_lt_of_raised hnone hraised) hnone steps
  have hpc := pc_step_of_raised hnone hraised
  unfold landingAfter
  rcases hstep : (step pools code).on m with ⟨outcome, t⟩
  rw [hstep] at hraised hpc
  cases outcome with
  | error e =>
    intro steps
    rw [hrun, on_bind_error hstep, hstep]
    exact ⟨t.log, rfl⟩
  | ok _ =>
    dsimp only at hpc ⊢
    cases hlanding : landing code (m.pc + 1) with
    | some target =>
      obtain ⟨log, hsettle⟩ := settle_of_landing hraised (hpc ▸ hlanding)
      exact ⟨t, _, hstep, hsettle, rfl, rfl⟩
    | none =>
      intro steps
      rw [hrun, on_bind_ok hstep, hstep]
      exact run_of_landing_none hraised (hpc ▸ hlanding) steps

/-- A run that lands does not end with the exception. -/
theorem GoesOnAt.not_none (hnone : m.pending = .none)
    (hraised : ((step pools code).on m).2.pending ≠ .none) {target : Int}
    (h : GoesOnAt pools code m (some target)) : ¬ GoesOnAt pools code m none := by
  intro hstays
  obtain ⟨t, u, hstep, hsettle, -, hu⟩ := h
  obtain ⟨log, hfinal⟩ := hstays 0
  rw [on_run_succ (pc_lt_of_raised hnone hraised) hnone, on_bind_ok hstep, state_run_zero, hsettle,
    hstep] at hfinal
  rw [hstep] at hraised
  have hpending := congrArg Machine.pending hfinal
  exact hraised (hpending.symm.trans hu)

theorem GoesOnAt.unique (hnone : m.pending = .none)
    (hraised : ((step pools code).on m).2.pending ≠ .none) {p q : Option Int}
    (hp : GoesOnAt pools code m p) (hq : GoesOnAt pools code m q) : p = q := by
  cases p with
  | none =>
    cases q with
    | none => rfl
    | some _ => exact absurd hp (hq.not_none hnone hraised)
  | some _ =>
    cases q with
    | none => exact absurd hq (hp.not_none hnone hraised)
    | some _ =>
      obtain ⟨t, u, hstep, hsettle, rfl, -⟩ := hp
      obtain ⟨t', u', hstep', hsettle', rfl, -⟩ := hq
      obtain rfl : t = t' := congrArg Prod.snd (hstep.symm.trans hstep')
      exact congrArg (fun r => some r.2.pc) (hsettle.symm.trans hsettle')

end GoesOnAt

/-- An exception that the instruction at `m.pc` makes pending is handled as if it came from the
instruction after it: the run goes on at the handler of the first guarded range around `m.pc + 1`, and
ends with the exception if there is none or the code ends there. It goes on at the handler of the first
range around `m.pc` itself exactly if that is the same. -/
theorem run_after_exception {pools : Pools} {code : CodeItem} {m : Machine}
    (hnone : m.pending = .none) (hraised : ((step pools code).on m).2.pending ≠ .none) :
    ((step pools code).on m).2.pc = m.pc + 1 ∧
      GoesOnAt pools code m (landingAfter pools code m) ∧
      (GoesOnAt pools code m ((handler? code.tries m.pc).map (·.handler)) ↔
        landingAfter pools code m = (handler? code.tries m.pc).map (·.handler)) := by
  have hgoes := goesOnAt_landingAfter hnone hraised
  refine ⟨pc_step_of_raised hnone hraised, hgoes, fun h => hgoes.unique hnone hraised h, fun h => ?_⟩
  rwa [← h]

/-- Makes an object and throws it; only the throwing instruction is guarded. -/
def narrowlyGuarded : CodeItem where
  registersSize := 3
  insSize := 0
  outsSize := 0
  triesSize := 1
  instructions := #[⟨0x22, 0, 0⟩, ⟨0xF0, 0, 0⟩, ⟨0x27, 0, 0⟩, ⟨0xF0, 0, 0⟩, ⟨0xF0, 0, 0⟩]
  tries := #[⟨2, 1, 4⟩]

/-- About to throw object 1. -/
def throwingMachine : Machine where
  registers := #[.none, .none, .int 1]
  cells := #[.object { className := .text "LA;" }]
  pc := 2

/-- A range around a throwing instruction alone does not catch what it throws. -/
theorem run_after_narrowly_guarded_exception :
    throwingMachine.pending = .none ∧ ((step {} narrowlyGuarded).on throwingMachine).2.pending ≠ .none ∧
      GoesOnAt {} narrowlyGuarded throwingMachine none ∧
      ¬ GoesOnAt {} narrowlyGuarded throwingMachine (some 4) := by
  have hraised : ((step {} narrowlyGuarded).on throwingMachine).2.pending ≠ .none := by
    intro h
    cases h
  obtain ⟨-, hgoes, hexact⟩ := run_after_exception (m := throwingMachine) rfl hraised
  have hlanding : landingAfter {} narrowlyGuarded throwingMachine = none := rfl
  have hguarded : (handler? narrowlyGuarded.tries throwingMachine.pc).map (·.handler) = some 4 := rfl
  rw [hlanding] at hgoes hexact
  rw [hguarded] at hexact
  refine ⟨rfl, hraised, hgoes, fun h => ?_⟩
  cases hexact.mp h

/-- The whole method ends with an exception pending, right behind the guarded range. -/
theorem interpret_narrowlyGuarded :
    let m := ((interpret { types := #[.text "LA;"] } (fun _ => some narrowlyGuarded)
      ⟨.object [("class_name", .text "LA;"), ("name", .text "main"), ("code_off", .int 1)]⟩).on
        { services := some { code := Array.replicate 8 0 } }).2
    m.pending.isNone = false ∧ m.pc = 3 := by
  decide +kernel

end Handset.Act
