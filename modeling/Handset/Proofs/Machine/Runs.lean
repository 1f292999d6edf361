import Handset.Proofs.Machine.Footprint

/-!
# Runs

What the parts of a run do to a machine, and the states in which a run executes its instructions. A
property that survives the settling before an instruction and the instruction itself survives the run.
-/
namespace Handset.Act

open Step

open Dex (CodeItem Instruction)

variable {P : Machine → Prop} {pools : Pools} {code : CodeItem}

/-- The look at the heap after an instruction. -/
def lookAtHeap : Act Unit := do
  if (← get).pc % collectionInterval = 0 then collectIfNeeded

theorem keeps_lookAtHeap (h : Keeps P collectIfNeeded) : Keeps P lookAtHeap := by
  refine keeps_bind quiet_get.keeps fun m => ?_
  split
  · exact h
  · exact (quiet_pure _).keeps

theorem HeapBlind.lookAtHeap (h : HeapBlind P) : Keeps P Act.lookAtHeap :=
  keeps_lookAtHeap h.collectIfNeeded

theorem on_spend (m : Machine) :
    spend.on m = if m.allowance = 0 then (.error .outOfSteps, m)
      else (.ok (), { m with allowance := m.allowance - 1 }) := by
  simp only [spend, on_bind, on_get]
  split <;> rfl

/-- An instruction is fetched, paid for and carried out. -/
theorem on_step (pools : Pools) (code : CodeItem) (m : Machine) :
    (step pools code).on m = match fetch code.instructions m.pc with
      | .error e => (.error e, m)
      | .ok i =>
        if m.allowance = 0 then (.error .outOfSteps, m)
        else (do dispatch pools i; lookAtHeap).on { m with allowance := m.allowance - 1 } := by
  simp only [step, on_bind, on_get, on_lift]
  cases fetch code.instructions m.pc with
  | error e => rfl
  | ok i =>
    by_cases hspent : m.allowance = 0
    · simp only [on_spend, hspent, if_true]
    · simp only [on_spend, hspent, if_false]
      rfl

/-- A known instruction is recorded and then carried out. -/
theorem exists_on_dispatch (pools : Pools) {i : Instruction} {op : Operation}
    (hop : Operation.ofOpcode? i.opcode = some op) (m : Machine) :
    ∃ log, (dispatch pools i).on m = (perform pools op i).on { m with log } := by
  unfold dispatch
  rw [hop]
  exact ⟨_, on_bind_ok (on_report _ _ m) _⟩

theorem mem_of_fetch {instructions : Array Instruction} {pc : Int} {i : Instruction}
    (h : fetch instructions pc = .ok i) : i ∈ instructions := by
  simp only [fetch] at h
  generalize (if pc < 0 then pc + instructions.size else pc) = p at h
  split at h
  · cases h
  · split at h
    next hi =>
      obtain rfl := Except.ok.inj h
      exact Array.mem_of_getElem? hi
    next => cases h

/-- Carrying out an instruction keeps a property that payment, the instructions of the code and collection
keep. -/
theorem keeps_step_of_look (hlook : Keeps P lookAtHeap)
    (hallowance : ∀ (m : Machine) allowance, P m → P { m with allowance })
    (hdispatch : ∀ i ∈ code.instructions, Keeps P (dispatch pools i)) : Keeps P (step pools code) := by
  intro m hm
  rw [on_step]
  cases hfetch : fetch code.instructions m.pc with
  | error e => exact hm
  | ok i =>
    dsimp only
    split
    · exact hm
    · exact keeps_bind (hdispatch i (mem_of_fetch hfetch)) (fun _ => hlook) _ (hallowance m _ hm)

theorem keeps_step (hheap : HeapBlind P)
    (hallowance : ∀ (m : Machine) allowance, P m → P { m with allowance })
    (hdispatch : ∀ i ∈ code.instructions, Keeps P (dispatch pools i)) : Keeps P (step pools code) :=
  keeps_step_of_look hheap.lookAtHeap hallowance hdispatch

/-- Settling touches the program counter, the pending exception and the log. -/
theorem state_settle (code : CodeItem) (m : Machine) :
    ∃ pc pending log, ((settle code).on m).2 = { m with pc, pending, log } := by
  simp only [settle, on_bind, on_get]
  split
  · exact ⟨m.pc, m.pending, m.log, rfl⟩
  · split
    · exact ⟨m.pc, m.pending, m.log, rfl⟩
    · split
      next t _ => exact ⟨t.handler, .none, _, rfl⟩
      next =>
        rw [(quiet_lift _).on_bind, on_lift]
        cases m.pending.written with
        | ok shown => exact ⟨m.pc, m.pending, _, rfl⟩
        | error e => exact ⟨m.pc, m.pending, m.log, rfl⟩

theorem keeps_settle (hheap : HeapBlind P)
    (hjump : ∀ (m : Machine) pc pending, P m → P { m with pc, pending }) :
    Keeps P (settle code) := by
  intro m hm
  obtain ⟨pc, pending, log, hstate⟩ := state_settle code m
  rw [hstate]
  exact hheap _ m.cells m.used m.collections log (hjump m pc pending hm)

/-- An instruction is due only inside the code and with no exception pending. -/
theorem ready_of_settle {m s : Machine} (h : (settle code).on m = (.ok .go, s)) :
    s.pc < code.instructions.size ∧ s.pending = .none := by
  simp only [settle, on_bind, on_get] at h
  split at h
  · cases h
  next hend =>
    split at h
    next hnone =>
      obtain rfl : m = s := congrArg Prod.snd h
      refine ⟨Int.not_le.mp hend, ?_⟩
      cases hpending : m.pending with
      | none => rfl
      | _ => simp [hpending, Value.isNone] at hnone
    next =>
      split at h
      next block _ =>
        have hinside : ¬ code.instructions.size ≤ block.handler := by
          intro hend
          have hstop := Except.ok.inj (congrArg Prod.fst h)
          rw [if_pos hend] at hstop
          cases hstop
        obtain rfl := congrArg Prod.snd h
        exact ⟨Int.not_le.mp hinside, rfl⟩
      next =>
        rw [(quiet_lift _).on_bind, on_lift] at h
        cases hwritten : m.pending.written <;> rw [hwritten] at h <;> cases h

theorem settle_ready {m : Machine} (hend : m.pc < code.instructions.size) (hnone : m.pending = .none) :
    (settle code).on m = (.ok .go, m) := by
  simp only [settle, on_bind, on_get, if_neg (Int.not_le.mpr hend), hnone]
  rfl

/-- A run without steps settles and does no more. -/
theorem state_run_zero (pools : Pools) (code : CodeItem) (m : Machine) :
    ((run pools code 0).on m).2 = ((settle code).on m).2 := by
  rw [run, on_bind]
  rcases (settle code).on m with ⟨next | next, t⟩
  · rfl
  · cases next with
    | stop => rfl
    | go => exact quiet_bind quiet_get (fun _ => quiet_bind (quiet_lift _) fun _ => quiet_throw _) t

/-- What settling and single instructions keep, a run keeps, however long it is. -/
theorem keeps_run (hsettle : Keeps P (settle code)) (hstep : Keeps P (step pools code)) (steps : Nat) :
    Keeps P (run pools code steps) := by
  induction steps with
  | zero =>
    refine keeps_bind hsettle fun next => ?_
    cases next with
    | stop => exact (quiet_pure _).keeps
    | go =>
      exact (quiet_bind quiet_get fun _ => quiet_bind (quiet_lift _) fun _ => quiet_throw _).keeps
  | succ steps ih =>
    refine keeps_bind hsettle fun next => ?_
    cases next with
    | stop => exact (quiet_pure _).keeps
    | go => exact keeps_bind hstep fun _ => ih

/-- From a state in which an instruction is due, a run executes it and goes on. -/
theorem on_run_succ {m : Machine} (hend : m.pc < code.instructions.size) (hnone : m.pending = .none)
    (steps : Nat) :
    (run pools code (steps + 1)).on m = (do step pools code; run pools code steps).on m :=
  on_bind_ok (settle_ready hend hnone) _

/-- Settling again changes nothing. -/
theorem on_run_of_settle {m s : Machine} (h : (settle code).on m = (.ok .go, s)) (steps : Nat) :
    (run pools code steps).on m = (run pools code steps).on s := by
  obtain ⟨hend, hnone⟩ := ready_of_settle h
  have hs := settle_ready hend hnone
  cases steps <;> rw [run, on_bind_ok h, on_bind_ok hs]

/-- A run that has ended does not go on, however many steps it is given. -/
theorem on_run_add {m t : Machine} {steps : Nat} (h : (run pools code steps).on m = (.ok (), t)) (extra : Nat) :
    (run pools code (steps + extra)).on m = (.ok (), t) := by
  induction steps generalizing m with
  | zero =>
    rcases hsettle : (settle code).on m with ⟨e | _ | _, s⟩
    · rw [run, on_bind_error hsettle] at h
      cases h
    · rw [run, on_bind_ok hsettle] at h
      rw [Nat.zero_add]
      cases extra <;> rw [run, on_bind_ok hsettle, h]
    · rw [run, on_bind_ok hsettle] at h
      obtain ⟨_, -, h⟩ := quiet_get.exists_of_on_bind h
      obtain ⟨_, -, h⟩ := (quiet_lift _).exists_of_on_bind h
      cases h
  | succ steps ih =>
    rw [Nat.succ_add]
    rcases hsettle : (settle code).on m with ⟨e | _ | _, s⟩
    · rw [run, on_bind_error hsettle] at h
      cases h
    · rw [run, on_bind_ok hsettle] at h ⊢
      exact h
    · rw [run, on_bind_ok hsettle] at h ⊢
      obtain ⟨_, w, hstep, hrest⟩ := exists_of_on_bind h
      rw [on_bind_ok hstep]
      exact ih hrest

theorem keeps_execute (hsettle : Keeps P (settle code)) (hstep : Keeps P (step pools code)) :
    Keeps P (execute pools code) :=
  keeps_bind quiet_get.keeps fun m => keeps_run hsettle hstep m.allowance

/-- The machine after at most `steps` instructions of a run. -/
def after (pools : Pools) (code : CodeItem) (steps : Nat) (m : Machine) : Machine :=
  ((run pools code steps).on m).2

theorem after_of_stop {m s : Machine} (h : (settle code).on m = (.ok .stop, s)) (steps : Nat) :
    after pools code steps m = s := by
  cases steps <;> simp only [after, run, on_bind_ok h, on_pure]

theorem after_of_fault {m s : Machine} {e : Fault} (h : (settle code).on m = (.error e, s))
    (steps : Nat) : after pools code steps m = s := by
  cases steps <;> simp only [after, run, on_bind_error h]

theorem after_succ_of_go {m s : Machine} (h : (settle code).on m = (.ok .go, s)) (steps : Nat) :
    after pools code (steps + 1) m = ((do step pools code; run pools code steps).on s).2 := by
  simp only [after, run, on_bind_ok h]

/-- One instruction more of a run is that instruction and the settling after it, unless the run is over. -/
theorem after_succ (pools : Pools) (code : CodeItem) (steps : Nat) (m : Machine) :
    after pools code (steps + 1) m = after pools code steps m ∨
      after pools code (steps + 1) m =
        ((do step pools code; settle code).on (after pools code steps m)).2 := by
  induction steps generalizing m with
  | zero =>
    rcases hsettle : (settle code).on m with ⟨next | next, s⟩
    · exact .inl (by rw [after_of_fault hsettle, after_of_fault hsettle])
    · cases next with
      | stop => exact .inl (by rw [after_of_stop hsettle, after_of_stop hsettle])
      | go =>
        right
        rw [after_succ_of_go hsettle, after, state_run_zero, hsettle]
        rcases hstep : (step pools code).on s with ⟨outcome | outcome, t⟩
        · rw [on_bind_error hstep, on_bind_error hstep]
        · rw [on_bind_ok hstep, on_bind_ok hstep, state_run_zero]
  | succ steps ih =>
    rcases hsettle : (settle code).on m with ⟨next | next, s⟩
    · exact .inl (by rw [after_of_fault hsettle, after_of_fault hsettle])
    · cases next with
      | stop => exact .inl (by rw [after_of_stop hsettle, after_of_stop hsettle])
      | go =>
        rw [after_succ_of_go hsettle, after_succ_of_go hsettle]
        rcases hstep : (step pools code).on s with ⟨outcome | outcome, t⟩
        · exact .inl (by rw [on_bind_error hstep, on_bind_error hstep])
        · rw [on_bind_ok hstep, on_bind_ok hstep]
          exact ih t

/-- The states in which a run that starts in `m` is about to execute an instruction. -/
inductive Visits (pools : Pools) (code : CodeItem) (m : Machine) : Machine → Prop where
  | first {s : Machine} : (settle code).on m = (.ok .go, s) → Visits pools code m s
  | next {s t u : Machine} : Visits pools code m s → (step pools code).on s = (.ok (), t) →
    (settle code).on t = (.ok .go, u) → Visits pools code m u

theorem Visits.ready {m s : Machine} (h : Visits pools code m s) :
    s.pc < code.instructions.size ∧ s.pending = .none := by
  cases h with
  | first hs => exact ready_of_settle hs
  | next _ _ hu => exact ready_of_settle hu

/-- A run goes on from each state that it visits. -/
theorem Visits.exists_on_run {m s : Machine} (h : Visits pools code m s) :
    ∃ n, ∀ steps, (run pools code (n + steps)).on m = (run pools code steps).on s := by
  induction h with
  | first hs => exact ⟨0, fun steps => by rw [Nat.zero_add, on_run_of_settle hs]⟩
  | @next s t u hs ht hu ih =>
    obtain ⟨n, hn⟩ := ih
    obtain ⟨hend, hnone⟩ := hs.ready
    refine ⟨n + 1, fun steps => ?_⟩
    have hsucc : n + 1 + steps = n + (steps + 1) := by omega
    rw [hsucc, hn, on_run_succ hend hnone, on_bind_ok ht, on_run_of_settle hu]

theorem Visits.of_keeps {m s : Machine} (h : Visits pools code m s) (hsettle : Keeps P (settle code))
    (hstep : Keeps P (step pools code)) (hm : P m) : P s := by
  induction h with
  | first hs =>
    have := hsettle m hm
    rwa [hs] at this
  | next _ ht hu ih =>
    have hPt := hstep _ ih
    rw [ht] at hPt
    have hPu := hsettle _ hPt
    rwa [hu] at hPu

end Handset.Act
